import TcpHw.Lib.Pool
import TcpHw.Lib.Trace
import TcpHw.Common.PacketQueue

/-!
# `flowid_manager` and its FIFO

Flow IDs come from a counter until it wraps, and then from the FIFO of returned ones. A
request served from the FIFO still moves the counter, and with it `use_fifo_reg` falls again.
So the manager hands out each ID once, recycles one, and then counts through all IDs a second
time, whether they are in use or not.
-/
namespace TcpHw

open Trace

set_option autoImplicit false

/-- The registers, at any `FLOWID_W`. -/
structure FlowidManagerFifo (w : Nat) where
  flowidReg : BitVec w
  useFifo : Bool
  reclaimed : Fifo1r1w w (BitVec w)

namespace FlowidManagerFifo

variable {w : Nat} (m : FlowidManagerFifo w)

/-- `flowid_avail` -/
def avail : Bool := if m.useFifo then !m.reclaimed.empty else true

/-- `flowid` -/
def flowid : Option (BitVec w) := if m.useFifo then m.reclaimed.rdData else some m.flowidReg

/-- One clock edge, with `flowid_req` and a returned ID. The write request of the FIFO does not
wait for `flowid_ret_rdy`. -/
def step (req : Bool) (ret : Option (BitVec w)) : FlowidManagerFifo w where
  flowidReg :=
    if req then if m.flowidReg = BitVec.allOnes w then 0 else m.flowidReg + 1 else m.flowidReg
  useFifo := if req then decide (m.flowidReg = BitVec.allOnes w) else m.useFifo
  reclaimed := m.reclaimed.step ret (req && m.useFifo)

def Init : Prop := m.flowidReg = 0 ∧ m.useFifo = false ∧ m.reclaimed.Init

end FlowidManagerFifo

/-- What a request delivered, and the IDs in use at that time. -/
structure FlowidGrant (w : Nat) where
  flowid : Option (BitVec w)
  inUse : Finset (BitVec w)

/-- The manager with its users: the IDs in use, whether a request was already served from the
FIFO, and the grants so far. -/
structure FlowidRun (w : Nat) where
  mgr : FlowidManagerFifo w
  inUse : Finset (BitVec w)
  recycled : Bool
  grants : List (FlowidGrant w)

structure FlowidIn (w : Nat) where
  req : Bool
  ret : Option (BitVec w)

namespace FlowidRun

variable {w : Nat}

/-- Requests are made when an ID is available, and IDs in use are returned. -/
def Allowed (s : FlowidRun w) (i : FlowidIn w) : Prop :=
  (i.req = true → s.mgr.avail = true) ∧ ∀ x ∈ i.ret, x ∈ s.inUse

instance (s : FlowidRun w) (i : FlowidIn w) : Decidable (s.Allowed i) :=
  inferInstanceAs (Decidable (_ ∧ _))

/-- The ID a request takes. -/
def taken (s : FlowidRun w) (i : FlowidIn w) : Option (BitVec w) :=
  if i.req then s.mgr.flowid else none

def next (s : FlowidRun w) (i : FlowidIn w) : FlowidRun w where
  mgr := s.mgr.step i.req i.ret
  inUse := (s.inUse ∪ (s.taken i).toFinset) \ i.ret.toFinset
  recycled := s.recycled || (i.req && s.mgr.useFifo)
  grants := s.grants ++ if i.req then [{ flowid := s.mgr.flowid, inUse := s.inUse }] else []

def step (s : FlowidRun w) (i : FlowidIn w) : Option (FlowidRun w) :=
  if s.Allowed i then some (s.next i) else none

def Init (s : FlowidRun w) : Prop :=
  s.mgr.Init ∧ s.inUse = ∅ ∧ s.recycled = false ∧ s.grants = []

/-- A grant of an ID that is not in use. -/
def Sound (g : FlowidGrant w) : Prop := ∃ x, g.flowid = some x ∧ x ∉ g.inUse

/-- Every request got an ID that was not in use, and none is refused before all are in use. -/
structure NeverTwice (s : FlowidRun w) : Prop where
  grants : ∀ g ∈ s.grants, Sound g
  avail : s.mgr.avail = false → ∀ x, x ∈ s.inUse

/-- No request once one was served from the FIFO. -/
def FirstLap (s : FlowidRun w) (i : FlowidIn w) : Prop := i.req = true → s.recycled = false

instance (s : FlowidRun w) (i : FlowidIn w) : Decidable (FirstLap s i) :=
  inferInstanceAs (Decidable (_ → _))

/-- The IDs the manager has handed out: those below the counter in the first lap, all of them
when it takes them from the FIFO. -/
def Known (s : FlowidRun w) (x : BitVec w) : Prop :=
  s.mgr.useFifo = true ∨ x.toNat < s.mgr.flowidReg.toNat

/-- The FIFO holds the IDs that are known and not in use. After the lap only the part of it
that keeps the FIFO from overflowing is needed. -/
structure Inv (s : FlowidRun w) (l : List (BitVec w)) : Prop where
  fifo : s.mgr.reclaimed.Represents l
  pool : ∃ known, Pool known s.inUse l ∧
    (s.mgr.useFifo = true ∨ s.recycled = false → ∀ x, known x ↔ s.Known x)
  grants : ∀ g ∈ s.grants, Sound g

variable {s : FlowidRun w} {i : FlowidIn w} {l : List (BitVec w)}

/-- A returned ID finds room in the FIFO. -/
theorem room_of_mem {known : BitVec w → Prop} (h : Pool known s.inUse l) {x : BitVec w}
    (hx : x ∈ s.inUse) : l.length < 2 ^ w := by
  have hS : ∀ y, known y → y ∈ (Finset.range (2 ^ w)).image (BitVec.ofNat w) := by
    intro y _
    exact Finset.mem_image.mpr ⟨y.toNat, Finset.mem_range.mpr y.isLt, by simp⟩
  calc l.length < ((Finset.range (2 ^ w)).image (BitVec.ofNat w)).card := h.length_lt hS hx
    _ ≤ (Finset.range (2 ^ w)).card := Finset.card_image_le
    _ = 2 ^ w := Finset.card_range _

theorem Inv.reclaimed (h : Inv s l) (ha : s.Allowed i) (hl : i.req && s.mgr.useFifo → l ≠ []) :
    (s.next i).mgr.reclaimed.Represents
      ((if i.req && s.mgr.useFifo then l.tail else l) ++ i.ret.toList) := by
  obtain ⟨known, hpool, -⟩ := h.pool
  refine h.fifo.step (fun hr => ?_) hl
  obtain ⟨x, hx⟩ := Option.isSome_iff_exists.mp hr
  exact room_of_mem hpool (ha.2 x hx)

/-- What is free and what is in use after a cycle, from the two before the returned ID. -/
theorem pool_ret {known : BitVec w → Prop} {l' : List (BitVec w)} (ha : s.Allowed i)
    (h : Pool known (s.inUse ∪ (s.taken i).toFinset) l') :
    Pool known (s.next i).inUse (l' ++ i.ret.toList) :=
  h.giveBack fun x hx => Finset.mem_union_left _ (ha.2 x hx)

theorem inv_idle (h : Inv s l) (ha : s.Allowed i) (hreq : i.req = false) :
    Inv (s.next i) (l ++ i.ret.toList) := by
  have hfifo := h.reclaimed ha (by simp [hreq])
  obtain ⟨known, hpool, hknown⟩ := h.pool
  have htaken : s.taken i = none := by simp [taken, hreq]
  refine ⟨by simpa [hreq] using hfifo, ⟨known, pool_ret ha (by simpa [htaken] using hpool), ?_⟩, ?_⟩
  · simpa [next, FlowidManagerFifo.step, hreq, Known] using hknown
  · simpa [next, hreq] using h.grants

/-- A request served from the FIFO takes its oldest ID. -/
theorem inv_recycle {x : BitVec w} (h : Inv s (x :: l)) (ha : s.Allowed i) (hreq : i.req = true)
    (hf : s.mgr.useFifo = true) : Inv (s.next i) (l ++ i.ret.toList) := by
  have hfifo := h.reclaimed ha (by simp)
  obtain ⟨known, hpool, hknown⟩ := h.pool
  have hout : s.mgr.flowid = some x := by
    simp only [FlowidManagerFifo.flowid, hf, if_true]
    exact h.fifo.rdData rfl
  have htaken : s.taken i = some x := by simp [taken, hreq, hout]
  refine ⟨by simpa [hreq, hf] using hfifo, ⟨known, pool_ret ha ?_, ?_⟩, ?_⟩
  · rw [htaken, Option.toFinset_some, Finset.union_comm, ← Finset.insert_eq]
    exact hpool.pop
  · intro hcase y
    have hfifo' : (s.next i).mgr.useFifo = true := by
      simpa [next, hreq, hf] using hcase
    rw [hknown (.inl hf) y]
    simp [Known, hf, hfifo']
  · intro g hg
    simp only [next, hreq, if_true, List.mem_append, List.mem_singleton] at hg
    rcases hg with hg | rfl
    · exact h.grants g hg
    · exact ⟨x, hout, hpool.apart x List.mem_cons_self⟩

theorem known_next {reg : BitVec w} (hreg : reg ≠ BitVec.allOnes w) (x : BitVec w) :
    x.toNat < (reg + 1).toNat ↔ x.toNat < reg.toNat ∨ x = reg := by
  have hne : reg.toNat ≠ 2 ^ w - 1 := by
    intro he
    exact hreg (BitVec.eq_of_toNat_eq (he.trans (BitVec.toNat_allOnes).symm))
  have hlt := reg.isLt
  have hone : (1 : BitVec w).toNat = 1 := by
    show (BitVec.ofNat w 1).toNat = 1
    rw [BitVec.toNat_ofNat, Nat.mod_eq_of_lt (by omega)]
  have hadd : (reg + 1).toNat = reg.toNat + 1 := by
    rw [BitVec.toNat_add, hone, Nat.mod_eq_of_lt (by omega)]
  rw [hadd, ← BitVec.toNat_inj]
  omega

/-- A request served from the counter takes a new ID. -/
theorem inv_count (h : Inv s l) (ha : s.Allowed i) (hreq : i.req = true)
    (hrec : s.recycled = false) (hf : s.mgr.useFifo = false) :
    Inv (s.next i) (l ++ i.ret.toList) := by
  have hfifo := h.reclaimed ha (by simp [hf])
  obtain ⟨known, hpool, hknown⟩ := h.pool
  have hout : s.mgr.flowid = some s.mgr.flowidReg := by simp [FlowidManagerFifo.flowid, hf]
  have htaken : s.taken i = some s.mgr.flowidReg := by simp [taken, hreq, hout]
  have hnew : ¬ known s.mgr.flowidReg := by
    rw [hknown (.inr hrec)]
    simp [Known, hf]
  refine ⟨by simpa [hf] using hfifo,
    ⟨fun x => known x ∨ x = s.mgr.flowidReg, pool_ret ha ?_, ?_⟩, ?_⟩
  · rw [htaken, Option.toFinset_some, Finset.union_comm, ← Finset.insert_eq]
    exact hpool.fresh hnew
  · intro _ x
    show (known x ∨ x = s.mgr.flowidReg) ↔ _
    rw [hknown (.inr hrec) x]
    by_cases hlast : s.mgr.flowidReg = BitVec.allOnes w
    · have hx : x.toNat < s.mgr.flowidReg.toNat ∨ x = s.mgr.flowidReg := by
        have hlt := x.isLt
        rw [← BitVec.toNat_inj, hlast, BitVec.toNat_allOnes]
        omega
      have hfifo' : (s.next i).mgr.useFifo = true := by
        simp [next, FlowidManagerFifo.step, hreq, hlast]
      exact iff_of_true (hx.imp_left .inr) (.inl hfifo')
    · simp only [Known, hf, next, FlowidManagerFifo.step, hreq, hlast, if_true, if_false,
        decide_false, Bool.false_eq_true, false_or]
      exact (known_next hlast x).symm
  · intro g hg
    simp only [next, hreq, if_true, List.mem_append, List.mem_singleton] at hg
    rcases hg with hg | rfl
    · exact h.grants g hg
    · exact ⟨_, hout, fun hu => hnew ((hpool.cover _).mpr (.inl hu))⟩

theorem inv_step (h : Inv s l) (ha : s.Allowed i) (hok : FirstLap s i) :
    ∃ l', Inv (s.next i) l' := by
  cases hreq : i.req with
  | false => exact ⟨_, inv_idle h ha hreq⟩
  | true =>
    cases hf : s.mgr.useFifo with
    | false => exact ⟨_, inv_count h ha hreq (hok hreq) hf⟩
    | true =>
      have hav := ha.1 hreq
      simp only [FlowidManagerFifo.avail, hf, if_true, Bool.not_eq_true'] at hav
      have hne : l ≠ [] := fun hnil => by simp [h.fifo.empty_iff.mpr hnil] at hav
      obtain ⟨x, t, rfl⟩ := List.exists_cons_of_ne_nil hne
      exact ⟨_, inv_recycle h ha hreq hf⟩

theorem inv_init (h : s.Init) : Inv s [] := by
  obtain ⟨⟨hreg, hf, hq⟩, huse, hrec, hg⟩ := h
  refine ⟨Fifo1r1w.represents_init hq, ⟨fun _ => False, ?_, ?_⟩, by simp [hg]⟩
  · rw [huse]
    exact Pool.empty fun _ h => h
  · simp [Known, hf, hreg]

theorem neverTwice_of_inv (h : Inv s l) : NeverTwice s := by
  refine ⟨h.grants, fun hav x => ?_⟩
  obtain ⟨known, hpool, hknown⟩ := h.pool
  unfold FlowidManagerFifo.avail at hav
  split at hav
  · rename_i hf
    have hnil := h.fifo.empty_iff.mp (by simpa using hav)
    have hx := (hknown (.inl hf) x).mpr (.inl hf)
    rw [hpool.cover x, hnil] at hx
    simpa using hx
  · cases hav

/-- In every run without a request after the first one served from the FIFO, no ID is handed out
while it is in use, and none is refused before all are. -/
theorem neverTwice_of_firstLap (h : Reach Init step FirstLap s) : NeverTwice s := by
  have hinv : ∃ l, Inv s l := by
    refine h.invariant (I := fun s => ∃ l, Inv s l) (fun _ h0 => ⟨[], inv_init h0⟩) ?_
    rintro s i s' ⟨l, hi⟩ hok hs
    simp only [step, Option.ite_none_right_eq_some, Option.some.injEq] at hs
    obtain ⟨ha, rfl⟩ := hs
    exact inv_step hi ha hok
  obtain ⟨l, hl⟩ := hinv
  exact neverTwice_of_inv hl

/-- The manager after reset. -/
def atReset : FlowidRun w where
  mgr :=
    { flowidReg := 0
      useFifo := false
      reclaimed := { mem := fun _ => 0, wrPtr := 0, rdPtr := 0, memRd := none } }
  inUse := ∅
  recycled := false
  grants := []

theorem atReset_init : (atReset (w := w)).Init := ⟨⟨rfl, rfl, rfl, rfl, rfl⟩, rfl, rfl, rfl⟩

def request : FlowidIn 4 := { req := true, ret := none }

/-- All sixteen IDs, then ID 5 returned and given out again. -/
def sixteenAndFive : List (FlowidIn 4) :=
  List.replicate 16 request ++ [{ req := false, ret := some 5 }, request]

theorem neverTwice_of_firstLap_recycles : ∃ s : FlowidRun 4, Reach Init step FirstLap s ∧
    (s.grants.length = 17 ∧ s.recycled = true) ∧ NeverTwice s := by
  have hrun : ∃ s : FlowidRun 4, Reach Init step FirstLap s ∧
      decide (s.grants.length = 17 ∧ s.recycled = true) = true :=
    Reach.exists_of_run sixteenAndFive atReset_init (by decide +kernel)
  obtain ⟨s, hr, hp⟩ := hrun
  exact ⟨s, hr, decide_eq_true_iff.mp hp, neverTwice_of_firstLap hr⟩

/-- The request after that gets ID 1, which is in use. -/
theorem flowid_handed_out_twice : ¬ ∀ s : FlowidRun 4, Reach Init step Free s → NeverTwice s := by
  intro h
  have hrun : ∃ s : FlowidRun 4, Reach Init step Free s ∧
      (s.grants.any fun g => g.flowid.any fun x => decide (x ∈ g.inUse)) = true :=
    Reach.exists_of_run (sixteenAndFive ++ [request]) atReset_init (by decide +kernel)
  obtain ⟨s, hr, hp⟩ := hrun
  obtain ⟨g, hg, hany⟩ := List.any_eq_true.mp hp
  obtain ⟨x, hx, hnot⟩ := (h s hr).grants g hg
  rw [hx, Option.any_some, decide_eq_true_iff] at hany
  exact hnot hany

end FlowidRun

end TcpHw
