import Mathlib.Data.Nat.Log
import TcpHw.Lib.Pool
import TcpHw.Lib.Trace
import TcpHw.Common.PacketQueue

/-!
# `slab_alloc_tracker` for any number and size of slabs

Slabs come from an address counter until the last one is handed out, and from then on from the
FIFO of freed ones. The address on offer is always visible; `consume_val` takes it. The FIFO has
the next power of two of entries.
-/
namespace TcpHw

open Trace

set_option autoImplicit false

/-- `BSG_SAFE_CLOG2` -/
def bsgSafeClog2 (x : Nat) : Nat := if x = 1 then 1 else Nat.clog 2 x

/-- `NUM_SLABS` and `SLAB_BYTES`. -/
structure SlabParams where
  numSlabs : Nat
  slabBytes : Nat
  numSlabs_pos : 0 < numSlabs
  slabBytes_pos : 0 < slabBytes

namespace SlabParams

variable (P : SlabParams)

/-- `SLAB_NUM_W`, also the size of the FIFO. -/
def slabNumW : Nat := bsgSafeClog2 P.numSlabs

/-- `ADDR_W` -/
def addrW : Nat := P.slabNumW + bsgSafeClog2 P.slabBytes

abbrev Addr := BitVec P.addrW

/-- `LAST_SLAB_ADDR`; a constant expression of the parameters. -/
def lastSlabAddr : Nat := (P.numSlabs - 1) * P.slabBytes

/-- The address of slab `k`. -/
def slab (k : Nat) : P.Addr := BitVec.ofNat P.addrW (k * P.slabBytes)

end SlabParams

/-- The registers. -/
structure SlabTracker (P : SlabParams) where
  initSlabAddr : P.Addr
  useFifo : Bool
  freedSlabFifo : Fifo1r1w P.slabNumW P.Addr

namespace SlabTracker

variable {P : SlabParams} (m : SlabTracker P)

/-- `alloc_slab_src_resp_error` -/
def respError : Bool := if m.useFifo then m.freedSlabFifo.empty else false

/-- `alloc_slab_src_resp_addr` -/
def respAddr : Option P.Addr :=
  if m.useFifo then m.freedSlabFifo.rdData else some m.initSlabAddr

/-- `free_slab_src_req_rdy` -/
def freeRdy : Bool := !m.freedSlabFifo.full

/-- `freed_slab_fifo_rd_req` -/
def fifoRdReq (consume : Bool) : Bool :=
  if m.useFifo then consume && !m.freedSlabFifo.empty else false

/-- The free request that is written into the FIFO. -/
def freed (free : Option P.Addr) : Option P.Addr := if m.freeRdy then free else none

/-- One clock edge, with `consume_val` and a free request. -/
def step (consume : Bool) (free : Option P.Addr) : SlabTracker P where
  initSlabAddr :=
    if !m.useFifo && consume then m.initSlabAddr + BitVec.ofNat P.addrW P.slabBytes
    else m.initSlabAddr
  useFifo :=
    if !m.useFifo && consume then decide (m.initSlabAddr.toNat = P.lastSlabAddr) else m.useFifo
  freedSlabFifo := m.freedSlabFifo.step (m.freed free) (m.fifoRdReq consume)

def Init : Prop := m.initSlabAddr = 0 ∧ m.useFifo = false ∧ m.freedSlabFifo.Init

end SlabTracker

/-- The tracker and the slabs its users hold. -/
structure SlabRun (P : SlabParams) where
  tracker : SlabTracker P
  allocated : Finset P.Addr

structure SlabIn (P : SlabParams) where
  consume : Bool
  free : Option P.Addr

namespace SlabRun

variable {P : SlabParams}

/-- The slab handed out in this cycle. -/
def granted (s : SlabRun P) (i : SlabIn P) : Option P.Addr :=
  if i.consume && !s.tracker.respError then s.tracker.respAddr else none

def next (s : SlabRun P) (i : SlabIn P) : SlabRun P where
  tracker := s.tracker.step i.consume i.free
  allocated := (s.allocated ∪ (s.granted i).toFinset) \ (s.tracker.freed i.free).toFinset

/-- Only allocated slabs are freed. -/
def step (s : SlabRun P) (i : SlabIn P) : Option (SlabRun P) :=
  if ∀ x ∈ i.free, x ∈ s.allocated then some (s.next i) else none

def Init (s : SlabRun P) : Prop := s.tracker.Init ∧ s.allocated = ∅

/-- The allocator is correct in this state, for whatever is asked of it next. -/
structure Correct (s : SlabRun P) : Prop where
  /-- The address on offer is that of a slab nobody holds. -/
  offer : s.tracker.respError = false →
    ∃ k < P.numSlabs, s.tracker.respAddr = some (P.slab k) ∧
      (P.slab k).toNat = k * P.slabBytes ∧ P.slab k ∉ s.allocated
  /-- An allocation fails exactly when all slabs are held. -/
  fails : s.tracker.respError = true ↔ ∀ k < P.numSlabs, P.slab k ∈ s.allocated
  /-- A slab that is held can be freed. -/
  frees : ∀ x ∈ s.allocated, s.tracker.freeRdy = true
  /-- Every slab is held, or it waits exactly once: in the FIFO or for the counter. -/
  kept : ∀ k < P.numSlabs, P.slab k ∉ s.allocated →
    (s.tracker.freedSlabFifo.contents.count (P.slab k) +
      if s.tracker.useFifo = false ∧ s.tracker.initSlabAddr.toNat ≤ k * P.slabBytes then 1
      else 0) = 1

end SlabRun

/-! ### Slab addresses -/

theorem le_two_pow_bsgSafeClog2 (x : Nat) : x ≤ 2 ^ bsgSafeClog2 x := by
  unfold bsgSafeClog2
  split
  · omega
  · exact Nat.le_pow_clog (by decide) x

namespace SlabParams

variable (P : SlabParams)

theorem numSlabs_le : P.numSlabs ≤ 2 ^ P.slabNumW := le_two_pow_bsgSafeClog2 P.numSlabs

/-- The addresses of all slabs fit. -/
theorem slabBytes_le_addr : P.numSlabs * P.slabBytes ≤ 2 ^ P.addrW := by
  rw [addrW, Nat.pow_add]
  exact Nat.mul_le_mul P.numSlabs_le (le_two_pow_bsgSafeClog2 P.slabBytes)

variable {P}

theorem slab_toNat {k : Nat} (hk : k < P.numSlabs) : (P.slab k).toNat = k * P.slabBytes := by
  have hlt : k * P.slabBytes < P.numSlabs * P.slabBytes :=
    Nat.mul_lt_mul_of_pos_right hk P.slabBytes_pos
  rw [slab, BitVec.toNat_ofNat, Nat.mod_eq_of_lt (Nat.lt_of_lt_of_le hlt P.slabBytes_le_addr)]

theorem slab_inj {j k : Nat} (hj : j < P.numSlabs) (hk : k < P.numSlabs)
    (h : P.slab j = P.slab k) : j = k := by
  have ht := congrArg BitVec.toNat h
  rw [slab_toNat hj, slab_toNat hk] at ht
  exact Nat.eq_of_mul_eq_mul_right P.slabBytes_pos ht

theorem slab_succ (k : Nat) : P.slab (k + 1) = P.slab k + BitVec.ofNat P.addrW P.slabBytes := by
  rw [slab, slab, Nat.succ_mul, BitVec.ofNat_add]

end SlabParams

namespace SlabRun

variable {P : SlabParams}

/-! ### The invariant -/

/-- The slabs that have left the counter. -/
def Known (s : SlabRun P) (x : P.Addr) : Prop :=
  ∃ k < P.numSlabs, x = P.slab k ∧
    (s.tracker.useFifo = true ∨ k * P.slabBytes < s.tracker.initSlabAddr.toNat)

/-- The FIFO holds the slabs that were handed out and are free again. -/
structure Inv (s : SlabRun P) (l : List P.Addr) : Prop where
  fifo : s.tracker.freedSlabFifo.Represents l
  pool : Pool s.Known s.allocated l
  counter : s.tracker.useFifo = false → ∃ c < P.numSlabs, s.tracker.initSlabAddr = P.slab c

variable {s : SlabRun P} {i : SlabIn P} {l : List P.Addr}

theorem Inv.fifo_step (h : Inv s l) (i : SlabIn P) :
    (s.next i).tracker.freedSlabFifo.Represents
      ((if s.tracker.fifoRdReq i.consume then l.tail else l) ++
        (s.tracker.freed i.free).toList) := by
  refine h.fifo.step (fun hw => ?_) (fun hr hnil => ?_)
  · have hrdy : s.tracker.freeRdy = true := by
      by_contra hno
      simp [SlabTracker.freed, hno] at hw
    have hfull : ¬ l.length = 2 ^ P.slabNumW := by
      rw [← h.fifo.full_iff]
      simpa [SlabTracker.freeRdy] using hrdy
    have hroom := h.fifo.room
    omega
  · have hempty := h.fifo.empty_iff.mpr hnil
    simp [SlabTracker.fifoRdReq, hempty] at hr

/-- The slabs held and free after a cycle, from those before the freed one. -/
theorem pool_free {all : P.Addr → Prop} {l' : List P.Addr} (hi : ∀ x ∈ i.free, x ∈ s.allocated)
    (h : Pool all (s.allocated ∪ (s.granted i).toFinset) l') :
    Pool all (s.next i).allocated (l' ++ (s.tracker.freed i.free).toList) := by
  refine h.giveBack fun x hx => Finset.mem_union_left _ (hi x ?_)
  unfold SlabTracker.freed at hx
  split at hx
  · exact hx
  · cases hx

/-- Nothing is handed out: nobody asks, or the FIFO has nothing. -/
theorem inv_none (h : Inv s l) (hi : ∀ x ∈ i.free, x ∈ s.allocated)
    (hg : i.consume = false ∨ s.tracker.respError = true) :
    Inv (s.next i) (l ++ (s.tracker.freed i.free).toList) := by
  have hnone : s.granted i = none := by
    rcases hg with hg | hg <;> simp [granted, hg]
  have hkeep : s.tracker.useFifo = false → i.consume = false := by
    intro hf
    rcases hg with hg | hg
    · exact hg
    · simp [SlabTracker.respError, hf] at hg
  have hrd : s.tracker.fifoRdReq i.consume = false := by
    rcases hg with hg | hg
    · simp [SlabTracker.fifoRdReq, hg]
    · cases hf : s.tracker.useFifo <;> simp [SlabTracker.respError, hf] at hg
      simp [SlabTracker.fifoRdReq, hg]
  have hregs : (s.next i).tracker.useFifo = s.tracker.useFifo ∧
      (s.next i).tracker.initSlabAddr = s.tracker.initSlabAddr := by
    cases hf : s.tracker.useFifo with
    | true => simp [next, SlabTracker.step, hf]
    | false => simp [next, SlabTracker.step, hf, hkeep hf]
  have hfifo := h.fifo_step i
  rw [hrd] at hfifo
  have hknown : ∀ x, (s.next i).Known x ↔ s.Known x := by
    intro x
    simp only [Known, hregs.1, hregs.2]
  refine ⟨hfifo, ?_, ?_⟩
  · exact (pool_free hi (by simpa [hnone] using h.pool)).congr hknown
  · rw [hregs.1, hregs.2]
    exact h.counter

/-- The oldest freed slab is handed out. -/
theorem inv_fifo {x : P.Addr} (h : Inv s (x :: l)) (hi : ∀ x ∈ i.free, x ∈ s.allocated)
    (hc : i.consume = true) (hf : s.tracker.useFifo = true) :
    Inv (s.next i) (l ++ (s.tracker.freed i.free).toList) := by
  have hne : s.tracker.freedSlabFifo.empty = false := by
    rw [← Bool.not_eq_true, h.fifo.empty_iff]
    exact List.cons_ne_nil x l
  have hgrant : s.granted i = some x := by
    have hrd := h.fifo.rdData rfl
    simp [granted, hc, SlabTracker.respError, SlabTracker.respAddr, hf, hne, hrd]
  have hregs : (s.next i).tracker.useFifo = true := by simp [next, SlabTracker.step, hf]
  have hfifo := h.fifo_step i
  have hknown : ∀ y, (s.next i).Known y ↔ s.Known y := by
    intro y
    simp only [Known, hregs, hf, true_or]
  refine ⟨by simpa [SlabTracker.fifoRdReq, hf, hc, hne] using hfifo, ?_, by simp [hregs]⟩
  refine (pool_free hi ?_).congr hknown
  rw [hgrant, Option.toFinset_some, Finset.union_comm, ← Finset.insert_eq]
  exact h.pool.pop

/-- The slabs that have left a counter standing at slab `c`. -/
theorem known_iff {c : Nat} (hf : s.tracker.useFifo = false) (hc : c < P.numSlabs)
    (hinit : s.tracker.initSlabAddr = P.slab c) (x : P.Addr) :
    s.Known x ↔ ∃ k < P.numSlabs, x = P.slab k ∧ k < c := by
  simp only [Known, hf, hinit, SlabParams.slab_toNat hc, Bool.false_eq_true, false_or,
    Nat.mul_lt_mul_right P.slabBytes_pos]

/-- The next slab of the counter is handed out. -/
theorem inv_counter (h : Inv s l) (hi : ∀ x ∈ i.free, x ∈ s.allocated) (hc : i.consume = true)
    (hf : s.tracker.useFifo = false) :
    Inv (s.next i) (l ++ (s.tracker.freed i.free).toList) := by
  obtain ⟨c, hcn, hinit⟩ := h.counter hf
  have hgrant : s.granted i = some (P.slab c) := by
    simp [granted, hc, SlabTracker.respError, SlabTracker.respAddr, hf, hinit]
  have hnew : ¬ s.Known (P.slab c) := by
    rw [known_iff hf hcn hinit]
    rintro ⟨k, hk, he, hlt⟩
    exact absurd (SlabParams.slab_inj hcn hk he) (by omega)
  have hlast : P.lastSlabAddr = (P.slab c).toNat ↔ c + 1 = P.numSlabs := by
    have hpos := P.numSlabs_pos
    rw [SlabParams.slab_toNat hcn, SlabParams.lastSlabAddr,
      Nat.mul_left_inj (Nat.ne_of_gt P.slabBytes_pos)]
    omega
  have huse : (s.next i).tracker.useFifo = decide (c + 1 = P.numSlabs) := by
    simp [next, SlabTracker.step, hf, hc, hinit, ← hlast, eq_comm]
  have hnext : (s.next i).tracker.initSlabAddr = P.slab (c + 1) := by
    simp [next, SlabTracker.step, hf, hc, hinit, SlabParams.slab_succ]
  have hknown : ∀ x, (s.next i).Known x ↔ s.Known x ∨ x = P.slab c := by
    intro x
    have hsplit : (∃ k < P.numSlabs, x = P.slab k ∧ k < c + 1) ↔
        (∃ k < P.numSlabs, x = P.slab k ∧ k < c) ∨ x = P.slab c := by
      constructor
      · rintro ⟨k, hk, rfl, hlt⟩
        rcases Nat.lt_succ_iff_lt_or_eq.mp hlt with hlt | rfl
        · exact .inl ⟨k, hk, rfl, hlt⟩
        · exact .inr rfl
      · rintro (⟨k, hk, rfl, hlt⟩ | rfl)
        · exact ⟨k, hk, rfl, by omega⟩
        · exact ⟨c, hcn, rfl, Nat.lt_succ_self c⟩
    rw [known_iff hf hcn hinit, ← hsplit]
    by_cases hend : c + 1 = P.numSlabs
    · -- the last slab: from now on all are known
      simp only [Known, huse, hend, decide_true, true_or, and_true]
      exact exists_congr fun k => ⟨fun ⟨hk, hx⟩ => ⟨hk, hx, hk⟩, fun ⟨hk, hx, _⟩ => ⟨hk, hx⟩⟩
    · exact known_iff (by simp [huse, hend]) (by omega) hnext x
  have hfifo := h.fifo_step i
  refine ⟨by simpa [SlabTracker.fifoRdReq, hf] using hfifo, ?_, ?_⟩
  · refine (pool_free hi ?_).congr hknown
    rw [hgrant, Option.toFinset_some, Finset.union_comm, ← Finset.insert_eq]
    exact h.pool.fresh hnew
  · intro hf'
    rw [huse, decide_eq_false_iff_not] at hf'
    exact ⟨c + 1, by omega, hnext⟩

theorem inv_step (h : Inv s l) (hi : ∀ x ∈ i.free, x ∈ s.allocated) : ∃ l', Inv (s.next i) l' := by
  by_cases hg : i.consume = false ∨ s.tracker.respError = true
  · exact ⟨_, inv_none h hi hg⟩
  · rw [not_or, Bool.not_eq_false, Bool.not_eq_true] at hg
    obtain ⟨hc, he⟩ := hg
    cases hf : s.tracker.useFifo with
    | false => exact ⟨_, inv_counter h hi hc hf⟩
    | true =>
      have hne : l ≠ [] := by
        rintro rfl
        simp [SlabTracker.respError, hf, h.fifo.empty_iff.mpr] at he
      obtain ⟨x, t, rfl⟩ := List.exists_cons_of_ne_nil hne
      exact ⟨_, inv_fifo h hi hc hf⟩

theorem inv_init (h : s.Init) : Inv s [] := by
  obtain ⟨⟨hinit, hf, hq⟩, halloc⟩ := h
  refine ⟨Fifo1r1w.represents_init hq, ?_, fun _ => ⟨0, P.numSlabs_pos, ?_⟩⟩
  · rw [halloc]
    refine Pool.empty fun x => ?_
    rintro ⟨k, -, -, hk⟩
    simp [hf, hinit] at hk
  · rw [hinit, SlabParams.slab, Nat.zero_mul]
    rfl

/-! ### What it gives -/

theorem Inv.offer (h : Inv s l) (he : s.tracker.respError = false) :
    ∃ k < P.numSlabs, s.tracker.respAddr = some (P.slab k) ∧
      (P.slab k).toNat = k * P.slabBytes ∧ P.slab k ∉ s.allocated := by
  cases hf : s.tracker.useFifo with
  | false =>
    obtain ⟨c, hc, hinit⟩ := h.counter hf
    refine ⟨c, hc, by simp [SlabTracker.respAddr, hf, hinit], SlabParams.slab_toNat hc, fun hu => ?_⟩
    obtain ⟨k, hk, hx, hlt⟩ := (known_iff hf hc hinit _).mp ((h.pool.cover _).mpr (.inl hu))
    exact absurd (SlabParams.slab_inj hc hk hx) (by omega)
  | true =>
    have hne : l ≠ [] := by
      rintro rfl
      simp [SlabTracker.respError, hf, h.fifo.empty_iff.mpr] at he
    obtain ⟨x, t, rfl⟩ := List.exists_cons_of_ne_nil hne
    obtain ⟨k, hk, rfl, -⟩ := (h.pool.cover x).mpr (.inr List.mem_cons_self)
    refine ⟨k, hk, ?_, SlabParams.slab_toNat hk, h.pool.apart _ List.mem_cons_self⟩
    simp only [SlabTracker.respAddr, hf, if_true]
    exact h.fifo.rdData rfl

theorem Inv.fails (h : Inv s l) :
    s.tracker.respError = true ↔ ∀ k < P.numSlabs, P.slab k ∈ s.allocated := by
  constructor
  · intro he k hk
    cases hf : s.tracker.useFifo with
    | false => simp [SlabTracker.respError, hf] at he
    | true =>
      have hnil := h.fifo.empty_iff.mp (by simpa [SlabTracker.respError, hf] using he)
      have hcover := (h.pool.cover (P.slab k)).mp ⟨k, hk, rfl, .inl hf⟩
      simpa [hnil] using hcover
  · intro hall
    by_contra hno
    obtain ⟨k, hk, -, -, hnot⟩ := h.offer (by simpa using hno)
    exact hnot (hall k hk)

theorem Inv.frees (h : Inv s l) {x : P.Addr} (hx : x ∈ s.allocated) :
    s.tracker.freeRdy = true := by
  have hS : ∀ y, s.Known y → y ∈ (Finset.range P.numSlabs).image P.slab := by
    rintro y ⟨k, hk, rfl, -⟩
    exact Finset.mem_image_of_mem _ (Finset.mem_range.mpr hk)
  have hlt : l.length < 2 ^ P.slabNumW :=
    calc l.length < ((Finset.range P.numSlabs).image P.slab).card := h.pool.length_lt hS hx
      _ ≤ (Finset.range P.numSlabs).card := Finset.card_image_le
      _ = P.numSlabs := Finset.card_range _
      _ ≤ 2 ^ P.slabNumW := P.numSlabs_le
  have hfull : ¬ s.tracker.freedSlabFifo.full = true := by
    rw [h.fifo.full_iff]
    omega
  simpa [SlabTracker.freeRdy] using hfull

theorem Inv.kept (h : Inv s l) {k : Nat} (hk : k < P.numSlabs) (hfree : P.slab k ∉ s.allocated) :
    (s.tracker.freedSlabFifo.contents.count (P.slab k) +
      if s.tracker.useFifo = false ∧ s.tracker.initSlabAddr.toNat ≤ k * P.slabBytes then 1
      else 0) = 1 := by
  have hcover := h.pool.cover (P.slab k)
  simp only [hfree, false_or] at hcover
  have hknown : s.Known (P.slab k) ↔
      ¬ (s.tracker.useFifo = false ∧ s.tracker.initSlabAddr.toNat ≤ k * P.slabBytes) := by
    rw [not_and_or, Bool.not_eq_false, Nat.not_le]
    constructor
    · rintro ⟨j, hj, he, hcase⟩
      rw [SlabParams.slab_inj hk hj he]
      exact hcase
    · exact fun hcase => ⟨k, hk, rfl, hcase⟩
  rw [h.fifo.contents_eq]
  by_cases hmem : P.slab k ∈ l
  · rw [List.count_eq_one_of_mem h.pool.nodup hmem, if_neg (hknown.mp (hcover.mpr hmem))]
  · rw [List.count_eq_zero_of_not_mem hmem,
      if_pos (not_not.mp fun hno => hmem (hcover.mp (hknown.mpr hno)))]

theorem correct_of_inv (h : Inv s l) : Correct s where
  offer := h.offer
  fails := h.fails
  frees _ hx := h.frees hx
  kept _ hk hfree := h.kept hk hfree

/-- For any number and size of slabs, in every state of every run. -/
theorem slab_alloc_correct (h : Reach Init step Free s) : Correct s := by
  have hinv : ∃ l, Inv s l := by
    refine h.invariant (I := fun s => ∃ l, Inv s l) (fun _ h0 => ⟨[], inv_init h0⟩) ?_
    rintro s i s' ⟨l, hl⟩ - hs
    simp only [step, Option.ite_none_right_eq_some, Option.some.injEq] at hs
    obtain ⟨hi, rfl⟩ := hs
    exact inv_step hl hi
  obtain ⟨l, hl⟩ := hinv
  exact correct_of_inv hl

/-- Three slabs of 100 bytes. -/
def threeSlabs : SlabParams where
  numSlabs := 3
  slabBytes := 100
  numSlabs_pos := by decide
  slabBytes_pos := by decide

def atReset : SlabRun P where
  tracker :=
    { initSlabAddr := 0
      useFifo := false
      freedSlabFifo := { mem := fun _ => 0, wrPtr := 0, rdPtr := 0, memRd := none } }
  allocated := ∅

theorem atReset_init : (atReset (P := P)).Init := ⟨⟨rfl, rfl, rfl, rfl, rfl⟩, rfl⟩

/-- Three allocations, one of them freed while the third is made, and a fourth. -/
theorem slab_alloc_correct_recycles : ∃ s : SlabRun threeSlabs, Reach Init step Free s ∧
    (s.tracker.respError = true ∧ s.tracker.useFifo = true) ∧ Correct s := by
  have hrun : ∃ s : SlabRun threeSlabs, Reach Init step Free s ∧
      decide (s.tracker.respError = true ∧ s.tracker.useFifo = true) = true :=
    Reach.exists_of_run [{ consume := true, free := none }, { consume := true, free := none },
      { consume := true, free := some (threeSlabs.slab 1) }, { consume := true, free := none }]
      atReset_init (by decide +kernel)
  obtain ⟨s, hr, hp⟩ := hrun
  exact ⟨s, hr, decide_eq_true_iff.mp hp, slab_alloc_correct hr⟩

end SlabRun

end TcpHw
