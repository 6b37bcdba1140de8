import TcpHw.Lib.Trace
import TcpHw.Ram

/-!
# Synchronous memories behind a ready signal

The memories answer one cycle after a read, with what they held before the clock edge; a read of the
address that is written in the same cycle, and a cycle without a read, leave nothing defined.
`ram_1r1w_sync_backpressure` and `ram_2r1w_sync_backpressure` read a response that is not taken again
in every cycle and answer with the current contents; `ram_1r1w_sync_no_collision` refuses a read of
the address that is written, keeps a response that is not taken, and answers with the contents at
the time of the request.
-/
namespace TcpHw

open Trace

set_option autoImplicit false

variable {K A D : Type} [DecidableEq A]

/-- What a synchronous memory shows after a cycle with a write and a read, `none` for `'X`. -/
def syncRead (mem : A → D) (wr : Option (A × D)) (rd : Option A) : Option D :=
  rd.bind fun a => if wr.map Prod.fst = some a then none else some (mem a)

/-- The value written to an address last, among writes in order, or the contents before them. -/
def lastWritten (mem : A → D) (writes : List (A × D)) (a : A) : D :=
  ((writes.reverse.find? fun w => w.1 = a).map Prod.snd).getD (mem a)

theorem lastWritten_append (mem : A → D) (writes : List (A × D)) (wr : Option (A × D)) :
    lastWritten mem (writes ++ wr.toList) = Ram.store (lastWritten mem writes) wr := by
  cases wr with
  | none => rw [Option.toList_none, List.append_nil, Ram.store]
  | some w =>
    obtain ⟨b, d⟩ := w
    funext a
    rw [Option.toList_some, lastWritten, List.reverse_append, List.reverse_singleton,
      List.singleton_append, List.find?_cons, Ram.store]
    by_cases h : b = a
    · subst h
      simp
    · rw [Function.update_of_ne (Ne.symm h)]
      simp only [h, decide_false]
      rfl

/-! ### `ram_1r1w_sync_backpressure` and `ram_2r1w_sync_backpressure` -/

/-- `mem_rd_req_val_reg` with `mem_rd_req_addr_reg`, and what the memory shows. -/
structure BackpressurePort (A D : Type) where
  reg : Option A
  memData : Option D

namespace BackpressurePort

variable (p : BackpressurePort A D) (wr : Option (A × D)) (req : Option A) (respRdy : Bool)

/-- `rd_req_rdy` -/
def reqRdy : Bool := Ram.reqRdy p.reg respRdy

/-- `mem_rd_req_val`, `mem_rd_req_addr`: while a response is held its request is issued again. -/
def memReq : Option A := if p.reg.isSome && !respRdy then p.reg else req

/-- `mem_rd_req_val_byp`: the address that is written is not read. -/
def memReqByp : Option A :=
  (p.memReq req respRdy).filter fun a => !decide (wr.map Prod.fst = some a)

/-- `rd_resp_data`; `wr` is here the write of the cycle before. -/
def respData : Option D :=
  match wr, p.reg with
  | some (a, d), some b => if a = b then some d else p.memData
  | _, _ => p.memData

/-- One clock edge. -/
def step (mem : A → D) : BackpressurePort A D where
  reg := if p.reqRdy respRdy then p.memReq req respRdy else p.reg
  memData := syncRead mem wr (p.memReqByp wr req respRdy)

end BackpressurePort

/-- The memory with the write register and the ports `K`. The writes since reset, and for each port
the addresses of the requests that were accepted and of the responses that were taken, are not
hardware. -/
structure BackpressureRam (K A D : Type) where
  mem : A → D
  wrReg : Option (A × D)
  port : K → BackpressurePort A D
  writes : List (A × D)
  accepted : K → List A
  answered : K → List A

/-- One read port. -/
abbrev Ram1r1wSyncBackpressure (A D : Type) := BackpressureRam Unit A D

/-- Two read ports. -/
abbrev Ram2r1wSyncBackpressure (A D : Type) := BackpressureRam (Fin 2) A D

/-- The requests of one cycle, and whether the responses are taken. -/
structure BackpressureIn (K A D : Type) where
  wr : Option (A × D)
  rd : K → Option A
  respRdy : K → Bool

namespace BackpressureRam

variable (s : BackpressureRam K A D) (i : BackpressureIn K A D)

/-- `rd_resp_data` of a port. -/
def respData (k : K) : Option D := (s.port k).respData s.wrReg

/-- One clock edge; `wr_req_rdy` is constant. -/
def cycle : BackpressureRam K A D where
  mem := Ram.store s.mem i.wr
  wrReg := i.wr
  port k := (s.port k).step i.wr (i.rd k) (i.respRdy k) s.mem
  writes := s.writes ++ i.wr.toList
  accepted k := s.accepted k ++ if (s.port k).reqRdy (i.respRdy k) then (i.rd k).toList else []
  answered k := s.answered k ++ if i.respRdy k then (s.port k).reg.toList else []

def step (s : BackpressureRam K A D) (i : BackpressureIn K A D) : Option (BackpressureRam K A D) :=
  some (s.cycle i)

/-- After reset, with anything in the memory. -/
structure Init (mem : A → D) (s : BackpressureRam K A D) : Prop where
  mem : s.mem = mem
  wrReg : s.wrReg = none
  port : ∀ k, (s.port k).reg = none
  writes : s.writes = []
  accepted : ∀ k, s.accepted k = []
  answered : ∀ k, s.answered k = []

/-- The requests are answered in order, all but the one whose response is valid, and a response that
is valid shows what was written to its address last. -/
structure Current (mem : A → D) (s : BackpressureRam K A D) : Prop where
  order : ∀ k, s.accepted k = s.answered k ++ (s.port k).reg.toList
  data : ∀ k a, (s.port k).reg = some a → s.respData k = some (lastWritten mem s.writes a)

end BackpressureRam

/-! ### A port -/

namespace BackpressurePort

variable {p : BackpressurePort A D} {wr : Option (A × D)} {req : Option A} {respRdy : Bool}
  {mem : A → D}

/-- The port answers for what its user expects. -/
theorem step_reg : (p.step wr req respRdy mem).reg = Ram.next p.reg req respRdy := by
  unfold step memReq reqRdy Ram.reqRdy Ram.next
  cases p.reg <;> cases respRdy <;> rfl

/-- What is answered is the contents behind the clock edge: the write is bypassed, or the memory
shows the cell. -/
theorem respData_step {a : A} (ha : (p.step wr req respRdy mem).reg = some a) :
    (p.step wr req respRdy mem).respData wr = some (Ram.store mem wr a) := by
  have hreq : p.memReq req respRdy = some a := by
    rw [step_reg] at ha
    exact ha
  by_cases hw : wr.map Prod.fst = some a
  · obtain ⟨⟨b, d⟩, rfl, rfl⟩ := Option.map_eq_some_iff.mp hw
    simp [respData, ha, Ram.store]
  · have hbyp : p.memReqByp wr req respRdy = some a := by
      rw [memReqByp, hreq, Option.filter_some, if_pos (by simpa using hw)]
    have hdata : (p.step wr req respRdy mem).memData = some (mem a) := by
      rw [step, hbyp, syncRead, Option.bind_some, if_neg hw]
    cases wr with
    | none => exact hdata
    | some w =>
      obtain ⟨b, d⟩ := w
      have hne : b ≠ a := fun h => hw (by rw [h]; rfl)
      simp only [respData, ha, if_neg hne, hdata, Ram.store, Function.update_of_ne (Ne.symm hne)]

/-- A response that is taken makes room for the request. -/
theorem order_step (p : BackpressurePort A D) (wr : Option (A × D)) (req : Option A)
    (respRdy : Bool) (mem : A → D) :
    p.reg.toList ++ (if p.reqRdy respRdy then req.toList else []) =
      (if respRdy then p.reg.toList else []) ++ (p.step wr req respRdy mem).reg.toList := by
  rw [step_reg, reqRdy, Ram.reqRdy, Ram.next]
  cases p.reg <;> cases respRdy <;> simp

end BackpressurePort

namespace BackpressureRam

variable {s : BackpressureRam K A D} {i : BackpressureIn K A D} {mem : A → D}

/-- What holds in every run: the memory holds what was written, and the port is current. -/
structure Inv (mem : A → D) (s : BackpressureRam K A D) : Prop extends Current mem s where
  mem : s.mem = lastWritten mem s.writes

theorem inv_init (h : Init mem s) : Inv mem s := by
  constructor
  · constructor
    · intro k
      rw [h.accepted, h.answered, h.port]
      rfl
    · intro k a ha
      rw [h.port] at ha
      cases ha
  · rw [h.mem, h.writes]
    rfl

theorem Inv.cycle (h : Inv mem s) : Inv mem (s.cycle i) := by
  have hmem : (s.cycle i).mem = lastWritten mem (s.cycle i).writes := by
    show Ram.store s.mem i.wr = lastWritten mem (s.writes ++ i.wr.toList)
    rw [lastWritten_append, h.mem]
  refine ⟨⟨?_, ?_⟩, hmem⟩
  · intro k
    show s.accepted k ++ _ = s.answered k ++ _ ++ _
    rw [h.order k, List.append_assoc, List.append_assoc, (s.port k).order_step i.wr]
    rfl
  · intro k a ha
    rw [← hmem]
    exact BackpressurePort.respData_step ha

theorem inv_of_reach (h : Reach (Init mem) step Free s) : Inv mem s := by
  refine h.invariant (fun _ => inv_init) ?_
  intro t i t' ht _ hs
  cases hs
  exact ht.cycle

def reset (mem : A → D) : BackpressureRam K A D :=
  ⟨mem, none, fun _ => ⟨none, none⟩, [], fun _ => [], fun _ => []⟩

omit [DecidableEq A] in
theorem init_reset (mem : A → D) : Init mem (reset mem : BackpressureRam K A D) :=
  ⟨rfl, rfl, fun _ => rfl, rfl, fun _ => rfl, fun _ => rfl⟩

end BackpressureRam

/-- The memories with backpressure answer every request once and in order, and a response is up to
date in every cycle in which it is valid. -/
theorem ram_backpressure_current (mem : A → D) :
    (∀ s : Ram1r1wSyncBackpressure A D,
      Reach (BackpressureRam.Init mem) BackpressureRam.step Free s → s.Current mem) ∧
    (∀ s : Ram2r1wSyncBackpressure A D,
      Reach (BackpressureRam.Init mem) BackpressureRam.step Free s → s.Current mem) :=
  ⟨fun _ h => (BackpressureRam.inv_of_reach h).toCurrent,
    fun _ h => (BackpressureRam.inv_of_reach h).toCurrent⟩

/-- Two writes meet a response that is held, the first as it is read for the first time; on two
ports, one of them. -/
theorem ram_backpressure_current_held :
    (∃ s : Ram1r1wSyncBackpressure (BitVec 1) Nat,
      Reach (BackpressureRam.Init fun _ => 0) BackpressureRam.step Free s ∧
        s.answered () = [0] ∧ s.writes = [(0, 5), (0, 6)] ∧ s.Current fun _ => 0) ∧
    (∃ s : Ram2r1wSyncBackpressure (BitVec 1) Nat,
      Reach (BackpressureRam.Init fun _ => 0) BackpressureRam.step Free s ∧
        s.respData 0 = some 6 ∧ s.answered 1 = [1] ∧ s.Current fun _ => 0) := by
  constructor
  · have hrun : ∃ s : Ram1r1wSyncBackpressure (BitVec 1) Nat,
        Reach (BackpressureRam.Init fun _ => 0) BackpressureRam.step Free s ∧
          decide (s.answered () = [0] ∧ s.writes = [(0, 5), (0, 6)]) = true :=
      Reach.exists_of_run
        [⟨some (0, 5), fun _ => some 0, fun _ => true⟩, ⟨some (0, 6), fun _ => none, fun _ => false⟩,
          ⟨none, fun _ => some 1, fun _ => false⟩, ⟨none, fun _ => some 1, fun _ => true⟩]
        (BackpressureRam.init_reset _) (by decide +kernel)
    obtain ⟨s, hr, hp⟩ := hrun
    obtain ⟨ha, hw⟩ := decide_eq_true_iff.mp hp
    exact ⟨s, hr, ha, hw, (ram_backpressure_current _).1 s hr⟩
  · have hrun : ∃ s : Ram2r1wSyncBackpressure (BitVec 1) Nat,
        Reach (BackpressureRam.Init fun _ => 0) BackpressureRam.step Free s ∧
          decide (s.respData 0 = some 6 ∧ s.answered 1 = [1]) = true :=
      Reach.exists_of_run
        [⟨some (0, 5), fun k => some (BitVec.ofNat 1 k), fun _ => true⟩,
          ⟨some (0, 6), fun _ => none, fun k => k == 1⟩]
        (BackpressureRam.init_reset _) (by decide +kernel)
    obtain ⟨s, hr, hp⟩ := hrun
    obtain ⟨hd, ha⟩ := decide_eq_true_iff.mp hp
    exact ⟨s, hr, hd, ha, (ram_backpressure_current _).2 s hr⟩

/-! ### `ram_1r1w_sync_no_collision` -/

/-- The registers, what the memory shows, and, not in hardware, the requests that were accepted with
the contents of their addresses at that time, and the data of the responses that were taken. -/
structure Ram1r1wSyncNoCollision (A D : Type) where
  mem : A → D
  memData : Option D
  respVal : Bool
  reqVal : Bool
  savedData : Option D
  accepted : List (A × D)
  answered : List (Option D)

structure NoCollisionIn (A D : Type) where
  wr : Option (A × D)
  rdEn : Bool
  rdAddr : A
  respRdy : Bool

namespace Ram1r1wSyncNoCollision

variable (s : Ram1r1wSyncNoCollision A D) (i : NoCollisionIn A D)

/-- `addr_collision_i` -/
def addrCollision : Bool := decide (i.wr.map Prod.fst = some i.rdAddr)

/-- `stall_o` -/
def stall : Bool := s.respVal && !i.respRdy

/-- `rd_req_rdy_a` -/
def reqRdy : Bool := !s.stall i && !addrCollision i

/-- `rd_req_mem_val_i`, `rd_req_mem_addr_i` -/
def memReq : Option A := if s.reqRdy i && i.rdEn then some i.rdAddr else none

/-- `rd_resp_data_a`: what the memory shows if it was read in the cycle before, otherwise what was
saved. -/
def respData : Option D := if s.reqVal then s.memData else s.savedData

/-- One clock edge. -/
def cycle : Ram1r1wSyncNoCollision A D where
  mem := Ram.store s.mem i.wr
  memData := syncRead s.mem i.wr (s.memReq i)
  respVal := if s.stall i then s.respVal else (s.memReq i).isSome
  reqVal := (s.memReq i).isSome
  savedData := if s.reqVal then s.memData else s.savedData
  accepted := s.accepted ++ ((s.memReq i).map fun a => (a, s.mem a)).toList
  answered := s.answered ++ if s.respVal && i.respRdy then [s.respData] else []

def step (s : Ram1r1wSyncNoCollision A D) (i : NoCollisionIn A D) :
    Option (Ram1r1wSyncNoCollision A D) := some (s.cycle i)

/-- After reset; nothing was saved. -/
structure Init (s : Ram1r1wSyncNoCollision A D) : Prop where
  respVal : s.respVal = false
  reqVal : s.reqVal = false
  accepted : s.accepted = []
  answered : s.answered = []

/-- A request for the address that is written is refused. The requests that were accepted are
answered in order with the contents at that time, all but the one whose response is valid, and this
response shows them too. -/
structure AtAcceptance (s : Ram1r1wSyncNoCollision A D) : Prop where
  refuses : ∀ i : NoCollisionIn A D, i.wr.map Prod.fst = some i.rdAddr → s.reqRdy i = false
  order : ∃ (done : List (A × D)) (held : Option (A × D)), s.accepted = done ++ held.toList ∧
    s.answered = done.map (fun x => some x.2) ∧ s.respVal = held.isSome ∧
      ∀ x ∈ held, s.respData = some x.2

variable {s : Ram1r1wSyncNoCollision A D} {i : NoCollisionIn A D}

theorem atAcceptance_init (h : Init s) : AtAcceptance s := by
  refine ⟨fun i hi => by simp [reqRdy, addrCollision, hi], [], none, ?_, ?_, ?_, ?_⟩
  · exact h.accepted
  · exact h.answered
  · exact h.respVal
  · intro x hx
    cases hx

/-- What is read goes to the request in the next cycle. -/
theorem respData_of_memReq {a : A} (ha : s.memReq i = some a) :
    (s.cycle i).respData = some (s.mem a) := by
  have hgo : (s.reqRdy i && i.rdEn) = true ∧ i.rdAddr = a := by
    unfold memReq at ha
    split at ha
    · exact ⟨‹_›, Option.some.inj ha⟩
    · cases ha
  have hne : ¬ i.wr.map Prod.fst = some a := by
    have hcol := (Bool.and_eq_true_iff.mp (Bool.and_eq_true_iff.mp hgo.1).1).2
    rw [← hgo.2]
    simpa [addrCollision] using hcol
  simp [respData, cycle, ha, syncRead, hne]

theorem AtAcceptance.cycle (h : AtAcceptance s) : AtAcceptance (s.cycle i) := by
  obtain ⟨-, done, held, hacc, hans, hval, hdata⟩ := h
  refine ⟨fun i hi => by simp [reqRdy, addrCollision, hi], ?_⟩
  cases hst : s.stall i with
  | true =>
    obtain ⟨hv, hr⟩ := Bool.and_eq_true_iff.mp hst
    have hnone : s.memReq i = none := by simp [memReq, reqRdy, hst]
    refine ⟨done, held, ?_, ?_, ?_, ?_⟩
    · simp [Ram1r1wSyncNoCollision.cycle, hnone, hacc]
    · simp only [Bool.not_eq_true'] at hr
      simp [Ram1r1wSyncNoCollision.cycle, hr, hans]
    · simp [Ram1r1wSyncNoCollision.cycle, hst, hval]
    · intro x hx
      rw [← hdata x hx]
      simp [respData, Ram1r1wSyncNoCollision.cycle, hnone]
  | false =>
    refine ⟨done ++ held.toList, (s.memReq i).map fun a => (a, s.mem a), ?_, ?_, ?_, ?_⟩
    · simp [Ram1r1wSyncNoCollision.cycle, hacc]
    · cases held with
      | none => simp [Ram1r1wSyncNoCollision.cycle, hans, hval]
      | some x =>
        have hrdy : i.respRdy = true := by simpa [stall, hval] using hst
        simp [Ram1r1wSyncNoCollision.cycle, hans, hval, hrdy, hdata x rfl]
    · simp [Ram1r1wSyncNoCollision.cycle, hst]
    · intro x hx
      obtain ⟨a, ha, rfl⟩ := Option.map_eq_some_iff.mp hx
      exact respData_of_memReq ha

/-- In every run a response shows the contents of its address when the request was accepted,
whatever is written while it is held. -/
theorem ram_no_collision_at_acceptance (h : Reach Init step Free s) : AtAcceptance s := by
  refine h.invariant (fun _ => atAcceptance_init) ?_
  intro t i t' ht _ hs
  cases hs
  exact ht.cycle

/-- A response is held for two cycles while its address is written, and another one is read as it is
released. -/
theorem ram_no_collision_at_acceptance_held : ∃ s : Ram1r1wSyncNoCollision (BitVec 1) Nat,
    Reach Init step Free s ∧ (s.accepted = [(0, 5), (1, 8)] ∧ s.answered = [some 5] ∧
      s.respData = some 8) ∧ AtAcceptance s := by
  have hrun : ∃ s : Ram1r1wSyncNoCollision (BitVec 1) Nat, Reach Init step Free s ∧
      decide (s.accepted = [(0, 5), (1, 8)] ∧ s.answered = [some 5] ∧ s.respData = some 8) = true :=
    Reach.exists_of_run (s := ⟨fun _ => 0, none, false, false, none, [], []⟩)
      [⟨some (0, 5), true, 0, true⟩, ⟨some (1, 8), true, 0, true⟩, ⟨some (0, 6), true, 1, false⟩,
        ⟨some (0, 7), true, 1, false⟩, ⟨none, true, 1, true⟩] ⟨rfl, rfl, rfl, rfl⟩
      (by decide +kernel)
  obtain ⟨s, hr, hp⟩ := hrun
  exact ⟨s, hr, decide_eq_true_iff.mp hp, ram_no_collision_at_acceptance hr⟩

end Ram1r1wSyncNoCollision

end TcpHw
