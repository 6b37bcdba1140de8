import TcpHw.Lib.ReadPort
import TcpHw.Lib.Trace
import TcpHw.Send.ProtocolLogicPipe

/-!
# Stalls of `protocol_logic_pipe`

The pipe between a scheduler, the flag store, the tail pointers, the transmit state, its
write port and the header assembler, each of which may hold it up in any cycle. The pipe
takes every read response when it comes and asks again while it is stalled. Passes are
numbered in the order in which they are taken from the scheduler, and a request is made
for a pass; the numbers, the answers and the record of what left the pipe are not hardware.
-/
namespace TcpHw

open Trace

set_option autoImplicit false

/-- `main_pipe_assembler_tx_*` -/
structure TxDescriptor where
  flowid : FlowId
  seqNum : BitVec 32
  payload : PayloadBuf
  deriving DecidableEq

def WPass.descriptor (w : WPass) : TxDescriptor where
  flowid := w.flowid
  seqNum := w.numbered.txPktSeqNum
  payload := w.numbered.payloadBuf

/-- A pass in terms of what was read for it; `now` is the time at which it was numbered. -/
structure Pass where
  flowid : FlowId
  flags : RtTimeoutFlags
  tailPtr : Ptr
  txState : TxState
  now : BitVec 64

/-- What stage W should hold for the pass. -/
def Pass.result (p : Pass) : WPass where
  flowid := p.flowid
  flags := p.flags
  numbered := numbering p.flags p.txState p.tailPtr p.now

structure StalledPipe where
  pipe : ProtocolLogicPipe
  flagPort : ReadPort (Nat × FlowId) RtTimeoutFlags
  tailPort : ReadPort (Nat × FlowId) Ptr
  txPort : ReadPort (Nat × FlowId) TxState
  taken : List FlowId
  writes : List (FlowId × TxState)
  requeued : List FlowId
  packets : List TxDescriptor

structure StalledPipeIn where
  sched : Option FlowId
  flag : PortIn RtTimeoutFlags
  tail : PortIn Ptr
  tx : PortIn TxState
  txWrRdy : Bool
  assemblerRdy : Bool

namespace StalledPipe

variable (s : StalledPipe) (i : StalledPipeIn)

/-- The scheduling queue has room for every flow. -/
def pipeIn : PipeIn where
  sched := i.sched
  flagReqRdy := s.flagPort.reqRdy i.flag
  flagResp := s.flagPort.resp i.flag
  tailReqRdy := s.tailPort.reqRdy i.tail
  tailResp := s.tailPort.resp i.tail
  txReqRdy := s.txPort.reqRdy i.tx
  txResp := s.txPort.resp i.tx
  txWrRdy := i.txWrRdy
  assemblerRdy := i.assemblerRdy
  schedFull := false

/-- The number of the pass in stage N. -/
def nIdx : Nat := s.writes.length + s.pipe.w.isSome.toNat

/-- The number of the pass in stage RT. -/
def rtIdx : Nat := s.nIdx + s.pipe.n.isSome.toNat

/-- One clock edge. Requests are made in every cycle a flow is there, stalled or not. -/
def step : StalledPipe where
  pipe := s.pipe.step (s.pipeIn i)
  flagPort := s.flagPort.step i.flag (i.sched.map fun f => (s.taken.length, f))
  tailPort := s.tailPort.step i.tail (s.pipe.rt.map fun f => (s.rtIdx, f))
  txPort := s.txPort.step i.tx (s.pipe.rt.map fun f => (s.rtIdx, f))
  taken := s.taken ++ if s.pipe.schedRdReq (s.pipeIn i) then i.sched.toList else []
  writes := s.writes ++ (s.pipe.txStateWrReq (s.pipeIn i)).toList
  requeued := s.requeued ++ (s.pipe.schedWrReq (s.pipeIn i)).toList
  packets := s.packets ++ ((s.pipe.assemblerTx (s.pipeIn i)).map WPass.descriptor).toList

/-- A flow is at most once in the pipe. -/
def cycle (s : StalledPipe) (i : StalledPipeIn) : Option StalledPipe :=
  if (s.step i).pipe.inFlight.Nodup then some (s.step i) else none

def reset : StalledPipe where
  pipe := ProtocolLogicPipe.reset
  flagPort := ReadPort.reset
  tailPort := ReadPort.reset
  txPort := ReadPort.reset
  taken := []
  writes := []
  requeued := []
  packets := []

def Init (s : StalledPipe) : Prop := s = reset

/-- The memories answered requests that were made for the `k`-th pass with the values of `p`. -/
def Read (k : Nat) (p : Pass) : Prop :=
  ((k, p.flowid), p.flags) ∈ s.flagPort.answers ∧
    ((k, p.flowid), p.tailPtr) ∈ s.tailPort.answers ∧
    ((k, p.flowid), p.txState) ∈ s.txPort.answers

/-- The passes `ps` are complete, in the order in which they were taken, each with one write
and one entry in the scheduling queue, and with its packet if there is one to send; what was
taken otherwise is in the pipe. -/
structure Exact (s : StalledPipe) (ps : List Pass) : Prop where
  taken : s.taken = ps.map Pass.flowid ++ s.pipe.inFlight
  writes : s.writes = ps.map fun p => (p.flowid, p.result.numbered.nextTxData)
  requeued : s.requeued = ps.map Pass.flowid
  packets : s.packets =
    ((ps.map Pass.result).filter fun w => w.numbered.generatePkt).map WPass.descriptor
  read : ∀ k p, ps[k]? = some p → s.Read k p

/-- Nobody holds the pipe up in this cycle. -/
def Smooth (i : StalledPipeIn) : Prop :=
  i.flag.rdy = true ∧ i.flag.respond = true ∧ i.tail.rdy = true ∧ i.tail.respond = true ∧
    i.tx.rdy = true ∧ i.tx.respond = true ∧ i.txWrRdy = true ∧ i.assemblerRdy = true

/-- The passes that have begun complete when nobody holds the pipe up for long enough. -/
def Completes (ok : StalledPipe → StalledPipeIn → Prop) [∀ s i, Decidable (ok s i)]
    (s : StalledPipe) : Prop :=
  ∃ n, ∀ is s', n ≤ is.length → (∀ i ∈ is, Smooth i) → run cycle ok s is = some s' →
    s.taken.length ≤ s'.writes.length

/-- Stage RT does not wait for the flag store, its flags already caught, while the scheduler
is empty. -/
def Fed (s : StalledPipe) (i : StalledPipeIn) : Prop :=
  s.pipe.rt.isSome = true → s.pipe.rtFlagsStall.isSome = true →
    (s.flagPort.resp i.flag).isSome = true ∨ i.sched.isSome = true

instance (s : StalledPipe) (i : StalledPipeIn) : Decidable (Fed s i) :=
  inferInstanceAs (Decidable (_ → _))

/-! ### The numbers of the stages -/

variable {s i} {ps : List Pass}

theorem writes_length_step :
    (s.step i).writes.length = s.writes.length + (s.pipe.wDone (s.pipeIn i)).isSome.toNat := by
  simp only [step, ProtocolLogicPipe.txStateWrReq, List.length_append]
  cases s.pipe.wDone (s.pipeIn i) <;> rfl

theorem nIdx_step :
    (s.step i).nIdx = if s.pipe.stallN (s.pipeIn i) then s.nIdx else s.rtIdx := by
  have hw := congrArg List.length (s.pipe.stageW_step (s.pipeIn i))
  have hlen := writes_length_step (s := s) (i := i)
  simp only [nIdx, rtIdx, hlen]
  show _ + _ + (s.pipe.step (s.pipeIn i)).w.isSome.toNat = _
  cases hN : s.pipe.stallN (s.pipeIn i) <;>
    cases hd : s.pipe.wDone (s.pipeIn i) <;> cases hs : (s.pipe.step (s.pipeIn i)).w <;>
    cases hww : s.pipe.w <;> cases hn : s.pipe.n <;> simp [hN, hd, hs, hww, hn] at hw ⊢

theorem rtIdx_step (ht : s.taken.length = s.rtIdx + s.pipe.rt.isSome.toNat) :
    (s.step i).rtIdx = if s.pipe.stallRt (s.pipeIn i) then s.rtIdx else s.taken.length := by
  have hn := congrArg List.length (s.pipe.stageN_step (s.pipeIn i))
  have hidx := nIdx_step (s := s) (i := i)
  rw [ht]
  simp only [rtIdx, hidx]
  show _ + (s.pipe.step (s.pipeIn i)).n.isSome.toNat = _
  cases hN : s.pipe.stallN (s.pipeIn i) <;> cases hR : s.pipe.stallRt (s.pipeIn i) <;>
    cases hs : (s.pipe.step (s.pipeIn i)).n <;> cases hnn : s.pipe.n <;>
    cases hrt : s.pipe.rt <;> simp [hN, hR, hs, hnn, hrt] at hn ⊢

/-! ### The invariant -/

/-- The registers that catch a response belong to the pass in their stage, or else the port is
working on a request of that pass. -/
structure Inv (s : StalledPipe) (ps : List Pass) : Prop where
  exact : Exact s ps
  nodup : s.pipe.inFlight.Nodup
  w : ∀ w, s.pipe.w = some w → ∃ p, s.Read ps.length p ∧ w = p.result
  n : ∀ f x, s.pipe.n = some (f, x) → ((s.nIdx, f), x) ∈ s.flagPort.answers ∧
    s.tailPort.Serves (s.nIdx, f) s.pipe.tailPtrStall ∧
    s.txPort.Serves (s.nIdx, f) s.pipe.txStateStall
  rt : ∀ f, s.pipe.rt = some f → s.flagPort.Serves (s.rtIdx, f) s.pipe.rtFlagsStall

theorem Inv.writes_length (h : Inv s ps) : s.writes.length = ps.length := by
  rw [h.exact.writes, List.length_map]

theorem Inv.taken_length (h : Inv s ps) :
    s.taken.length = s.rtIdx + s.pipe.rt.isSome.toNat := by
  rw [h.exact.taken]
  simp only [rtIdx, nIdx, h.writes_length, ProtocolLogicPipe.inFlight, List.length_append,
    List.length_map]
  cases s.pipe.w <;> cases s.pipe.n <;> cases s.pipe.rt <;> simp

theorem read_step {k : Nat} {p : Pass} (h : s.Read k p) : (s.step i).Read k p :=
  ⟨ReadPort.mem_answers_step h.1, ReadPort.mem_answers_step h.2.1, ReadPort.mem_answers_step h.2.2⟩

/-- Stage N numbers a pass with what was read for it. -/
theorem Inv.number_eq (h : Inv s ps) {f : FlowId} {x : RtTimeoutFlags}
    (hn : s.pipe.n = some (f, x)) (hs : s.pipe.stallN (s.pipeIn i) = false) :
    ∃ p : Pass, (s.step i).Read s.nIdx p ∧ s.pipe.number (s.pipeIn i) f x = p.result := by
  obtain ⟨hflags, htail, htx⟩ := h.n f x hn
  simp only [ProtocolLogicPipe.stallN, hn, Option.isSome_some, Bool.true_and,
    Bool.or_eq_false_iff] at hs
  obtain ⟨⟨-, hst⟩, hsx⟩ := hs
  have ht : (s.pipe.tailPtrStall.or (s.tailPort.resp i.tail)).isSome = true := by
    cases hc : s.pipe.tailPtrStall with
    | some d => rfl
    | none => simpa [hc, pipeIn] using hst
  have hx : (s.pipe.txStateStall.or (s.txPort.resp i.tx)).isSome = true := by
    cases hc : s.pipe.txStateStall with
    | some d => rfl
    | none => simpa [hc, pipeIn] using hsx
  obtain ⟨t, ht⟩ := Option.isSome_iff_exists.mp ht
  obtain ⟨d, hd⟩ := Option.isSome_iff_exists.mp hx
  refine ⟨⟨f, x, t, d, s.pipe.timestamp⟩,
    ⟨ReadPort.mem_answers_step hflags, htail.take ht, htx.take hd⟩, ?_⟩
  have htp : s.pipe.tailPtrByp (s.pipeIn i) = t := by
    simp only [ProtocolLogicPipe.tailPtrByp, pipeIn, ht, Option.getD_some]
  -- no flow is twice in the pipe, so nothing is bypassed from stage W
  have hdp : s.pipe.txDataByp (s.pipeIn i) f = d := by
    unfold ProtocolLogicPipe.txDataByp
    cases hw : s.pipe.w with
    | none => simp only [pipeIn, hd, Option.getD_some]
    | some w =>
      have hne := s.pipe.w_ne_n h.nodup hn w hw
      simp only [if_neg hne, pipeIn, hd, Option.getD_some]
  simp only [ProtocolLogicPipe.number, Pass.result, htp, hdp]

theorem Inv.w_step (h : Inv s ps) {w : WPass} (hw : (s.step i).pipe.w = some w) :
    ∃ p, (s.step i).Read (ps.length + (s.pipe.wDone (s.pipeIn i)).isSome.toNat) p ∧
      w = p.result := by
  have hw' : (if ProtocolLogicPipe.stallW (s.pipeIn i) then s.pipe.w
    else if s.pipe.stallN (s.pipeIn i) then none
    else s.pipe.n.map fun x => s.pipe.number (s.pipeIn i) x.1 x.2) = some w := hw
  split_ifs at hw' with hW hN
  · obtain ⟨p, hp, he⟩ := h.w w hw'
    refine ⟨p, ?_, he⟩
    simpa [ProtocolLogicPipe.wDone, hW] using read_step hp
  · obtain ⟨⟨f, x⟩, hn, rfl⟩ := Option.map_eq_some_iff.mp hw'
    obtain ⟨p, hp, he⟩ := h.number_eq hn (by simpa using hN)
    refine ⟨p, ?_, he⟩
    simpa [ProtocolLogicPipe.wDone, hW, nIdx, h.writes_length] using hp

theorem Inv.n_step (h : Inv s ps) {f : FlowId} {x : RtTimeoutFlags}
    (hn : (s.step i).pipe.n = some (f, x)) :
    (((s.step i).nIdx, f), x) ∈ (s.step i).flagPort.answers ∧
      (s.step i).tailPort.Serves ((s.step i).nIdx, f) (s.step i).pipe.tailPtrStall ∧
      (s.step i).txPort.Serves ((s.step i).nIdx, f) (s.step i).pipe.txStateStall := by
  have hn' : (if s.pipe.stallN (s.pipeIn i) then s.pipe.n
    else if s.pipe.stallRt (s.pipeIn i) then none
    else s.pipe.rt.map fun f => (f, (s.pipe.rtFlagsStall.or (s.flagPort.resp i.flag)).getD default))
      = some (f, x) := hn
  rw [nIdx_step]
  simp only [step, ProtocolLogicPipe.step]
  split_ifs at hn' with hN hR
  · obtain ⟨hflags, htail, htx⟩ := h.n f x hn'
    simp only [if_pos hN]
    exact ⟨ReadPort.mem_answers_step hflags, htail.hold, htx.hold⟩
  · obtain ⟨g, hrt, he⟩ := Option.map_eq_some_iff.mp hn'
    obtain ⟨rfl, hx⟩ := Prod.mk.inj he
    simp only [ProtocolLogicPipe.stallRt, hrt, Option.isSome_some, Bool.true_and,
      Bool.or_eq_true, not_or, Bool.not_eq_true, Bool.not_eq_false'] at hR
    obtain ⟨⟨⟨-, htr⟩, hfr⟩, hxr⟩ := hR
    simp only [if_neg hN, hrt, Option.map_some]
    have hsome : (s.pipe.rtFlagsStall.or (s.flagPort.resp i.flag)).isSome = true := by
      cases hc : s.pipe.rtFlagsStall with
      | some d => rfl
      | none => simpa [pipeIn, ← Option.not_isSome] using hfr
    obtain ⟨d, hd⟩ := Option.isSome_iff_exists.mp hsome
    rw [hd, Option.getD_some] at hx
    subst hx
    exact ⟨(h.rt g hrt).take hd, ReadPort.serves_of_reqRdy htr, ReadPort.serves_of_reqRdy hxr⟩

theorem Inv.rt_step (h : Inv s ps) {f : FlowId} (hf : (s.step i).pipe.rt = some f) :
    (s.step i).flagPort.Serves ((s.step i).rtIdx, f) (s.step i).pipe.rtFlagsStall := by
  have hf' : (if s.pipe.stallRt (s.pipeIn i) then s.pipe.rt
    else if s.pipe.stallS (s.pipeIn i) then none else i.sched) = some f := hf
  rw [rtIdx_step h.taken_length]
  simp only [step, ProtocolLogicPipe.step]
  split_ifs at hf' with hR hS
  · simp only [if_pos hR]
    exact (h.rt f hf').hold
  · have hsched : (s.pipeIn i).sched = some f := hf'
    have hrdy : s.flagPort.reqRdy i.flag = true := by
      simp only [ProtocolLogicPipe.stallS, hsched, hR, Option.isSome_some, Bool.true_and,
        Bool.false_or, Bool.not_eq_true, Bool.not_eq_false'] at hS
      exact hS
    simp only [if_neg hR, hf', Option.map_some]
    exact ReadPort.serves_of_reqRdy hrdy

theorem Inv.exact_step (h : Inv s ps) : ∃ qs, Exact (s.step i) qs ∧
    qs.length = ps.length + (s.pipe.wDone (s.pipeIn i)).isSome.toNat := by
  have hflow := s.pipe.inFlight_step (s.pipeIn i)
  have htaken : (s.step i).taken = ps.map Pass.flowid ++
      ((s.pipe.wDone (s.pipeIn i)).map WPass.flowid).toList ++ (s.step i).pipe.inFlight := by
    show s.taken ++ (if s.pipe.schedRdReq (s.pipeIn i) then (s.pipeIn i).sched.toList else []) = _
    rw [h.exact.taken, List.append_assoc, ← hflow, List.append_assoc]
    rfl
  cases hd : s.pipe.wDone (s.pipeIn i) with
  | none =>
    refine ⟨ps, ⟨?_, ?_, ?_, ?_, fun k p hk => read_step (h.exact.read k p hk)⟩, by simp⟩
    · rw [htaken, hd]
      simp
    · simp [step, ProtocolLogicPipe.txStateWrReq, hd, h.exact.writes]
    · simp [step, ProtocolLogicPipe.schedWrReq, hd, h.exact.requeued]
    · simp [step, ProtocolLogicPipe.assemblerTx, hd, h.exact.packets]
  | some w =>
    have hw : s.pipe.w = some w := by
      simp only [ProtocolLogicPipe.wDone, Option.ite_none_left_eq_some] at hd
      exact hd.2
    obtain ⟨p, hp, rfl⟩ := h.w w hw
    refine ⟨ps ++ [p], ⟨?_, ?_, ?_, ?_, ?_⟩, by simp⟩
    · rw [htaken, hd]
      simp [Pass.result]
    · simp [step, ProtocolLogicPipe.txStateWrReq, hd, h.exact.writes, Pass.result]
    · show s.requeued ++ ((s.pipe.wDone (s.pipeIn i)).map WPass.flowid).toList = _
      simp [hd, h.exact.requeued, Pass.result]
    · cases hg : p.result.numbered.generatePkt <;>
        simp [step, ProtocolLogicPipe.assemblerTx, hd, h.exact.packets, Option.filter, hg]
    · intro k q hk
      rcases Nat.lt_trichotomy k ps.length with hlt | rfl | hgt
      · rw [List.getElem?_append_left hlt] at hk
        exact read_step (h.exact.read k q hk)
      · rw [List.getElem?_concat_length] at hk
        cases hk
        exact read_step hp
      · rw [List.getElem?_eq_none (by simp; omega)] at hk
        cases hk

theorem inv_step (h : Inv s ps) (hnd : (s.step i).pipe.inFlight.Nodup) :
    ∃ qs, Inv (s.step i) qs := by
  obtain ⟨qs, he, hlen⟩ := h.exact_step (i := i)
  refine ⟨qs, he, hnd, ?_, fun f x => h.n_step, fun f => h.rt_step⟩
  intro w hw
  rw [hlen]
  exact h.w_step hw

theorem inv_init (h : s.Init) : Inv s [] := by
  subst h
  refine ⟨⟨rfl, rfl, rfl, rfl, fun k p hk => by simp at hk⟩, List.nodup_nil, ?_, ?_, ?_⟩
  · intro w hw
    cases hw
  · intro f x hn
    cases hn
  · intro f hf
    cases hf

theorem inv_of_reach {ok : StalledPipe → StalledPipeIn → Prop} (h : Reach Init cycle ok s) :
    ∃ ps, Inv s ps := by
  refine h.invariant (I := fun s => ∃ ps, Inv s ps) (fun s h0 => ⟨[], inv_init h0⟩) ?_
  rintro s i s' ⟨ps, hi⟩ - hs
  simp only [cycle, Option.ite_none_right_eq_some, Option.some.injEq] at hs
  obtain ⟨hnd, rfl⟩ := hs
  exact inv_step hi hnd

/-! ### The end of a pass -/

/-- The first `t` passes are complete, or at most `k` stages away from it; in the last level
the flags may still have to be asked for once more. -/
def Ahead (s : StalledPipe) (t : Nat) : Nat → Prop
  | 0 => t ≤ s.writes.length
  | 1 => t ≤ s.nIdx
  | 2 => t ≤ s.rtIdx
  | 3 => t ≤ s.taken.length ∧ (s.pipe.rt.isSome = true → s.flagPort.pending.isSome = true)
  | _ => t ≤ s.taken.length

theorem stallW_smooth (hx : Smooth i) : ProtocolLogicPipe.stallW (s.pipeIn i) = false := by
  obtain ⟨-, -, -, -, -, -, hw, ha⟩ := hx
  simp [ProtocolLogicPipe.stallW, pipeIn, hw, ha]

theorem Inv.stallN_smooth (h : Inv s ps) (hx : Smooth i) :
    s.pipe.stallN (s.pipeIn i) = false := by
  have hW := stallW_smooth (s := s) hx
  obtain ⟨-, -, -, ht, -, hd, -, -⟩ := hx
  cases hn : s.pipe.n with
  | none => simp [ProtocolLogicPipe.stallN, hn]
  | some x =>
    obtain ⟨-, htail, htx⟩ := h.n x.1 x.2 hn
    have hT : ((s.pipeIn i).tailResp.isNone && s.pipe.tailPtrStall.isNone) = false := by
      have h1 : (s.pipe.tailPtrStall.or (s.pipeIn i).tailResp).isSome = true := htail.available ht
      cases hc : s.pipe.tailPtrStall <;> cases hr : (s.pipeIn i).tailResp <;> simp [hc, hr] at h1 ⊢
    have hX : ((s.pipeIn i).txResp.isNone && s.pipe.txStateStall.isNone) = false := by
      have h1 : (s.pipe.txStateStall.or (s.pipeIn i).txResp).isSome = true := htx.available hd
      cases hc : s.pipe.txStateStall <;> cases hr : (s.pipeIn i).txResp <;> simp [hc, hr] at h1 ⊢
    simp [ProtocolLogicPipe.stallN, hW, hT, hX]

/-- Without other hindrance stage RT waits for a response of the flag store only. -/
theorem Inv.stallRt_smooth (h : Inv s ps) (hx : Smooth i) :
    s.pipe.stallRt (s.pipeIn i) = (s.pipe.rt.isSome && s.flagPort.pending.isNone) := by
  have hN := h.stallN_smooth hx
  obtain ⟨-, hf, htr, ht, hxr, hd, -, -⟩ := hx
  have hT : (s.pipeIn i).tailReqRdy = true := by simp [pipeIn, ReadPort.reqRdy, htr, ht]
  have hX : (s.pipeIn i).txReqRdy = true := by simp [pipeIn, ReadPort.reqRdy, hxr, hd]
  have hF : (s.pipeIn i).flagResp.isNone = s.flagPort.pending.isNone := by
    cases hp : s.flagPort.pending <;> simp [pipeIn, ReadPort.resp, hf, hp]
  rw [ProtocolLogicPipe.stallRt, hN, hT, hX, hF]
  cases s.flagPort.pending <;> cases s.pipe.rt <;> simp

/-- After a smooth cycle the flag store works for stage RT. -/
theorem Inv.pending_smooth (h : Inv s ps) (hx : Smooth i) (hfed : Fed s i)
    (hrt : (s.step i).pipe.rt.isSome = true) : (s.step i).flagPort.pending.isSome = true := by
  have hR := h.stallRt_smooth hx
  obtain ⟨hfr, hf, -⟩ := hx
  have hreq : s.flagPort.reqRdy i.flag = true := by simp [ReadPort.reqRdy, hfr, hf]
  have hpend : (s.step i).flagPort.pending = i.sched.map fun f => (s.taken.length, f) := by
    simp [step, ReadPort.step, hreq]
  rw [hpend, Option.isSome_map]
  have hrt' : (if s.pipe.stallRt (s.pipeIn i) then s.pipe.rt
    else if s.pipe.stallS (s.pipeIn i) then none else i.sched).isSome = true := hrt
  split_ifs at hrt' with hs hS
  · rw [hs, eq_comm, Bool.and_eq_true, Option.isNone_iff_eq_none] at hR
    obtain ⟨f, hr⟩ := Option.isSome_iff_exists.mp hR.1
    have hserve := h.rt f hr
    have hcaught : s.pipe.rtFlagsStall.isSome = true := by
      cases hc : s.pipe.rtFlagsStall with
      | some d => rfl
      | none =>
        rw [hc] at hserve
        have hp : s.flagPort.pending = some (s.rtIdx, f) := hserve
        rw [hR.2] at hp
        cases hp
    rcases hfed hR.1 hcaught with hresp | hsched
    · simp [ReadPort.resp, hR.2] at hresp
    · exact hsched
  · simp at hrt'
  · exact hrt'

theorem Inv.ahead_step (h : Inv s ps) (hx : Smooth i) (hfed : Fed s i) {t k : Nat}
    (ha : Ahead s t k) : Ahead (s.step i) t (k - 1) := by
  have hwrites : (s.step i).writes.length = s.nIdx := by
    rw [writes_length_step, ProtocolLogicPipe.wDone, stallW_smooth hx]
    rfl
  have htaken : s.taken.length ≤ (s.step i).taken.length := by
    simp [step]
  match k with
  | 0 =>
    show t ≤ (s.step i).writes.length
    have ht : t ≤ s.writes.length := ha
    rw [hwrites, nIdx]
    omega
  | 1 =>
    show t ≤ (s.step i).writes.length
    rw [hwrites]
    exact ha
  | 2 =>
    show t ≤ (s.step i).nIdx
    rw [nIdx_step, h.stallN_smooth hx]
    exact ha
  | 3 =>
    show t ≤ (s.step i).rtIdx
    obtain ⟨ht, hp⟩ := ha
    have hR : s.pipe.stallRt (s.pipeIn i) = false := by
      rw [h.stallRt_smooth hx]
      cases hrt : s.pipe.rt.isSome with
      | false => rfl
      | true => simpa [← Option.not_isSome] using hp hrt
    rw [rtIdx_step h.taken_length, hR]
    exact ht
  | 4 => exact ⟨Nat.le_trans ha htaken, h.pending_smooth hx hfed⟩
  | k + 5 => exact Nat.le_trans ha htaken

/-- Induction over a smooth run: each cycle takes every pass one stage on. -/
theorem Inv.ahead_run {is : List StalledPipeIn} {s' : StalledPipe} {t k : Nat} (h : Inv s ps)
    (hx : ∀ i ∈ is, Smooth i) (ha : Ahead s t k) (hr : run cycle Fed s is = some s') :
    Ahead s' t (k - is.length) := by
  induction is generalizing s ps k with
  | nil =>
    cases hr
    exact ha
  | cons i is ih =>
    unfold run at hr
    split at hr
    · rename_i hfed
      obtain ⟨u, hu, hr'⟩ := Option.bind_eq_some_iff.mp hr
      simp only [cycle, Option.ite_none_right_eq_some, Option.some.injEq] at hu
      obtain ⟨hnd, rfl⟩ := hu
      obtain ⟨qs, hi⟩ := inv_step h hnd
      have hstep := h.ahead_step (hx i (List.mem_cons_self ..)) hfed ha
      have hrest := ih hi (fun j hj => hx j (List.mem_cons_of_mem _ hj)) hstep hr'
      rwa [Nat.sub_sub, Nat.add_comm 1] at hrest
    · cases hr

/-- Whatever the stalls, every pass works with what was read for it; and in every run in which
stage RT never waits for an empty scheduler, every pass that has begun completes. -/
theorem exact_and_completes (s : StalledPipe) :
    (Reach Init cycle Free s → ∃ ps, Exact s ps) ∧
      (Reach Init cycle Fed s → Completes Fed s) := by
  constructor
  · intro h
    obtain ⟨ps, hi⟩ := inv_of_reach h
    exact ⟨ps, hi.exact⟩
  · intro h
    obtain ⟨ps, hi⟩ := inv_of_reach h
    refine ⟨4, ?_⟩
    intro is s' hlen hx hr
    have hend := hi.ahead_run hx (t := s.taken.length) (k := 4) (Nat.le_refl _) hr
    rw [Nat.sub_eq_zero_of_le hlen] at hend
    exact hend

/-! ### Fixed runs -/

/-- A smooth cycle. -/
def smooth (sched : Option FlowId) : StalledPipeIn where
  sched := sched
  flag := { rdy := true, respond := true, data := default }
  tail := { rdy := true, respond := true, data := 7 }
  tx := { rdy := true, respond := true, data := default }
  txWrRdy := true
  assemblerRdy := true

/-- The same, with the tail pointers not ready for a request. -/
def noTail (sched : Option FlowId) : StalledPipeIn :=
  { smooth sched with tail := { rdy := false, respond := true, data := 7 } }

/-- Flow 3 is held up in stage RT while flow 5 waits in the scheduler. -/
theorem exact_and_completes_held : ∃ s, Reach Init cycle Fed s ∧
    (s.taken = [3, 5] ∧ s.requeued = [3]) ∧ (∃ ps, Exact s ps) ∧ Completes Fed s := by
  have hrun : ∃ s, Reach Init cycle Fed s ∧
      decide (s.taken = [3, 5] ∧ s.requeued = [3]) = true :=
    Reach.exists_of_run [smooth (some 3), noTail (some 5), smooth (some 5), smooth none,
      smooth none] rfl (by decide +kernel)
  obtain ⟨s, hr, hp⟩ := hrun
  refine ⟨s, hr, decide_eq_true_iff.mp hp, ?_, (exact_and_completes s).2 hr⟩
  exact (exact_and_completes s).1 (hr.mono fun _ _ _ => trivial)

/-- The flags of the flow in stage RT are caught, and nothing makes the flag store respond
again. -/
structure Stuck (s : StalledPipe) (f : FlowId) : Prop where
  rt : s.pipe.rt = some f
  caught : s.pipe.rtFlagsStall.isSome = true
  n : s.pipe.n = none
  w : s.pipe.w = none
  pending : s.flagPort.pending = none

theorem stuck_step {f : FlowId} (h : Stuck s f) :
    cycle s (smooth none) = some (s.step (smooth none)) ∧ Stuck (s.step (smooth none)) f ∧
      (s.step (smooth none)).writes = s.writes := by
  have hresp : s.flagPort.resp (smooth none).flag = none := by
    simp [ReadPort.resp, h.pending]
  have hR : s.pipe.stallRt (s.pipeIn (smooth none)) = true := by
    simp [ProtocolLogicPipe.stallRt, h.rt, pipeIn, hresp]
  have hW : ProtocolLogicPipe.stallW (s.pipeIn (smooth none)) = false := rfl
  have hN : s.pipe.stallN (s.pipeIn (smooth none)) = false := by
    simp [ProtocolLogicPipe.stallN, h.n]
  have hstuck : Stuck (s.step (smooth none)) f := by
    constructor
    · simp [step, ProtocolLogicPipe.step, hR, h.rt]
    · obtain ⟨d, hd⟩ := Option.isSome_iff_exists.mp h.caught
      simp [step, ProtocolLogicPipe.step, hR, hd]
    · simp [step, ProtocolLogicPipe.step, hR, hN]
    · simp [step, ProtocolLogicPipe.step, hW, hN, h.n]
    · simp [step, ReadPort.step, ReadPort.reqRdy, h.pending, smooth]
  refine ⟨if_pos ?_, hstuck, ?_⟩
  · simp [ProtocolLogicPipe.inFlight, hstuck.rt, hstuck.n, hstuck.w]
  · simp [step, ProtocolLogicPipe.txStateWrReq, ProtocolLogicPipe.wDone, h.w]

theorem stuck_run {f : FlowId} (n : Nat) (h : Stuck s f) :
    ∃ s', run cycle Free s (List.replicate n (smooth none)) = some s' ∧ s'.writes = s.writes := by
  induction n generalizing s with
  | zero => exact ⟨s, rfl, rfl⟩
  | succ n ih =>
    obtain ⟨hc, hs, hw⟩ := stuck_step h
    obtain ⟨s', hr, hw'⟩ := ih hs
    refine ⟨s', ?_, hw'.trans hw⟩
    have hfree : Free s (smooth none) := trivial
    rw [List.replicate_succ, run, if_pos hfree, hc]
    exact hr

/-- One flow, held up in stage RT for one cycle with nothing behind it, never gets out. -/
theorem exact_and_completes_alone : ¬ ∀ s, Reach Init cycle Free s →
    (∃ ps, Exact s ps) ∧ Completes Free s := by
  intro h
  have hrun : ∃ s, Reach Init cycle Free s ∧
      decide (s.pipe.rt = some 3 ∧ s.pipe.rtFlagsStall.isSome = true ∧ s.pipe.n = none ∧
        s.pipe.w.isNone ∧ s.flagPort.pending = none ∧ s.taken = [3] ∧ s.writes = []) = true :=
    Reach.exists_of_run [smooth (some 3), noTail none] rfl (by decide +kernel)
  obtain ⟨s, hr, hp⟩ := hrun
  rw [decide_eq_true_iff, Option.isNone_iff_eq_none] at hp
  obtain ⟨h1, h2, h3, h4, h5, htaken, hwrites⟩ := hp
  obtain ⟨n, hn⟩ := (h s hr).2
  obtain ⟨s', hrun', hw⟩ := stuck_run n ⟨h1, h2, h3, h4, h5⟩
  have hsmooth : ∀ i ∈ List.replicate n (smooth none), Smooth i := by
    intro i hi
    rw [List.eq_of_mem_replicate hi]
    exact ⟨rfl, rfl, rfl, rfl, rfl, rfl, rfl, rfl⟩
  have hle := hn _ s' (by simp) hsmooth hrun'
  rw [htaken, hw, hwrites] at hle
  exact absurd hle (by decide)

end StalledPipe

end TcpHw
