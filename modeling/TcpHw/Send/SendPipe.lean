import TcpHw.Lib.Trace
import TcpHw.Ram
import TcpHw.Send.Fifo2w
import TcpHw.Send.ProtocolLogicPipe

/-!
# The send pipe with its scheduler and memories

`scheduling_fifos`, `protocol_logic_pipe`, `rt_timeout_flag_store`, the send side of
`tx_state_store` and the tail pointers, wired as in `send_pipe_wrapper` and
`tcp_engine_wrapper`. One step is one clock cycle. Flow announcements, the
receive pipe's writes, the application's tail updates and the readiness of the
assembler and of the state write port come from outside.
-/
namespace TcpHw

open Trace

set_option autoImplicit false

/-- `new_flow_*` -/
structure NewFlow where
  flowid : FlowId
  txState : TxState
  tailPtr : Ptr

/-- What the neighbours drive in one cycle. -/
structure SendIn where
  newFlow : Option NewFlow
  assemblerRdy : Bool
  txWrRdy : Bool
  rtSet : Option FlowId
  ackWr : Option (FlowId × TxAckState)
  tailWr : Option (FlowId × Ptr)

/-- The registers and memories; `announced` is not a register, it lists the flows announced
so far. -/
structure SendPipe where
  fifo : Fifo2w FlowId
  pipe : ProtocolLogicPipe
  flags : FlagStore
  emitMem : FlowId → BitVec 32 × TxAckTimer
  ackMem : FlowId → TxAckState
  emitRd : Option FlowId
  ackRd : Option FlowId
  tailMem : FlowId → Ptr
  tailRd : Option FlowId
  announced : List FlowId

namespace SendPipe

variable (s : SendPipe) (i : SendIn)

/-- `send_pipe_rd_resp_val`, which is also what lets the two memories go on. -/
def txRespVal : Bool := s.emitRd.isSome && s.ackRd.isSome

/-- `send_pipe_rd_resp_data` -/
def txResp : Option TxState :=
  match s.emitRd, s.ackRd with
  | some f, some g =>
    some { txCurrSeqNum := (s.emitMem f).1, timer := (s.emitMem f).2, txCurrAckState := s.ackMem g }
  | _, _ => none

/-- The inputs of the pipe but for the scheduler's answer. -/
def pipeInBase : PipeIn where
  sched := none
  flagReqRdy := s.flags.rdReqRdy true
  flagResp := s.flags.rdResp
  tailReqRdy := Ram.reqRdy s.tailRd true
  tailResp := s.tailRd.map s.tailMem
  txReqRdy := Ram.reqRdy s.emitRd s.txRespVal && Ram.reqRdy s.ackRd s.txRespVal
  txResp := s.txResp
  txWrRdy := i.txWrRdy
  assemblerRdy := i.assemblerRdy
  schedFull := s.fifo.full

def newFlowId : Option FlowId := i.newFlow.map NewFlow.flowid

/-- The flow that stage W puts back, which may fall through the queue. -/
def schedWr : Option FlowId := s.pipe.schedWrReq (s.pipeInBase i)

def pipeIn : PipeIn :=
  { s.pipeInBase i with sched := s.fifo.rData (newFlowId i) (s.schedWr i) }

/-- The write port of `tx_emit_state`: a new flow wins. -/
def emitWr : Option (FlowId × (BitVec 32 × TxAckTimer)) :=
  (i.newFlow.map fun n => (n.flowid, n.txState.txCurrSeqNum, n.txState.timer)).or
    ((s.pipe.txStateWrReq (s.pipeIn i)).map fun w => (w.1, w.2.txCurrSeqNum, w.2.timer))

/-- The write port of `tx_ack_state`. -/
def ackWr : Option (FlowId × TxAckState) :=
  (i.newFlow.map fun n => (n.flowid, n.txState.txCurrAckState)).or i.ackWr

def tailWr : Option (FlowId × Ptr) :=
  (i.newFlow.map fun n => (n.flowid, n.tailPtr)).or i.tailWr

/-- One clock edge. -/
def step : SendPipe where
  fifo := s.fifo.step (newFlowId i) (s.schedWr i) (s.pipe.schedRdReq (s.pipeIn i))
  pipe := s.pipe.step (s.pipeIn i)
  flags := s.flags.step (newFlowId i) (s.pipeIn i).sched true s.pipe.clrBit none i.rtSet
  emitMem := Ram.store s.emitMem (s.emitWr i)
  ackMem := Ram.store s.ackMem (ackWr i)
  emitRd := Ram.next s.emitRd s.pipe.rt s.txRespVal
  ackRd := Ram.next s.ackRd s.pipe.rt s.txRespVal
  tailMem := Ram.store s.tailMem (tailWr i)
  tailRd := Ram.next s.tailRd s.pipe.rt true
  announced := (newFlowId i).toList ++ s.announced

/-- After reset; the memories hold anything. -/
def Init : Prop :=
  s.fifo = Fifo2w.reset 15 ∧ s.pipe = ProtocolLogicPipe.reset ∧ s.flags = FlagStore.reset ∧
    s.emitRd = none ∧ s.ackRd = none ∧ s.tailRd = none ∧ s.announced = []

/-- Each flow is announced at most once. -/
def cycle (s : SendPipe) (i : SendIn) : Option SendPipe :=
  if ∀ f ∈ newFlowId i, f ∉ s.announced then some (s.step i) else none

/-- Every place that can hold a flow: the scheduling queue and the three stages. -/
def inventory : List FlowId := s.fifo.contents ++ s.pipe.inFlight

/-! ### The invariant -/

/-- The queue and the stages together hold what was announced, and a waiting entry
means that stage RT is occupied. -/
structure Inv (s : SendPipe) (q : List FlowId) : Prop where
  fifo : s.fifo.Represents q
  nodup : s.announced.Nodup
  perm : (q ++ s.pipe.inFlight).Perm s.announced
  busy : q ≠ [] → s.pipe.rt.isSome = true

theorem length_le_of_nodup {l : List FlowId} (h : l.Nodup) : l.length ≤ 16 := by
  have hc := h.length_le_card
  simpa using hc

variable {s i} {q : List FlowId}

/-- Both writes of a cycle find room: whenever the queue holds something, one more flow
sits in stage RT. -/
theorem Inv.room (h : Inv s q) (hnew : ((newFlowId i).toList ++ s.announced).Nodup) :
    q.length + (newFlowId i).toList.length +
      ((s.pipe.wDone (s.pipeInBase i)).map WPass.flowid).toList.length ≤ 15 := by
  have hlen := length_le_of_nodup hnew
  have hperm := h.perm.length_eq
  simp only [ProtocolLogicPipe.inFlight, List.length_append] at hlen hperm
  have hw : ((s.pipe.wDone (s.pipeInBase i)).map WPass.flowid).toList.length ≤
      (s.pipe.w.map WPass.flowid).toList.length := by
    unfold ProtocolLogicPipe.wDone
    split <;> simp
  by_cases hq : q = []
  · subst hq
    have h0 : (newFlowId i).toList.length ≤ 1 := by cases newFlowId i <;> simp
    have h1 : (s.pipe.w.map WPass.flowid).toList.length ≤ 1 := by
      cases s.pipe.w.map WPass.flowid <;> simp
    simp only [List.length_nil]
    omega
  · have hrt : s.pipe.rt.toList.length = 1 := by
      obtain ⟨f, hf⟩ := Option.isSome_iff_exists.mp (h.busy hq)
      simp [hf]
    omega

/-- So what leaves stage W is put back, and nothing is dropped. -/
theorem Inv.schedWr_eq (h : Inv s q) (hnew : ((newFlowId i).toList ++ s.announced).Nodup) :
    s.schedWr i = (s.pipe.wDone (s.pipeInBase i)).map WPass.flowid := by
  have hroom := h.room hnew
  unfold schedWr ProtocolLogicPipe.schedWrReq
  cases hw : s.pipe.wDone (s.pipeInBase i) with
  | none => simp
  | some w =>
    have hfull : s.fifo.full = false := by
      simp only [hw, Option.map_some, Option.toList_some, List.length_singleton] at hroom
      rw [h.fifo.full_eq, decide_eq_false_iff_not]
      omega
    simp [pipeInBase, hfull]

theorem Inv.accepted_eq (h : Inv s q) (hnew : ((newFlowId i).toList ++ s.announced).Nodup) :
    Fifo2w.accepted s.fifo.usedCnt (newFlowId i) (s.schedWr i) =
      (newFlowId i).toList ++ ((s.pipe.wDone (s.pipeInBase i)).map WPass.flowid).toList := by
  rw [h.schedWr_eq hnew, h.fifo.used]
  exact Fifo2w.accepted_all (h.room hnew)

theorem inv_step (h : Inv s q) (hnew : ((newFlowId i).toList ++ s.announced).Nodup) :
    ∃ q', Inv (s.step i) q' := by
  have hacc := h.accepted_eq hnew
  have hpipe := s.pipe.inFlight_step (s.pipeIn i)
  have hsched : (s.pipeIn i).sched = (q ++ Fifo2w.accepted s.fifo.usedCnt (newFlowId i)
      (s.schedWr i)).head? := Fifo2w.rData_eq h.fifo _ _
  have hr : s.pipe.schedRdReq (s.pipeIn i) = true →
      (s.fifo.rData (newFlowId i) (s.schedWr i)).isSome = true := by
    intro hr
    exact (Bool.and_eq_true_iff.mp hr).2
  have hrep := Fifo2w.represents_step h.fifo hr
  generalize hrv : s.pipe.schedRdReq (s.pipeIn i) = r at hpipe hr hrep
  generalize hall : q ++ Fifo2w.accepted s.fifo.usedCnt (newFlowId i) (s.schedWr i) = all
    at hsched hrep
  -- the queue before the read is what is read followed by what stays
  have hsplit : (if r then (s.pipeIn i).sched.toList else []) ++ all.drop r.toNat = all := by
    cases r with
    | false => rfl
    | true =>
      rw [hsched]
      cases all <;> rfl
  refine ⟨all.drop r.toNat, ?_, hnew, ?_, ?_⟩
  · rw [step, hrv]
    exact hrep
  · rw [List.perm_iff_count]
    intro f
    have hcount := h.perm.count_eq f
    have h1 := congrArg (List.count f) hsplit
    have h2 := congrArg (List.count f) hpipe
    have h3 := congrArg (List.count f) hall
    rw [hacc] at h3
    change List.count f (_ ++ (s.pipe.step (s.pipeIn i)).inFlight) =
      List.count f ((newFlowId i).toList ++ s.announced)
    have hbase : s.pipe.wDone (s.pipeIn i) = s.pipe.wDone (s.pipeInBase i) := rfl
    rw [hbase] at h2
    simp only [List.count_append] at hcount h1 h2 h3 ⊢
    omega
  · intro hne
    apply s.pipe.rt_isSome_step (s.pipeIn i) rfl
    rw [hsched]
    cases all with
    | nil => simp at hne
    | cons a l => rfl

theorem inv_init (h : s.Init) : Inv s [] := by
  obtain ⟨hf, hp, -, -, -, -, ha⟩ := h
  constructor
  · rw [hf]
    exact Fifo2w.represents_reset 15
  · rw [ha]
    exact List.nodup_nil
  · rw [hp, ha]
    rfl
  · intro hc
    exact absurd rfl hc

theorem nodup_of_cycle {s' : SendPipe} (hs : s.announced.Nodup) (h : cycle s i = some s') :
    s' = s.step i ∧ ((newFlowId i).toList ++ s.announced).Nodup := by
  simp only [cycle, Option.ite_none_right_eq_some, Option.some.injEq] at h
  obtain ⟨hfresh, rfl⟩ := h
  refine ⟨rfl, ?_⟩
  cases hn : newFlowId i with
  | none => simpa using hs
  | some f => simpa using ⟨hfresh f (by simp [hn]), hs⟩

theorem inv_of_reach {ok : SendPipe → SendIn → Prop} (h : Reach Init cycle ok s) :
    ∃ q, Inv s q := by
  refine h.invariant (I := fun s => ∃ q, Inv s q) (fun s h0 => ⟨[], inv_init h0⟩) ?_
  rintro s i s' ⟨q, hq⟩ - hs
  obtain ⟨rfl, hnew⟩ := nodup_of_cycle hq.nodup hs
  exact inv_step hq hnew

theorem Inv.inFlight_nodup (h : Inv s q) : s.pipe.inFlight.Nodup :=
  (List.nodup_append.mp (h.perm.nodup_iff.mpr h.nodup)).2.1

/-- In every reachable cycle every announced flow is in exactly one place, and no other flow
is anywhere. -/
theorem announced_held_once (h : Reach Init cycle Free s) (f : FlowId) :
    s.inventory.count f = if f ∈ s.announced then 1 else 0 := by
  obtain ⟨q, hq⟩ := inv_of_reach h
  rw [inventory, hq.fifo.contents_eq, hq.perm.count_eq f]
  split
  · rename_i hf
    exact List.count_eq_one_of_mem hq.nodup hf
  · rename_i hf
    exact List.count_eq_zero_of_not_mem hf

/-- The registers after reset, with cleared memories. -/
def reset : SendPipe where
  fifo := Fifo2w.reset 15
  pipe := ProtocolLogicPipe.reset
  flags := FlagStore.reset
  emitMem _ := default
  ackMem _ := default
  emitRd := none
  ackRd := none
  tailMem _ := 0
  tailRd := none
  announced := []

theorem reset_init : reset.Init := ⟨rfl, rfl, rfl, rfl, rfl, rfl, rfl⟩

/-- A cycle without traffic from the receive pipe or the application. -/
def quiet (newFlow : Option FlowId) (assemblerRdy : Bool) : SendIn where
  newFlow := newFlow.map fun f => { flowid := f, txState := default, tailPtr := 0 }
  assemblerRdy := assemblerRdy
  txWrRdy := true
  rtSet := none
  ackWr := none
  tailWr := none

/-- Sixteen flows are announced while the assembler is mostly stalled, the last ones in
cycles in which stage W puts a flow back. -/
theorem announced_held_once_all : ∃ s : SendPipe, Reach Init cycle Free s ∧
    s.announced.length = 16 ∧ s.inventory.count 9 = 1 := by
  have hrun : ∃ s, Reach Init cycle Free s ∧
      (s.announced.length == 16 && s.announced.contains 9) = true :=
    Reach.exists_of_run ((List.finRange 16).map (fun f => quiet (some f) (decide (12 < f.val))) ++
      List.replicate 5 (quiet none true)) reset_init (by decide +kernel)
  obtain ⟨s, hr, hp⟩ := hrun
  simp only [Bool.and_eq_true, beq_iff_eq, List.contains_iff_mem] at hp
  exact ⟨s, hr, hp.1, (announced_held_once hr 9).trans (if_pos hp.2)⟩

end SendPipe

end TcpHw
