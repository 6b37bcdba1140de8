import TcpHw.Send.Numbering

/-!
# `protocol_logic_pipe` and `rt_timeout_flag_store`, cycle by cycle

Stages S, RT, N and W with their stall and bypass logic, and the store of the
retransmit and timeout flags. A register and its valid bit are one `Option`, so are a
request and a response with theirs. Everything the pipe reads from its neighbours in
one cycle is a `PipeIn`.
-/
namespace TcpHw

set_option autoImplicit false

/-! ### `rt_timeout_flag_store` -/

structure FlagStore where
  rtFlags : FlowId → Bool
  timeoutFlags : FlowId → Bool
  rd : Option FlowId

def FlagStore.reset : FlagStore where
  rtFlags _ := false
  timeoutFlags _ := false
  rd := none

/-- `rt_timeout_main_pipe_rd_req_rdy` -/
def FlagStore.rdReqRdy (s : FlagStore) (respRdy : Bool) : Bool := respRdy || s.rd.isNone

/-- `rt_timeout_main_pipe_rd_resp_val`, `rt_timeout_main_pipe_rd_resp_data` -/
def FlagStore.rdResp (s : FlagStore) : Option RtTimeoutFlags :=
  s.rd.map fun f => { timeoutPending := s.timeoutFlags f, rtPending := s.rtFlags f }

/-- One of the flag words: set, then cleared by the pipe, then cleared for a new flow. -/
def flagsNext (flags : FlowId → Bool) (set clr newFlow : Option FlowId) (f : FlowId) : Bool :=
  (flags f || set == some f) && !(clr == some f) && !(newFlow == some f)

/-- One clock edge of the store. -/
def FlagStore.step (s : FlagStore) (newFlow rdReq : Option FlowId) (respRdy : Bool)
    (clr timeoutSet rtSet : Option FlowId) : FlagStore where
  rtFlags := flagsNext s.rtFlags rtSet clr newFlow
  timeoutFlags := flagsNext s.timeoutFlags timeoutSet clr newFlow
  rd := if s.rdReqRdy respRdy then rdReq else s.rd

/-! ### The pipe -/

/-- A pass in stage W. The flags it was numbered with are not kept by the source. -/
structure WPass where
  flowid : FlowId
  flags : RtTimeoutFlags
  numbered : Numbered

structure ProtocolLogicPipe where
  rt : Option FlowId
  rtFlagsStall : Option RtTimeoutFlags
  n : Option (FlowId × RtTimeoutFlags)
  tailPtrStall : Option Ptr
  txStateStall : Option TxState
  w : Option WPass
  timestamp : BitVec 64

def ProtocolLogicPipe.reset : ProtocolLogicPipe where
  rt := none
  rtFlagsStall := none
  n := none
  tailPtrStall := none
  txStateStall := none
  w := none
  timestamp := 0

/-- The inputs of one cycle. -/
structure PipeIn where
  sched : Option FlowId
  flagReqRdy : Bool
  flagResp : Option RtTimeoutFlags
  tailReqRdy : Bool
  tailResp : Option Ptr
  txReqRdy : Bool
  txResp : Option TxState
  txWrRdy : Bool
  assemblerRdy : Bool
  schedFull : Bool

namespace ProtocolLogicPipe

variable (p : ProtocolLogicPipe) (i : PipeIn)

def stallW : Bool := !i.assemblerRdy || !i.txWrRdy

def stallN : Bool :=
  p.n.isSome && (stallW i || (i.tailResp.isNone && p.tailPtrStall.isNone) ||
    (i.txResp.isNone && p.txStateStall.isNone))

def stallRt : Bool :=
  p.rt.isSome && (p.stallN i || (i.flagResp.isNone && p.rtFlagsStall.isNone) || !i.tailReqRdy ||
    i.flagResp.isNone || !i.txReqRdy)

def stallS : Bool := i.sched.isSome && (p.stallRt i || !i.flagReqRdy)

/-- `main_pipe_sched_fifo_tx_rd_req` -/
def schedRdReq : Bool := !p.stallS i && i.sched.isSome

/-- `tx_data_byp_n` for flow `f` -/
def txDataByp (f : FlowId) : TxState :=
  match p.w with
  | some w => if w.flowid = f then w.numbered.nextTxData
      else (p.txStateStall.or i.txResp).getD default
  | none => (p.txStateStall.or i.txResp).getD default

/-- `send_q_tail_ptr_byp_n` -/
def tailPtrByp : Ptr := (p.tailPtrStall.or i.tailResp).getD default

/-- Stage N of the pass in it. -/
def number (f : FlowId) (flags : RtTimeoutFlags) : WPass where
  flowid := f
  flags := flags
  numbered := numbering flags (p.txDataByp i f) (p.tailPtrByp i) p.timestamp

/-- One clock edge. -/
def step : ProtocolLogicPipe where
  rt := if p.stallRt i then p.rt else if p.stallS i then none else i.sched
  rtFlagsStall := if p.stallRt i then p.rtFlagsStall.or i.flagResp else none
  n :=
    if p.stallN i then p.n
    else if p.stallRt i then none
    else p.rt.map fun f => (f, (p.rtFlagsStall.or i.flagResp).getD default)
  tailPtrStall := if p.stallN i then p.tailPtrStall.or i.tailResp else none
  txStateStall := if p.stallN i then p.txStateStall.or i.txResp else none
  w :=
    if stallW i then p.w
    else if p.stallN i then none
    else p.n.map fun x => p.number i x.1 x.2
  timestamp := p.timestamp + 1

/-- The pass that leaves stage W in this cycle. -/
def wDone : Option WPass := if stallW i then none else p.w

/-- `main_pipe_sched_fifo_tx_wr_req`, `main_pipe_sched_fifo_tx_wr_flowid` -/
def schedWrReq : Option FlowId :=
  if i.schedFull then none else (p.wDone i).map WPass.flowid

/-- `tx_state_wr_req_val`, `tx_state_wr_req_flowid`, `tx_state_wr_req_data` -/
def txStateWrReq : Option (FlowId × TxState) :=
  (p.wDone i).map fun w => (w.flowid, w.numbered.nextTxData)

/-- `main_pipe_rt_timeout_clr_bit_val`, `main_pipe_rt_timeout_clr_bit_flowid`: not gated by
the stall. -/
def clrBit : Option FlowId :=
  p.w.bind fun w => if w.numbered.generatePkt then some w.flowid else none

/-- The descriptor handed to `hdr_assembler_pipe`. -/
def assemblerTx : Option WPass := (p.wDone i).filter fun w => w.numbered.generatePkt

/-! ### Where the flows are -/

/-- Flow identifiers in the stages, W first. -/
def inFlight : List FlowId :=
  (p.w.map WPass.flowid).toList ++ (p.n.map Prod.fst).toList ++ p.rt.toList

/-- What stage W lets out and holds next is what it held and what stage N lets out. -/
theorem stageW_step :
    ((p.wDone i).map WPass.flowid).toList ++ ((p.step i).w.map WPass.flowid).toList =
      (p.w.map WPass.flowid).toList ++
        if p.stallN i then [] else (p.n.map Prod.fst).toList := by
  unfold wDone step
  cases hw : stallW i with
  | false => cases p.stallN i <;> cases p.n <;> simp [number]
  | true =>
    cases hn : p.n with
    | none => simp
    | some x =>
      have hs : p.stallN i = true := by simp [stallN, hn, hw]
      simp [hs]

theorem stageN_step :
    (if p.stallN i then [] else (p.n.map Prod.fst).toList) ++ ((p.step i).n.map Prod.fst).toList =
      (p.n.map Prod.fst).toList ++ if p.stallRt i then [] else p.rt.toList := by
  unfold step
  cases hn : p.stallN i with
  | false => cases p.stallRt i <;> cases p.rt <;> simp
  | true =>
    cases hr : p.rt with
    | none => simp
    | some f =>
      have hs : p.stallRt i = true := by simp [stallRt, hr, hn]
      simp [hs]

theorem stageRt_step :
    (if p.stallRt i then [] else p.rt.toList) ++ (p.step i).rt.toList =
      p.rt.toList ++ if p.schedRdReq i then i.sched.toList else [] := by
  unfold step schedRdReq
  cases hr : p.stallRt i with
  | false => cases p.stallS i <;> cases i.sched <;> simp
  | true =>
    cases hs : i.sched with
    | none => simp
    | some f =>
      have hst : p.stallS i = true := by simp [stallS, hs, hr]
      simp [hst]

/-- The stages hand over in order what they hold: a cycle takes in what the scheduler
gives and lets out what leaves stage W. -/
theorem inFlight_step :
    ((p.wDone i).map WPass.flowid).toList ++ (p.step i).inFlight =
      p.inFlight ++ if p.schedRdReq i then i.sched.toList else [] := by
  unfold inFlight
  rw [List.append_assoc, ← List.append_assoc, stageW_step, List.append_assoc,
    ← List.append_assoc (if p.stallN i then [] else _), stageN_step, List.append_assoc,
    stageRt_step]
  simp only [List.append_assoc]

variable {p i}

/-- A flow of stage N stalls there, or comes from stage RT with the flags that were read for it. -/
theorem n_of_step {f : FlowId} {x : RtTimeoutFlags} (h : (p.step i).n = some (f, x)) :
    p.n = some (f, x) ∨ p.rt = some f ∧ x = (p.rtFlagsStall.or i.flagResp).getD default := by
  simp only [step] at h
  split at h
  · exact .inl h
  · split at h
    · cases h
    · obtain ⟨g, hg, hgx⟩ := Option.map_eq_some_iff.mp h
      cases hgx
      exact .inr ⟨hg, rfl⟩

/-- A pass of stage W stalls there, or comes from stage N. -/
theorem w_of_step {w : WPass} (h : (p.step i).w = some w) :
    p.w = some w ∧ stallW i = true ∨ ∃ f x, p.n = some (f, x) ∧ w = p.number i f x := by
  simp only [step] at h
  split at h
  · rename_i hs
    exact .inl ⟨h, hs⟩
  · split at h
    · cases h
    · obtain ⟨⟨f, x⟩, hn, rfl⟩ := Option.map_eq_some_iff.mp h
      exact .inr ⟨f, x, hn, rfl⟩

variable (p i)

theorem w_ne_n {f : FlowId} {x : RtTimeoutFlags} (h : p.inFlight.Nodup) (hn : p.n = some (f, x))
    (w : WPass) (hw : p.w = some w) : w.flowid ≠ f := by
  intro he
  simp [inFlight, hn, hw, he] at h

theorem w_ne_rt {f : FlowId} (h : p.inFlight.Nodup) (hr : p.rt = some f) (w : WPass)
    (hw : p.w = some w) : w.flowid ≠ f := by
  intro he
  simp [inFlight, hr, hw, he] at h

/-- A scheduled flow that is not taken finds stage RT occupied. -/
theorem rt_isSome_step (hrdy : i.flagReqRdy = true) (hs : i.sched.isSome = true) :
    (p.step i).rt.isSome = true := by
  unfold step
  cases hr : p.stallRt i with
  | false => simpa [stallS, hr, hrdy] using hs
  | true => simpa [hr] using (Bool.and_eq_true_iff.mp hr).1

end ProtocolLogicPipe

end TcpHw
