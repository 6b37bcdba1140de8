import TcpHw.Lib.Trace
import TcpHw.Recv.RxFsmPipe

/-!
# The handshake FSM with its memories

`rx_fsm_pipe` in a loop with the TCP state memory of `rx_issue_pipe` and the receive
and transmit state memories. The allocation of a flow, the packets of the FSM queue,
the data path's own state writes and all readiness come from outside. What happens
to each flow is recorded in a log that no hardware reads.
-/
namespace TcpHw

open Trace

set_option autoImplicit false

/-- What one cycle of `INIT_STATE` writes. -/
structure FlowInit where
  rxState : RecvState
  txState : TxState
  lookup : FourTuple
  deriving DecidableEq

/-- The record of one flow: allocated, first packet taken, the TCP states stored since the
allocation, initialisations, answered packets of the current connection attempt with their
answers, and notifications to the application. -/
structure FlowLog where
  known : Bool
  seen : Bool
  history : List TcpFlowState
  inits : List FlowInit
  answers : List (TcpPktHdr × TcpPktHdr)
  notifs : Nat

structure FsmSystem where
  fsm : RxFsmPipe
  initSeqNum : BitVec 32
  tcpMem : FlowId → TcpFlowState
  tcpRd : Option FlowId
  rxMem : FlowId → RecvState
  txMem : FlowId → TxState
  log : FlowId → FlowLog

structure FsmSystemIn where
  hdr : Option FsmPkt
  alloc : Option FlowId
  stateRdRdy : Bool
  stateRespVal : Bool
  reinjectFull : Bool
  sendRdy : Bool
  notifRdy : Bool
  rxWr : Option (FlowId × RecvState)
  txWr : Option (FlowId × TxState)

namespace FsmSystem

/-- The FSM's inputs. The write ports of the memories are always ready. -/
def fsmIn (s : FsmSystem) (i : FsmSystemIn) : FsmIn where
  hdr := i.hdr
  tcpResp := s.tcpRd.map s.tcpMem
  stateRdRdy := i.stateRdRdy
  stateResp :=
    if i.stateRespVal then some (s.rxMem s.fsm.pkt.flowid, s.txMem s.fsm.pkt.flowid) else none
  reinjectFull := i.reinjectFull
  newFlowRdy := true
  wrRdy := true
  sendRdy := i.sendRdy
  notifRdy := i.notifRdy
  initSeqNum := s.initSeqNum

def newFlowInit (s : FsmSystem) : FlowInit where
  rxState := s.fsm.rxStateInit
  txState := s.fsm.txStateInit
  lookup := s.fsm.flowLookupInit

/-- The write port of the TCP state memory: the FSM before an allocation. -/
def tcpWr (s : FsmSystem) (i : FsmSystemIn) : Option (FlowId × TcpFlowState) :=
  s.fsm.stateWr.or (i.alloc.map fun f => (f, .none))

def rxWr (s : FsmSystem) (i : FsmSystemIn) : Option (FlowId × RecvState) :=
  if s.fsm.newFlowVal then some (s.fsm.pkt.flowid, s.fsm.rxStateInit) else i.rxWr

def txWr (s : FsmSystem) (i : FsmSystemIn) : Option (FlowId × TxState) :=
  if s.fsm.newFlowVal then some (s.fsm.pkt.flowid, s.fsm.txStateInit) else i.txWr

/-- The state written back, recorded when it differs from the stored one. An attempt that
leaves `TCP_NONE` starts a new list of answers. -/
def FlowLog.write (l : FlowLog) (old new : TcpFlowState) : FlowLog :=
  { l with
    history := if new = old then l.history else l.history ++ [new]
    answers := if old = .none then [] else l.answers }

/-- What the FSM does to the log of the flow it works on. -/
def logFsm (s : FsmSystem) (i : FsmSystemIn) (l : FlowLog) : FlowLog :=
  match s.fsm.ctrl with
  | .initState => { l with inits := l.inits ++ [s.newFlowInit] }
  | .wrFlowState => FlowLog.write l (s.tcpMem s.fsm.pkt.flowid) s.fsm.nextFlowState
  | .sendPkt =>
    if i.sendRdy then { l with answers := l.answers ++ [(s.fsm.pkt.tcpHdr, s.fsm.sendTcpHdr)] }
    else l
  | .notifApp => if i.notifRdy then { l with notifs := l.notifs + 1 } else l
  | _ => l

def logNext (s : FsmSystem) (i : FsmSystemIn) (f : FlowId) : FlowLog :=
  if i.alloc = some f then { s.log f with known := true, history := [.none] }
  else if s.fsm.ctrl = .ready then
    if i.hdr.map FsmPkt.flowid = some f then { s.log f with seen := true } else s.log f
  else if s.fsm.pkt.flowid = f then s.logFsm i (s.log f)
  else s.log f

/-- One clock edge. -/
def step (s : FsmSystem) (i : FsmSystemIn) : FsmSystem where
  fsm := s.fsm.step (s.fsmIn i)
  initSeqNum := if s.fsm.seqNumYumi (s.fsmIn i) then lfsrNext s.initSeqNum else s.initSeqNum
  tcpMem := Ram.store s.tcpMem (s.tcpWr i)
  tcpRd := Ram.next s.tcpRd s.fsm.tcpRdReq true
  rxMem := Ram.store s.rxMem (s.rxWr i)
  txMem := Ram.store s.txMem (s.txWr i)
  log := s.logNext i

/-- A flow is allocated once and not in a cycle in which the FSM writes; `new_flow` is set
on exactly the first packet of a flow. -/
def IssueOk (s : FsmSystem) (i : FsmSystemIn) : Prop :=
  (∀ f ∈ i.alloc, (s.log f).known = false ∧ s.fsm.ctrl ≠ .wrFlowState) ∧
    (s.fsm.ctrl = .ready → ∀ p ∈ i.hdr, (s.log p.flowid).known = true ∧
      (s.log p.flowid).seen = !p.newFlow)

/-- `est_pipe` writes the state only of flows that have been established. The send pipe
passes over a flow from its initialisation on, and before there are bytes to send it writes
the numbers back as they are. -/
def DataOk (s : FsmSystem) (i : FsmSystemIn) : Prop :=
  (∀ w ∈ i.rxWr, .est ∈ (s.log w.1).history) ∧
    ∀ w ∈ i.txWr, .est ∉ (s.log w.1).history →
      w.2.txCurrSeqNum = (s.txMem w.1).txCurrSeqNum ∧
        w.2.txCurrAckState = (s.txMem w.1).txCurrAckState

instance (s : FsmSystem) (i : FsmSystemIn) : Decidable (IssueOk s i) :=
  inferInstanceAs (Decidable (_ ∧ _))

instance (s : FsmSystem) (i : FsmSystemIn) : Decidable (DataOk s i) :=
  inferInstanceAs (Decidable (_ ∧ _))

def cycle (s : FsmSystem) (i : FsmSystemIn) : Option FsmSystem :=
  if IssueOk s i ∧ DataOk s i then some (s.step i) else none

def emptyLog : FlowLog where
  known := false
  seen := false
  history := []
  inits := []
  answers := []
  notifs := 0

/-- After reset; the memories hold anything. -/
def Init (s : FsmSystem) : Prop :=
  s.fsm = RxFsmPipe.reset ∧ s.initSeqNum = 1 ∧ s.tcpRd = none ∧ ∀ f, s.log f = emptyLog

/-! ### The registers and the packet in hand -/

/-- The output registers hold the decision for the packet in hand, made with the state
read for it. -/
def Decided (m : RxFsmPipe) : Prop :=
  ∃ isn, tcpStateMachine m.tcpState m.pkt.tcpHdr m.rxState m.txState isn =
    { nextFlowState := m.nextFlowState
      sendPktVal := m.sendPktVal
      seqNumReq :=
        (tcpStateMachine m.tcpState m.pkt.tcpHdr m.rxState m.txState isn).seqNumReq
      sendTcpHdr := m.sendTcpHdr
      appNewFlowNotif := m.appNewFlowNotif }

/-- The decisions of `tcp_state_machine`, as the output registers hold them. -/
inductive Outcome (m : RxFsmPipe) : Prop
  | opens (n : BitVec 32) (curr : m.tcpState = .none) (syn : m.pkt.tcpHdr.flags = tcpSyn)
      (next : m.nextFlowState = .synRecv) (send : m.sendPktVal = true)
      (notif : m.appNewFlowNotif = false)
      (hdr : m.sendTcpHdr = synAckHdr m.pkt.tcpHdr n (m.pkt.tcpHdr.seqNum + 1))
  | ignores (curr : m.tcpState = .none) (next : m.nextFlowState = .none)
      (send : m.sendPktVal = false) (notif : m.appNewFlowNotif = false)
  | completes (curr : m.tcpState = .synRecv) (next : m.nextFlowState = .est)
      (send : m.sendPktVal = false) (notif : m.appNewFlowNotif = true)
  | answers (curr : m.tcpState = .synRecv) (next : m.nextFlowState = .synRecv)
      (send : m.sendPktVal = true) (notif : m.appNewFlowNotif = false)
      (hdr : m.sendTcpHdr =
        synAckHdr m.pkt.tcpHdr m.txState.txCurrSeqNum m.rxState.rxCurrAckNum)
  | beyond (none : m.tcpState ≠ .none) (synRecv : m.tcpState ≠ .synRecv)
      (est : m.tcpState = .est → m.nextFlowState = .none) (send : m.sendPktVal = false)

theorem Decided.outcome {m : RxFsmPipe} (h : Decided m) : Outcome m := by
  obtain ⟨isn, hd⟩ := h
  have hnext := congrArg StateDec.nextFlowState hd
  have hsend := congrArg StateDec.sendPktVal hd
  have hhdr := congrArg StateDec.sendTcpHdr hd
  have hnotif := congrArg StateDec.appNewFlowNotif hd
  cases hst : m.tcpState with
  | none =>
    simp only [hst, tcpStateMachine] at hnext hsend hhdr hnotif
    by_cases hsyn : m.pkt.tcpHdr.flags = tcpSyn
    · simp only [hsyn, beq_self_eq_true, if_true] at hnext hsend hhdr hnotif
      exact .opens _ hst hsyn hnext.symm hsend.symm hnotif.symm hhdr.symm
    · simp only [beq_iff_eq, hsyn, if_false, StateDec.silent] at hnext hsend hnotif
      exact .ignores hst hnext.symm hsend.symm hnotif.symm
  | synRecv =>
    simp only [hst, tcpStateMachine] at hnext hsend hhdr hnotif
    cases hack : isHandshakeAck m.pkt.tcpHdr m.rxState m.txState
    · simp only [hack, Bool.false_eq_true, if_false] at hnext hsend hhdr hnotif
      exact .answers hst hnext.symm hsend.symm hnotif.symm hhdr.symm
    · simp only [hack, if_true, StateDec.silent] at hnext hsend hnotif
      exact .completes hst hnext.symm hsend.symm hnotif.symm
  | est =>
    simp only [hst, tcpStateMachine, StateDec.silent] at hnext hsend
    exact .beyond (by simp [hst]) (by simp [hst]) (fun _ => hnext.symm) hsend.symm
  | halfClose | und =>
    simp only [hst, tcpStateMachine, StateDec.silent] at hsend
    exact .beyond (by simp [hst]) (by simp [hst]) (by simp [hst]) hsend.symm

/-- What each control state knows about the flow of the packet in hand. -/
def CtrlOk (s : FsmSystem) : Prop :=
  match s.fsm.ctrl with
  | .ready | .reinjectPkt => True
  | .tcpStateRdReq => s.fsm.pkt.newFlow = true → s.tcpMem s.fsm.pkt.flowid = .none
  | .tcpStateRdResp => s.tcpRd = some s.fsm.pkt.flowid
  | .rxTxStateRdReq | .rxTxStateRdResp | .stateDec => s.fsm.tcpState = s.tcpMem s.fsm.pkt.flowid
  | .initState | .wrFlowState =>
    s.fsm.tcpState = s.tcpMem s.fsm.pkt.flowid ∧ Decided s.fsm
  | .sendPkt | .notifApp => s.tcpMem s.fsm.pkt.flowid = s.fsm.nextFlowState ∧ Decided s.fsm

structure Inv (s : FsmSystem) : Prop where
  ctrl : CtrlOk s
  current : s.fsm.ctrl ≠ .ready →
    (s.log s.fsm.pkt.flowid).known = true ∧ (s.log s.fsm.pkt.flowid).seen = true
  fresh : ∀ f, (s.log f).known = true → (s.log f).seen = false → s.tcpMem f = .none

variable {s : FsmSystem} {i : FsmSystemIn}

/-- Only the FSM changes the stored state of a known flow, and only in `WR_FLOW_STATE`. -/
theorem tcpMem_step (hg : IssueOk s i) {f : FlowId} (hk : (s.log f).known = true) :
    (s.step i).tcpMem f =
      if s.fsm.ctrl = .wrFlowState ∧ s.fsm.pkt.flowid = f then s.fsm.nextFlowState
      else s.tcpMem f := by
  change Ram.store s.tcpMem (s.tcpWr i) f = _
  unfold tcpWr RxFsmPipe.stateWr
  by_cases hw : s.fsm.ctrl = .wrFlowState
  · rw [if_pos hw, Option.some_or]
    by_cases hf : s.fsm.pkt.flowid = f
    · simp [Ram.store, hw, hf]
    · simp [Ram.store, hw, hf, Ne.symm hf]
  · rw [if_neg hw, Option.none_or, if_neg (fun h => hw h.1)]
    cases ha : i.alloc with
    | none => rfl
    | some g =>
      have hne : f ≠ g := by
        rintro rfl
        have hn := (hg.1 f ha).1
        rw [hk] at hn
        cases hn
      simp [Ram.store, hne]

/-- An allocation starts the log of a flow at `TCP_NONE`. -/
theorem tcpMem_alloc (hg : IssueOk s i) {f : FlowId} (ha : i.alloc = some f) :
    (s.step i).tcpMem f = .none := by
  have hw := (hg.1 f ha).2
  change Ram.store s.tcpMem (s.tcpWr i) f = _
  simp [tcpWr, RxFsmPipe.stateWr, hw, ha, Ram.store]

theorem log_alloc {f : FlowId} (ha : i.alloc = some f) :
    (s.step i).log f = { s.log f with known := true, history := [.none] } := by
  change s.logNext i f = _
  simp [logNext, ha]

theorem alloc_ne (hg : IssueOk s i) {f : FlowId} (hk : (s.log f).known = true) :
    i.alloc ≠ some f := by
  intro ha
  have hn := (hg.1 f ha).1
  rw [hk] at hn
  cases hn

/-- The log of a flow that is not being allocated, outside and inside the FSM. -/
theorem log_step {f : FlowId} (ha : i.alloc ≠ some f) :
    (s.step i).log f =
      if s.fsm.ctrl = .ready then
        if i.hdr.map FsmPkt.flowid = some f then { s.log f with seen := true } else s.log f
      else if s.fsm.pkt.flowid = f then s.logFsm i (s.log f) else s.log f := by
  change s.logNext i f = _
  rw [logNext, if_neg ha]

theorem logFsm_known (l : FlowLog) : (s.logFsm i l).known = l.known := by
  unfold logFsm FlowLog.write
  split <;> first | rfl | (split <;> rfl)

theorem logFsm_seen (l : FlowLog) : (s.logFsm i l).seen = l.seen := by
  unfold logFsm FlowLog.write
  split <;> first | rfl | (split <;> rfl)

theorem known_step {f : FlowId} (ha : i.alloc ≠ some f) :
    ((s.step i).log f).known = (s.log f).known := by
  rw [log_step ha]
  split
  · split <;> rfl
  · split
    · exact logFsm_known _
    · rfl

theorem seen_step {f : FlowId} (hs : (s.log f).seen = true) :
    ((s.step i).log f).seen = true := by
  by_cases ha : i.alloc = some f
  · rw [log_alloc ha]
    exact hs
  · rw [log_step ha]
    split
    · split
      · rfl
      · exact hs
    · split
      · rw [logFsm_seen]
        exact hs
      · exact hs

/-- The packet in hand changes only when the FSM is ready. -/
theorem pkt_step (hr : s.fsm.ctrl ≠ .ready) : (s.step i).fsm.pkt = s.fsm.pkt :=
  RxFsmPipe.pkt_step hr

theorem ctrl_mem_arcs : (s.step i).fsm.ctrl ∈ RxFsmPipe.arcs s.fsm.ctrl :=
  RxFsmPipe.ctrl_mem_arcs

/-- The write port of the TCP state memory is always ready. -/
theorem ctrl_of_wrFlowState (hc : s.fsm.ctrl = .wrFlowState) :
    (s.step i).fsm = { s.fsm with
      ctrl :=
        if s.fsm.sendPktVal then .sendPkt
        else if s.fsm.appNewFlowNotif then .notifApp else .ready } := by
  simp [step, RxFsmPipe.step, hc, fsmIn]

theorem ctrl_of_sendPkt (hc : s.fsm.ctrl = .sendPkt) (hy : i.sendRdy = true) :
    (s.step i).fsm =
      { s.fsm with ctrl := if s.fsm.appNewFlowNotif then .notifApp else .ready } := by
  simp [step, RxFsmPipe.step, hc, fsmIn, hy]

/-- A packet is about to be initialised or stored once it has been decided on. -/
theorem decided_origin
    (hc : (s.step i).fsm.ctrl = .initState ∨ (s.step i).fsm.ctrl = .wrFlowState) :
    (s.fsm.ctrl = .stateDec ∨ s.fsm.ctrl = .initState) ∧
      (s.step i).fsm.tcpState = s.fsm.tcpState := by
  have harc := ctrl_mem_arcs (s := s) (i := i)
  have horigin : s.fsm.ctrl = .stateDec ∨ s.fsm.ctrl = .initState := by
    cases hf : s.fsm.ctrl with
    | stateDec => exact .inl rfl
    | initState => exact .inr rfl
    | wrFlowState =>
      rw [ctrl_of_wrFlowState hf] at hc
      dsimp only at hc
      split_ifs at hc <;> simp at hc
    | ready | tcpStateRdReq | tcpStateRdResp | reinjectPkt | rxTxStateRdReq | rxTxStateRdResp
    | sendPkt | notifApp => rcases hc with hc | hc <;> simp [hf, hc, RxFsmPipe.arcs] at harc
  refine ⟨horigin, RxFsmPipe.tcpState_step ?_ ?_⟩ <;> rcases horigin with h | h <;> simp [h]

/-- The stored state of the flow in hand is untouched outside `WR_FLOW_STATE`. -/
theorem mem_current (h : Inv s) (hg : IssueOk s i) (hr : s.fsm.ctrl ≠ .ready)
    (hw : s.fsm.ctrl ≠ .wrFlowState) :
    (s.step i).tcpMem s.fsm.pkt.flowid = s.tcpMem s.fsm.pkt.flowid := by
  rw [tcpMem_step hg (h.current hr).1, if_neg (fun hc => hw hc.1)]

theorem ctrlOk_ready (h : Inv s) (hg : IssueOk s i) (hc : s.fsm.ctrl = .ready) :
    CtrlOk (s.step i) := by
  cases hp : i.hdr with
  | none =>
    have hf : (s.step i).fsm = s.fsm := by
      simp [step, RxFsmPipe.step, hc, fsmIn, hp]
    simp [CtrlOk, hf, hc]
  | some p =>
    have hf : (s.step i).fsm = { s.fsm with ctrl := .tcpStateRdReq, pkt := p } := by
      simp [step, RxFsmPipe.step, hc, fsmIn, hp]
    simp only [CtrlOk, hf]
    intro hn
    obtain ⟨hk, hs⟩ := hg.2 hc p hp
    rw [hn, Bool.not_true] at hs
    rw [tcpMem_step hg hk, if_neg (by simp [hc])]
    exact h.fresh _ hk hs

theorem ctrlOk_rdReq (h : Inv s) (hg : IssueOk s i) (hc : s.fsm.ctrl = .tcpStateRdReq) :
    CtrlOk (s.step i) := by
  have hctrl := h.ctrl
  have hm := mem_current h hg (by simp [hc]) (by simp [hc])
  simp only [CtrlOk, hc] at hctrl
  by_cases hn : s.fsm.pkt.newFlow = true
  · have hf : (s.step i).fsm = { s.fsm with tcpState := .none, ctrl := .stateDec } := by
      simp [step, RxFsmPipe.step, hc, hn]
    simp only [CtrlOk, hf]
    rw [hm]
    exact (hctrl hn).symm
  · have hf : (s.step i).fsm = { s.fsm with ctrl := .tcpStateRdResp } := by
      simp [step, RxFsmPipe.step, hc, hn]
    simp only [CtrlOk, hf]
    simp [step, Ram.next, RxFsmPipe.tcpRdReq, hc, hn]

theorem ctrlOk_rdResp (h : Inv s) (hg : IssueOk s i) (hc : s.fsm.ctrl = .tcpStateRdResp) :
    CtrlOk (s.step i) := by
  have hctrl := h.ctrl
  have hm := mem_current h hg (by simp [hc]) (by simp [hc])
  simp only [CtrlOk, hc] at hctrl
  have hresp : (s.fsmIn i).tcpResp = some (s.tcpMem s.fsm.pkt.flowid) := by
    simp [fsmIn, hctrl]
  have hst : (s.step i).fsm.tcpState = (s.step i).tcpMem (s.step i).fsm.pkt.flowid := by
    rw [pkt_step (by simp [hc]), hm]
    simp [step, RxFsmPipe.step, hc, hresp]
  have hleft : (s.step i).fsm.ctrl ≠ .tcpStateRdResp := by
    simp only [step, RxFsmPipe.step, hc, hresp, RxFsmPipe.rdReqNext]
    split_ifs <;> simp
  have harc := ctrl_mem_arcs (s := s) (i := i)
  simp only [hc, RxFsmPipe.arcs, List.mem_cons, List.not_mem_nil, or_false, hleft, false_or] at harc
  rcases harc with hn | hn | hn | hn <;> simp only [CtrlOk, hn]
  · exact hst
  · exact hst

theorem ctrlOk_stateRd (h : Inv s) (hg : IssueOk s i)
    (hc : s.fsm.ctrl = .rxTxStateRdReq ∨ s.fsm.ctrl = .rxTxStateRdResp) :
    CtrlOk (s.step i) := by
  have hctrl := h.ctrl
  have hr : s.fsm.ctrl ≠ .ready := by rcases hc with hc | hc <;> simp [hc]
  have hw : s.fsm.ctrl ≠ .wrFlowState := by rcases hc with hc | hc <;> simp [hc]
  have hm := mem_current h hg hr hw
  have hread : s.fsm.tcpState = s.tcpMem s.fsm.pkt.flowid := by
    rcases hc with hc | hc <;> simpa only [CtrlOk, hc] using hctrl
  have hst : (s.step i).fsm.tcpState = (s.step i).tcpMem (s.step i).fsm.pkt.flowid := by
    rw [pkt_step hr, hm, ← hread]
    refine RxFsmPipe.tcpState_step ?_ ?_ <;> rcases hc with hc | hc <;> simp [hc]
  have harc := ctrl_mem_arcs (s := s) (i := i)
  rcases hc with hc | hc <;>
    simp only [hc, RxFsmPipe.arcs, List.mem_cons, List.not_mem_nil, or_false] at harc <;>
    rcases harc with hn | hn <;> simp only [CtrlOk, hn] <;> exact hst

theorem ctrlOk_stateDec (h : Inv s) (hg : IssueOk s i) (hc : s.fsm.ctrl = .stateDec) :
    CtrlOk (s.step i) := by
  have hctrl := h.ctrl
  have hm := mem_current h hg (by simp [hc]) (by simp [hc])
  simp only [CtrlOk, hc] at hctrl
  have hpkt : (s.step i).fsm.pkt = s.fsm.pkt := pkt_step (by simp [hc])
  have hst : (s.step i).fsm.tcpState = (s.step i).tcpMem (s.step i).fsm.pkt.flowid := by
    rw [hpkt, hm, ← hctrl]
    exact RxFsmPipe.tcpState_step (by simp [hc]) (by simp [hc])
  have hdec : Decided (s.step i).fsm := by
    refine ⟨s.initSeqNum, ?_⟩
    simp [step, RxFsmPipe.step, hc, RxFsmPipe.decision, fsmIn]
  have harc := ctrl_mem_arcs (s := s) (i := i)
  simp only [hc, RxFsmPipe.arcs, List.mem_cons, List.not_mem_nil, or_false] at harc
  rcases harc with hn | hn <;> simp only [CtrlOk, hn] <;> exact ⟨hst, hdec⟩

theorem ctrlOk_initState (h : Inv s) (hg : IssueOk s i) (hc : s.fsm.ctrl = .initState) :
    CtrlOk (s.step i) := by
  have hctrl := h.ctrl
  have hm := mem_current h hg (by simp [hc]) (by simp [hc])
  simp only [CtrlOk, hc] at hctrl
  have hf : (s.step i).fsm = { s.fsm with ctrl := .wrFlowState } := by
    simp [step, RxFsmPipe.step, hc, fsmIn]
  simp only [CtrlOk, hf]
  rw [hm]
  exact hctrl

theorem ctrlOk_wrFlowState (h : Inv s) (hg : IssueOk s i) (hc : s.fsm.ctrl = .wrFlowState) :
    CtrlOk (s.step i) := by
  have hctrl := h.ctrl
  simp only [CtrlOk, hc] at hctrl
  have hm : (s.step i).tcpMem s.fsm.pkt.flowid = s.fsm.nextFlowState := by
    rw [tcpMem_step hg (h.current (by simp [hc])).1, if_pos ⟨hc, rfl⟩]
  have hf := ctrl_of_wrFlowState (i := i) hc
  have hnext : (s.step i).fsm.ctrl = .sendPkt ∨ (s.step i).fsm.ctrl = .notifApp ∨
      (s.step i).fsm.ctrl = .ready := by
    rw [hf]
    dsimp only
    split_ifs <;> simp
  have hout : (s.step i).tcpMem (s.step i).fsm.pkt.flowid = (s.step i).fsm.nextFlowState ∧
      Decided (s.step i).fsm := by
    rw [hf]
    exact ⟨hm, hctrl.2⟩
  rcases hnext with hn | hn | hn <;> simp only [CtrlOk, hn]
  · exact hout
  · exact hout

theorem ctrlOk_out (h : Inv s) (hg : IssueOk s i)
    (hc : s.fsm.ctrl = .sendPkt ∨ s.fsm.ctrl = .notifApp) : CtrlOk (s.step i) := by
  have hctrl := h.ctrl
  have hr : s.fsm.ctrl ≠ .ready := by rcases hc with hc | hc <;> simp [hc]
  have hw : s.fsm.ctrl ≠ .wrFlowState := by rcases hc with hc | hc <;> simp [hc]
  have hm := mem_current h hg hr hw
  have hout : s.tcpMem s.fsm.pkt.flowid = s.fsm.nextFlowState ∧ Decided s.fsm := by
    rcases hc with hc | hc <;> simpa only [CtrlOk, hc] using hctrl
  have hf : ∃ c, (s.step i).fsm = { s.fsm with ctrl := c } ∧
      (c = .sendPkt ∨ c = .notifApp ∨ c = .ready) := by
    have hself : s.fsm = { s.fsm with ctrl := s.fsm.ctrl } := rfl
    rcases hc with hc | hc <;> simp only [step, RxFsmPipe.step, hc] <;> split
    · refine ⟨_, rfl, ?_⟩
      cases s.fsm.appNewFlowNotif <;> simp
    · exact ⟨_, hself, by simp [hc]⟩
    · exact ⟨_, rfl, by simp⟩
    · exact ⟨_, hself, by simp [hc]⟩
  obtain ⟨c, hf, hcc⟩ := hf
  rcases hcc with rfl | rfl | rfl <;> simp only [CtrlOk, hf]
  · exact ⟨hm.trans hout.1, hout.2⟩
  · exact ⟨hm.trans hout.1, hout.2⟩

theorem ctrlOk_step (h : Inv s) (hg : IssueOk s i) : CtrlOk (s.step i) := by
  cases hc : s.fsm.ctrl with
  | ready => exact ctrlOk_ready h hg hc
  | tcpStateRdReq => exact ctrlOk_rdReq h hg hc
  | tcpStateRdResp => exact ctrlOk_rdResp h hg hc
  | reinjectPkt =>
    have harc := ctrl_mem_arcs (s := s) (i := i)
    simp only [hc, RxFsmPipe.arcs, List.mem_cons, List.not_mem_nil, or_false] at harc
    rcases harc with hf | hf <;> simp [CtrlOk, hf]
  | rxTxStateRdReq => exact ctrlOk_stateRd h hg (.inl hc)
  | rxTxStateRdResp => exact ctrlOk_stateRd h hg (.inr hc)
  | stateDec => exact ctrlOk_stateDec h hg hc
  | initState => exact ctrlOk_initState h hg hc
  | wrFlowState => exact ctrlOk_wrFlowState h hg hc
  | sendPkt => exact ctrlOk_out h hg (.inl hc)
  | notifApp => exact ctrlOk_out h hg (.inr hc)

theorem inv_step (h : Inv s) (hg : IssueOk s i) : Inv (s.step i) := by
  refine ⟨ctrlOk_step h hg, ?_, ?_⟩
  · intro hr'
    by_cases hr : s.fsm.ctrl = .ready
    · cases hp : i.hdr with
      | none =>
        have hf : (s.step i).fsm = s.fsm := by simp [step, RxFsmPipe.step, hr, fsmIn, hp]
        rw [hf] at hr'
        exact absurd hr hr'
      | some p =>
        have hf : (s.step i).fsm.pkt = p := by simp [step, RxFsmPipe.step, hr, fsmIn, hp]
        obtain ⟨hk, -⟩ := hg.2 hr p hp
        rw [hf, log_step (alloc_ne hg hk), if_pos hr, if_pos (by rw [hp]; rfl)]
        exact ⟨hk, rfl⟩
    · rw [pkt_step hr]
      obtain ⟨hk, hs⟩ := h.current hr
      exact ⟨(known_step (alloc_ne hg hk)).trans hk, seen_step hs⟩
  · intro f hk' hs'
    by_cases ha : i.alloc = some f
    · exact tcpMem_alloc hg ha
    · have hk : (s.log f).known = true := (known_step ha).symm.trans hk'
      have hs : (s.log f).seen = false := by
        by_contra hns
        rw [seen_step (by simpa using hns)] at hs'
        cases hs'
      have hne : ¬ (s.fsm.ctrl = .wrFlowState ∧ s.fsm.pkt.flowid = f) := by
        rintro ⟨hw, rfl⟩
        have hseen := (h.current (by simp [hw])).2
        rw [hs] at hseen
        cases hseen
      rw [tcpMem_step hg hk, if_neg hne]
      exact h.fresh f hk hs

theorem inv_init (h : s.Init) : Inv s := by
  obtain ⟨hf, -, -, hl⟩ := h
  constructor
  · simp [CtrlOk, hf, RxFsmPipe.reset]
  · simp [hf, RxFsmPipe.reset]
  · simp [hl, emptyLog]

theorem cycle_eq_some {s' : FsmSystem} (h : cycle s i = some s') :
    (IssueOk s i ∧ DataOk s i) ∧ s' = s.step i := by
  simp only [cycle, Option.ite_none_right_eq_some, Option.some.injEq] at h
  exact ⟨h.1, h.2.symm⟩

theorem inv_of_reach {ok : FsmSystem → FsmSystemIn → Prop} (h : Reach Init cycle ok s) :
    Inv s := by
  refine h.invariant (fun _ => inv_init) ?_
  intro s i s' hi _ hs
  obtain ⟨⟨hg, -⟩, rfl⟩ := cycle_eq_some hs
  exact inv_step hi hg

/-! ### Fixed runs -/

def reset : FsmSystem where
  fsm := RxFsmPipe.reset
  initSeqNum := 1
  tcpMem _ := .none
  tcpRd := none
  rxMem _ := default
  txMem _ := default
  log _ := emptyLog

theorem reset_init : reset.Init := ⟨rfl, rfl, rfl, fun _ => rfl⟩

/-- A cycle in which every neighbour is ready. -/
def smooth (alloc : Option FlowId) (hdr : Option FsmPkt) : FsmSystemIn where
  hdr := hdr
  alloc := alloc
  stateRdRdy := true
  stateRespVal := true
  reinjectFull := false
  sendRdy := true
  notifRdy := true
  rxWr := none
  txWr := none

/-- A packet of flow 2. -/
def pktOf (newFlow : Bool) (flags : BitVec 9) (seqNum ackNum : BitVec 32) : FsmPkt :=
  { (default : FsmPkt) with
    tcpHdr :=
      { (default : TcpPktHdr) with flags := flags, seqNum := seqNum, ackNum := ackNum }
    newFlow := newFlow
    flowid := 2 }

def idle (n : Nat) : List FsmSystemIn := List.replicate n (smooth none none)

/-- A client that opens flow 2 with a SYN at 100; the first SYN-ACK has number 4095. -/
def openFlow : List FsmSystemIn :=
  smooth (some 2) none :: smooth none (some (pktOf true tcpSyn 100 0)) :: idle 5 ++
    [smooth none (some (pktOf false tcpAck 101 4096))] ++ idle 6

end FsmSystem

end TcpHw
