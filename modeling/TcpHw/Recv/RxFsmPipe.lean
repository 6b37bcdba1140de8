import TcpHw.Ram
import TcpHw.Basic

/-!
# `tcp_state_machine` and `rx_fsm_pipe`

The handshake FSM takes one packet at a time: it reads the flow's TCP state, sends a
packet of an established flow back to `est_pipe`, and otherwise decides the next
state and an answer, initialises a new flow, writes the state, sends the answer and
notifies the application. A cycle of its control FSM is `RxFsmPipe.step`.
-/
namespace TcpHw

set_option autoImplicit false

/-! ### `tcp_state_machine` -/

/-- `bsg_lfsr` at 32 bits -/
def lfsrNext (o : BitVec 32) : BitVec 32 :=
  (o >>> 1) ^^^ (if o.getLsbD 0 then 0xA6000000#32 else 0)

/-- `req_hdr_assemble_seq_num` for a fresh connection: after the handshake the payload
buffer starts at 0. -/
def synAckSeqNum (initSeqNum : BitVec 32) : BitVec 32 := initSeqNum ||| 0xFFF#32

/-- `tcp_hdr_assembler` for a SYN-ACK in answer to `hdr`, with `base_window_size`. -/
def synAckHdr (hdr : TcpPktHdr) (seqNum ackNum : BitVec 32) : TcpPktHdr where
  srcPort := hdr.dstPort
  dstPort := hdr.srcPort
  seqNum := seqNum
  ackNum := ackNum
  rawDataOffset := 5
  reserved := 0
  flags := tcpSyn ||| tcpAck
  winSize := 0x1000#16
  chksum := 0
  urgPointer := 0

/-- The outputs of `tcp_state_machine`. -/
structure StateDec where
  nextFlowState : TcpFlowState
  sendPktVal : Bool
  seqNumReq : Bool
  sendTcpHdr : TcpPktHdr
  appNewFlowNotif : Bool
  deriving DecidableEq, Inhabited

/-- A decision that changes the state and does nothing else; without a request the header
assembler drives zeros. -/
def StateDec.silent (next : TcpFlowState) : StateDec where
  nextFlowState := next
  sendPktVal := false
  seqNumReq := false
  sendTcpHdr := default
  appNewFlowNotif := false

/-- The acknowledgement that completes the handshake. -/
def isHandshakeAck (hdr : TcpPktHdr) (rx : RecvState) (tx : TxState) : Bool :=
  hdr.flags == tcpAck && rx.rxCurrAckNum == hdr.seqNum && tx.txCurrSeqNum == hdr.ackNum

/-- The combinational decision. In `TCP_EST` the source assigns `TCP_EST` and then
`1'b0`, which is `TCP_NONE`; the undefined outputs of the default branch are left at zero. -/
def tcpStateMachine (curr : TcpFlowState) (hdr : TcpPktHdr) (rx : RecvState) (tx : TxState)
    (initSeqNum : BitVec 32) : StateDec :=
  match curr with
  | .none =>
    if hdr.flags == tcpSyn then
      { nextFlowState := .synRecv
        sendPktVal := true
        seqNumReq := true
        sendTcpHdr := synAckHdr hdr (synAckSeqNum initSeqNum) (hdr.seqNum + 1)
        appNewFlowNotif := false }
    else .silent .none
  | .synRecv =>
    if isHandshakeAck hdr rx tx then
      { StateDec.silent .est with appNewFlowNotif := true }
    else
      { nextFlowState := .synRecv
        sendPktVal := true
        seqNumReq := false
        sendTcpHdr := synAckHdr hdr tx.txCurrSeqNum rx.rxCurrAckNum
        appNewFlowNotif := false }
  | .est => .silent .none
  | .halfClose => .silent .und
  | .und => .silent .und

/-! ### `rx_fsm_pipe` -/

/-- `fsm_input_queue_struct` -/
structure FsmPkt where
  srcIp : BitVec 32
  dstIp : BitVec 32
  tcpHdr : TcpPktHdr
  payloadVal : Bool
  payloadEntry : PayloadBuf
  newFlow : Bool
  flowid : FlowId
  deriving DecidableEq, Inhabited

/-- `fsm_reinject_queue_struct` -/
structure ReinjectPkt where
  flowid : FlowId
  tcpHdr : TcpPktHdr
  payloadVal : Bool
  payloadEntry : PayloadBuf
  deriving DecidableEq, Inhabited

/-- `ctrl_states_e` -/
inductive FsmCtrl where
  | ready | tcpStateRdReq | tcpStateRdResp | reinjectPkt | rxTxStateRdReq | rxTxStateRdResp
  | stateDec | initState | wrFlowState | sendPkt | notifApp
  deriving DecidableEq, Inhabited

/-- The registers. -/
structure RxFsmPipe where
  ctrl : FsmCtrl
  pkt : FsmPkt
  tcpState : TcpFlowState
  rxState : RecvState
  txState : TxState
  nextFlowState : TcpFlowState
  sendPktVal : Bool
  sendTcpHdr : TcpPktHdr
  appNewFlowNotif : Bool
  deriving Inhabited

/-- What the neighbours drive in one cycle. `stateResp` is a response of both the receive
and the transmit state memory. -/
structure FsmIn where
  hdr : Option FsmPkt
  tcpResp : Option TcpFlowState
  stateRdRdy : Bool
  stateResp : Option (RecvState × TxState)
  reinjectFull : Bool
  newFlowRdy : Bool
  wrRdy : Bool
  sendRdy : Bool
  notifRdy : Bool
  initSeqNum : BitVec 32

namespace RxFsmPipe

/-- After reset; `TCP_NONE` is the zero state. -/
def reset : RxFsmPipe where
  ctrl := .ready
  pkt := default
  tcpState := .none
  rxState := default
  txState := default
  nextFlowState := .none
  sendPktVal := false
  sendTcpHdr := default
  appNewFlowNotif := false

variable (m : RxFsmPipe) (i : FsmIn)

def decision : StateDec :=
  tcpStateMachine m.tcpState m.pkt.tcpHdr m.rxState m.txState i.initSeqNum

/-- The next control state when both state memories may be asked. -/
def rdReqNext : FsmCtrl := if i.stateRdRdy then .rxTxStateRdResp else .rxTxStateRdReq

/-- One clock edge. -/
def step : RxFsmPipe :=
  match m.ctrl with
  | .ready =>
    match i.hdr with
    | some p => { m with ctrl := .tcpStateRdReq, pkt := p }
    | none => m
  | .tcpStateRdReq =>
    if m.pkt.newFlow then { m with tcpState := .none, ctrl := .stateDec }
    else { m with ctrl := .tcpStateRdResp }
  | .tcpStateRdResp =>
    match i.tcpResp with
    | some st =>
      { m with
        tcpState := st
        ctrl :=
          if st = .est then
            if !onlyAckPsh m.pkt.tcpHdr.flags then .rxTxStateRdReq
            else if i.reinjectFull then .reinjectPkt else .ready
          else rdReqNext i }
    | none => m
  | .reinjectPkt => if i.reinjectFull then m else { m with ctrl := .ready }
  | .rxTxStateRdReq => { m with ctrl := rdReqNext i }
  | .rxTxStateRdResp =>
    match i.stateResp with
    | some (rx, tx) => { m with rxState := rx, txState := tx, ctrl := .stateDec }
    | none => m
  | .stateDec =>
    { m with
      nextFlowState := (m.decision i).nextFlowState
      sendPktVal := (m.decision i).sendPktVal
      sendTcpHdr := (m.decision i).sendTcpHdr
      appNewFlowNotif := (m.decision i).appNewFlowNotif
      ctrl :=
        if m.pkt.newFlow ∧ (m.decision i).nextFlowState ≠ .none then .initState
        else .wrFlowState }
  | .initState => if i.newFlowRdy then { m with ctrl := .wrFlowState } else m
  | .wrFlowState =>
    if i.wrRdy then
      { m with
        ctrl :=
          if m.sendPktVal then .sendPkt
          else if m.appNewFlowNotif then .notifApp else .ready }
    else m
  | .sendPkt =>
    if i.sendRdy then { m with ctrl := if m.appNewFlowNotif then .notifApp else .ready }
    else m
  | .notifApp => if i.notifRdy then { m with ctrl := .ready } else m

def hdrRdy : Bool := m.ctrl == .ready

/-- `fsm_tcp_state_rd_req_val`, `fsm_tcp_state_rd_req_flowid` -/
def tcpRdReq : Option FlowId :=
  if m.ctrl = .tcpStateRdReq ∧ m.pkt.newFlow = false then some m.pkt.flowid else none

/-- `init_seq_num_yumi` -/
def seqNumYumi : Bool := m.ctrl == .stateDec && (m.decision i).seqNumReq

def reinjectEntry : ReinjectPkt where
  flowid := m.pkt.flowid
  tcpHdr := m.pkt.tcpHdr
  payloadVal := m.pkt.payloadVal
  payloadEntry := m.pkt.payloadEntry

/-- `fsm_reinject_q_enq_req_val`: on the way out of `TCP_STATE_RD_RESP` only packets with a
payload are put back, on the way out of `REINJECT_PKT` all of them. -/
def reinject : Option ReinjectPkt :=
  if i.reinjectFull then none
  else
    match m.ctrl with
    | .tcpStateRdResp =>
      if i.tcpResp = some .est ∧ onlyAckPsh m.pkt.tcpHdr.flags = true ∧ m.pkt.payloadVal = true
      then some m.reinjectEntry else none
    | .reinjectPkt => some m.reinjectEntry
    | _ => none

/-- `next_flow_state_wr_req` -/
def stateWr : Option (FlowId × TcpFlowState) :=
  if m.ctrl = .wrFlowState then some (m.pkt.flowid, m.nextFlowState) else none

/-- `flow_lookup_init` -/
def flowLookupInit : FourTuple where
  hostIp := m.pkt.dstIp
  destIp := m.pkt.srcIp
  hostPort := m.pkt.tcpHdr.dstPort
  destPort := m.pkt.tcpHdr.srcPort

/-- `tcp_fsm_clear_flowid_val`, `tcp_fsm_clear_flowid_tag`: the first packet of a flow does
not open a connection. -/
def clearFlowid : Option FourTuple :=
  if m.ctrl = .stateDec ∧ m.pkt.newFlow ∧ (m.decision i).nextFlowState = .none then
    some m.flowLookupInit
  else none

/-- `rx_state_init` -/
def rxStateInit : RecvState where
  rxCurrAckNum := m.sendTcpHdr.ackNum
  rxCurrWndSize := 0x1000#16

/-- `tx_state_init` -/
def txStateInit : TxState where
  txCurrSeqNum := m.sendTcpHdr.seqNum + 1
  timer := { timestamp := 0, timerArmed := false }
  txCurrAckState := { txCurrAckCnt := 0, txCurrAckNum := m.sendTcpHdr.seqNum + 1 }

/-- `new_flow_val` -/
def newFlowVal : Bool := m.ctrl == .initState

/-! ### What a cycle can do -/

/-- The arcs of the control FSM. -/
def arcs : FsmCtrl → List FsmCtrl
  | .ready => [.ready, .tcpStateRdReq]
  | .tcpStateRdReq => [.tcpStateRdResp, .stateDec]
  | .tcpStateRdResp => [.tcpStateRdResp, .ready, .reinjectPkt, .rxTxStateRdReq, .rxTxStateRdResp]
  | .reinjectPkt => [.reinjectPkt, .ready]
  | .rxTxStateRdReq => [.rxTxStateRdReq, .rxTxStateRdResp]
  | .rxTxStateRdResp => [.rxTxStateRdResp, .stateDec]
  | .stateDec => [.initState, .wrFlowState]
  | .initState => [.initState, .wrFlowState]
  | .wrFlowState => [.wrFlowState, .sendPkt, .notifApp, .ready]
  | .sendPkt => [.sendPkt, .notifApp, .ready]
  | .notifApp => [.notifApp, .ready]

variable {m i}

theorem ctrl_mem_arcs : (m.step i).ctrl ∈ arcs m.ctrl := by
  cases hc : m.ctrl with
  | ready => cases hh : i.hdr <;> simp [step, hc, hh, arcs]
  | tcpStateRdResp =>
    cases ht : i.tcpResp with
    | none => simp [step, hc, ht, arcs]
    | some st =>
      simp only [step, hc, ht, rdReqNext]
      split_ifs <;> simp [arcs]
  | rxTxStateRdResp => cases hs : i.stateResp <;> simp [step, hc, hs, arcs]
  | tcpStateRdReq | reinjectPkt | rxTxStateRdReq | stateDec | initState | wrFlowState | sendPkt
  | notifApp =>
    simp only [step, hc, rdReqNext]
    split_ifs <;> simp [arcs, hc]

/-- The packet in hand changes only in `READY`. -/
theorem pkt_step (hr : m.ctrl ≠ .ready) : (m.step i).pkt = m.pkt := by
  cases hc : m.ctrl with
  | ready => exact absurd hc hr
  | tcpStateRdResp => cases ht : i.tcpResp <;> simp [step, hc, ht]
  | rxTxStateRdResp => cases hs : i.stateResp <;> simp [step, hc, hs]
  | stateDec | rxTxStateRdReq => simp only [step, hc]
  | tcpStateRdReq | reinjectPkt | initState | wrFlowState | sendPkt | notifApp =>
    simp only [step, hc]
    split_ifs <;> rfl

/-- The TCP state in hand is only replaced by the states that read it. -/
theorem tcpState_step (hq : m.ctrl ≠ .tcpStateRdReq) (hp : m.ctrl ≠ .tcpStateRdResp) :
    (m.step i).tcpState = m.tcpState := by
  cases hc : m.ctrl with
  | tcpStateRdReq => exact absurd hc hq
  | tcpStateRdResp => exact absurd hc hp
  | ready => cases hh : i.hdr <;> simp [step, hc, hh]
  | rxTxStateRdResp => cases hs : i.stateResp <;> simp [step, hc, hs]
  | stateDec | rxTxStateRdReq => simp only [step, hc]
  | reinjectPkt | initState | wrFlowState | sendPkt | notifApp =>
    simp only [step, hc]
    split_ifs <;> rfl

end RxFsmPipe

end TcpHw
