import Mathlib.Algebra.Ring.Nat
import Mathlib.Data.Fintype.Card

/-!
# Parameters and packed records of `tcp_pkg` and `packet_struct_pkg`

Registers and wires are bit vectors of the width the packages give them. A flow
identifier is `FLOWID_W = $clog2(MAX_FLOW_CNT)` bits wide, so every value below
`MAX_FLOW_CNT` occurs and the type is `Fin 16`. Ring pointers carry one wrap bit
above the 12 address bits of a 4096-byte ring.
-/
namespace TcpHw

set_option autoImplicit false

/-- `MAX_FLOW_CNT` -/
abbrev maxFlowCnt : Nat := 16

instance : NeZero maxFlowCnt := ⟨by decide⟩

/-- `logic [FLOWID_W-1:0]` -/
abbrev FlowId := Fin maxFlowCnt

instance : LawfulBEq FlowId := inferInstance

/-- `logic [PAYLOAD_PTR_W:0]`, the RX and TX ring pointers with their wrap bit. -/
abbrev Ptr := BitVec 13

/-- Bytes of one receive or transmit ring, `2 ** PAYLOAD_PTR_W`. -/
abbrev ringBytes : Nat := 4096

/-- `RT_ACK_THRESHOLD` -/
abbrev rtAckThreshold : Nat := 3

/-- `TX_TIMER_LEN` -/
abbrev txTimerLen : Nat := 512

/-- `MAX_SEG_SIZE` of `packet_defs.vh`. -/
abbrev maxSegSize : Nat := 1024

/-- `four_tuple_struct`, with the fields of `flow_lookup_entry`. -/
structure FourTuple where
  hostIp : BitVec 32
  destIp : BitVec 32
  hostPort : BitVec 16
  destPort : BitVec 16
  deriving DecidableEq, Inhabited

/-- `recv_state_entry` -/
structure RecvState where
  rxCurrAckNum : BitVec 32
  rxCurrWndSize : BitVec 16
  deriving DecidableEq, Inhabited

/-- `payload_buf_struct` -/
structure PayloadBuf where
  payloadAddr : BitVec 32
  payloadLen : BitVec 16
  deriving DecidableEq, Inhabited

/-- `tcp_flow_state_e`; `und` is the simulation value `TCP_UND = 'X`. -/
inductive TcpFlowState where
  | none | synRecv | est | halfClose | und
  deriving DecidableEq, Inhabited

/-- `rt_timeout_flag_struct` -/
structure RtTimeoutFlags where
  timeoutPending : Bool
  rtPending : Bool
  deriving DecidableEq, Inhabited

/-- `tx_ack_state_struct`; the count is `$clog2(RT_ACK_THRESHOLD)` bits wide. -/
structure TxAckState where
  txCurrAckCnt : BitVec 2
  txCurrAckNum : BitVec 32
  deriving DecidableEq, Inhabited

/-- `tx_ack_timer` -/
structure TxAckTimer where
  timestamp : BitVec 64
  timerArmed : Bool
  deriving DecidableEq, Inhabited

/-- `tx_state_struct` -/
structure TxState where
  txCurrSeqNum : BitVec 32
  timer : TxAckTimer
  txCurrAckState : TxAckState
  deriving DecidableEq, Inhabited

/-- `tcp_pkt_hdr` -/
structure TcpPktHdr where
  srcPort : BitVec 16
  dstPort : BitVec 16
  seqNum : BitVec 32
  ackNum : BitVec 32
  rawDataOffset : BitVec 4
  reserved : BitVec 3
  flags : BitVec 9
  winSize : BitVec 16
  chksum : BitVec 16
  urgPointer : BitVec 16
  deriving DecidableEq, Inhabited

def tcpFin : BitVec 9 := 0b000000001#9
def tcpSyn : BitVec 9 := 0b000000010#9
def tcpRst : BitVec 9 := 0b000000100#9
def tcpPsh : BitVec 9 := 0b000001000#9
def tcpAck : BitVec 9 := 0b000010000#9

/-- The flags that keep an established packet out of the handshake FSM:
`flags & ~(TCP_ACK | TCP_PSH)` is zero. -/
def onlyAckPsh (flags : BitVec 9) : Bool := flags &&& ~~~(tcpAck ||| tcpPsh) == 0

/-- `rx_store_buf_q_struct` -/
structure RxStoreBufQ where
  flowid : FlowId
  acceptPayload : Bool
  payloadEntry : PayloadBuf
  deriving DecidableEq, Inhabited

end TcpHw
