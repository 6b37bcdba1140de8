import TcpHw.Frontend.ChksumOutput
import TcpHw.Common.CircBufReadNew

/-!
# `frontend_tx_payload_engine`

The engine takes the descriptor of a segment, gives out its header and has the payload read from the
ring of its flow by `rd_circ_buf_new`. One machine waits for the lines of the payload, the other for
the header, and they leave a descriptor together. A descriptor without payload asks for nothing.
-/
namespace TcpHw

open Bytes Trace

set_option autoImplicit false

/-! ### The engine -/

/-- A descriptor: the signals of `src_payload_tx`. -/
structure PayloadTxReq where
  flowid : FlowId
  srcIp : BitVec 32
  dstIp : BitVec 32
  tcpHdr : TcpPktHdr
  payloadEntry : PayloadBuf
  deriving DecidableEq, Inhabited

/-- The header port. -/
structure PayloadTxHdr where
  srcIp : BitVec 32
  dstIp : BitVec 32
  payloadLen : BitVec 16
  tcpHdr : TcpPktHdr
  deriving DecidableEq, Inhabited

/-- The header of the descriptor. -/
def PayloadTxReq.hdr (x : PayloadTxReq) : PayloadTxHdr :=
  ⟨x.srcIp, x.dstIp, x.payloadEntry.payloadLen, x.tcpHdr⟩

/-- The read of its payload; the offset has `TX_PAYLOAD_PTR_W` bits. -/
def PayloadTxReq.read (W : Nat) (x : PayloadTxReq) : RdReq :=
  ⟨x.flowid, x.payloadEntry.payloadAddr.toNat % 2 ^ W, x.payloadEntry.payloadLen.toNat⟩

namespace TxPayloadEngine

/-- `states_e`; no step leads to `WAIT_RD_RESP`. -/
inductive State where
  | ready | dataOutput | payloadWaitTxFin
  deriving DecidableEq, Inhabited

end TxPayloadEngine

/-- The registers of `frontend_tx_payload_engine`. -/
structure TxPayloadEngine where
  state : TxPayloadEngine.State
  hdrState : OutputHdrState
  srcIp : BitVec 32
  dstIp : BitVec 32
  tcpHdr : TcpPktHdr
  payloadEntry : PayloadBuf

/-- What the engine sees in one cycle: the descriptor on the bus, the ready of the reader, and
whether the last line of the payload is handed over. -/
structure EngineSignals where
  srcVal : Bool
  src : PayloadTxReq
  rdReqRdy : Bool
  lastOut : Bool
  hdrRdy : Bool

namespace TxPayloadEngine

variable (r : TxPayloadEngine) (g : EngineSignals)

def reset : TxPayloadEngine := ⟨.ready, .waiting, 0, 0, default, default⟩

/-- `payload_src_tx_rdy` -/
def srcRdy : Bool := r.state == .ready && g.rdReqRdy

/-- `ctrl_rd_mem_tx_req_val` -/
def reqVal : Bool :=
  r.state == .ready && g.srcVal && g.src.payloadEntry.payloadLen != 0 && g.rdReqRdy

def stateNext : State :=
  match r.state with
  | .ready =>
    if g.srcVal then
      -- a reader that is not ready is treated as a descriptor without payload
      (if g.src.payloadEntry.payloadLen != 0 && g.rdReqRdy then .dataOutput else .payloadWaitTxFin)
    else .ready
  | .dataOutput => if g.lastOut then .payloadWaitTxFin else .dataOutput
  | .payloadWaitTxFin => if r.hdrState = .waitTxFin then .ready else .payloadWaitTxFin

/-- `payload_dst_tx_hdr_val` -/
def hdrVal : Bool := r.hdrState == .output

def givesHdr : Bool := r.hdrVal && g.hdrRdy

/-- The header port while it is valid. -/
def hdrOut : PayloadTxHdr := ⟨r.srcIp, r.dstIp, r.payloadEntry.payloadLen, r.tcpHdr⟩

def hdrStateNext : OutputHdrState :=
  match r.hdrState with
  | .waiting => if r.state = .ready ∧ r.stateNext g ≠ .ready then .output else .waiting
  | .output => if g.hdrRdy then .waitTxFin else .output
  | .waitTxFin => if r.state = .payloadWaitTxFin then .waiting else .waitTxFin

/-- The registers are written. -/
def stores : Bool := r.state == .ready && g.srcVal

/-- One clock edge. -/
def next : TxPayloadEngine where
  state := r.stateNext g
  hdrState := r.hdrStateNext g
  srcIp := if r.stores g then g.src.srcIp else r.srcIp
  dstIp := if r.stores g then g.src.dstIp else r.dstIp
  tcpHdr := if r.stores g then g.src.tcpHdr else r.tcpHdr
  payloadEntry := if r.stores g then g.src.payloadEntry else r.payloadEntry

end TxPayloadEngine

/-! ### The engine with the reader and the memory tile -/

/-- `taken` are the descriptors that were accepted, `hdrs` and `data` what was given out. -/
structure PayloadSystem where
  engine : TxPayloadEngine
  rd : RdSystem RdCircBufNew
  src : List PayloadTxReq
  taken : List PayloadTxReq
  hdrs : List PayloadTxHdr
  data : List RdOut

/-- What the surroundings do in one cycle; `bus` is what the source of the descriptors drives when
none is valid. -/
structure PayloadEnv extends NocIn where
  offer : Bool
  bus : PayloadTxReq
  hdrRdy : Bool
  dataRdy : Bool

namespace PayloadEnv

/-- A cycle in which everything is ready, without a response. -/
def calm : PayloadEnv := ⟨⟨true, false, 0, 0⟩, true, default, true, true⟩

/-- The header of a response of `n` lines. -/
def header (n : Nat) : PayloadEnv := { calm with resp := true, respMsgLen := n }

def line (d : Line) : PayloadEnv := { calm with resp := true, respData := d }

end PayloadEnv

namespace PayloadSystem

variable (W : Nat) (s : PayloadSystem) (e : PayloadEnv)

def srcVal : Bool := e.offer && !s.src.isEmpty

/-- The descriptor on the bus. -/
def onBus : PayloadTxReq := if e.offer then s.src.headD e.bus else e.bus

/-- `rd_buf_src_req_rdy` -/
def rdReqRdy : Bool := (rdCircBufNew W).idle s.rd.core && s.rd.noc.reqRdy

/-- The signals that do not depend on the reader's answer. -/
def reqSignals : EngineSignals := ⟨s.srcVal e, s.onBus e, s.rdReqRdy W, false, e.hdrRdy⟩

/-- The inputs of the reader. -/
def rdIn : RdIn where
  toNocIn := e.toNocIn
  reqVal := s.engine.reqVal (s.reqSignals W e)
  req := (s.onBus e).read W
  dataRdy := e.dataRdy

/-- The line of payload that is handed over. -/
def lineOut : Option RdOut := RdNew.lineTaken W s.rd (s.rdIn W e)

def signals : EngineSignals := { s.reqSignals W e with lastOut := (s.lineOut W e).any RdOut.last }

/-- A descriptor is accepted. -/
def accepts : Bool := s.srcVal e && s.engine.srcRdy (s.signals W e)

def cycle : PayloadSystem where
  engine := s.engine.next (s.signals W e)
  rd := s.rd.cycle (rdCircBufNew W) (s.rdIn W e)
  src := if s.accepts W e then s.src.tail else s.src
  taken := if s.accepts W e then s.taken ++ [s.onBus e] else s.taken
  hdrs := s.hdrs ++ (if s.engine.givesHdr (s.signals W e) then [s.engine.hdrOut] else [])
  data := s.data ++ (s.lineOut W e).toList

def step : Option PayloadSystem := some (s.cycle W e)

/-- After a reset, with the descriptors at the source. -/
def Init (descs : List PayloadTxReq) : Prop :=
  s.engine = .reset ∧ RdSystem.Init (rdCircBufNew W) s.rd ∧ s.src = descs ∧ s.taken = [] ∧
    s.hdrs = [] ∧ s.data = []

/-- The tile answers with the bytes of the memory. -/
def Answered (mem : Memory) (s : PayloadSystem) (e : PayloadEnv) : Prop :=
  s.rd.tile.Answers mem e.toNocIn

instance (mem : Memory) : Decidable (Answered mem s e) :=
  inferInstanceAs (Decidable (s.rd.tile.Answers mem e.toNocIn))

end PayloadSystem

end TcpHw
