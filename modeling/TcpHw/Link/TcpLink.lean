import TcpHw.Recv.RxDelivery
import TcpHw.Send.TxSequence

/-!
# Two engines and a network between them

One direction of a connection: the transmit half of a flow in one engine, and the receive half in
another one. The network keeps every segment and every acknowledgement that was ever sent and hands
any of them over at any time, so that it loses, duplicates and reorders. A segment gets its number
in `protocol_logic_pipe`, but its bytes are read out of the transmit ring later, when the
acknowledgement of an earlier copy may already have released them.
-/
namespace TcpHw

open Trace RxPath TxSequence

set_option autoImplicit false

/-- A segment that was handed to the assembler, before its payload is read. `pos` is not a field of
it: it is the place of its first byte in the stream. -/
structure TxDesc where
  seqNum : BitVec 32
  payloadBuf : PayloadBuf
  pos : Nat

/-- A segment in the network. -/
structure NetSegment where
  seqNum : BitVec 32
  bytes : List Byte
  pos : Nat
  deriving DecidableEq

/-- An acknowledgement in the network; `pos` is the number of bytes accepted when it was sent. -/
structure NetAck where
  ackNum : BitVec 32
  pos : Nat
  deriving DecidableEq

/-- The last four fields are not registers: what the sending application has written and the
receiving one has read, the number of bytes released in the transmit ring, and the place of the pass
in `protocol_logic_pipe`. -/
structure TcpLink where
  tx : TxFlow
  txRing : BitVec 12 → Byte
  descs : List TxDesc
  segs : List NetSegment
  acks : List NetAck
  rx : Path
  written : List Byte
  read : List Byte
  acked : Nat
  passPos : Nat

inductive LinkAct where
  | write (bytes : List Byte)
  | sendRead (flags : RtTimeoutFlags) (timestamp : BitVec 64)
  | sendWrite
  | fetch
  | deliver (g : NetSegment) (p : RxPkt) (tx : TxState)
  | receive (a : RxAct)
  | release (headPtr : Ptr)
  | sendAck
  | ackRead (a : NetAck)
  | ackWrite

namespace TcpLink

/-- Everything that the receive path does on its own or for other flows. -/
def Aside (f : FlowId) : RxAct → Prop
  | .newFlow g _ => g ≠ f
  | .packet p _ => p.pkt.flowid ≠ f
  | .copyOut => True
  | .appHead g _ => g ≠ f

instance (f : FlowId) : ∀ a, Decidable (Aside f a)
  | .newFlow g _ => inferInstanceAs (Decidable (g ≠ f))
  | .packet p _ => inferInstanceAs (Decidable (p.pkt.flowid ≠ f))
  | .copyOut => .isTrue trivial
  | .appHead g _ => inferInstanceAs (Decidable (g ≠ f))

variable (f : FlowId) (s : TcpLink)

/-- The bytes of the flow that `est_pipe` has accepted. -/
def accepted : List Byte := s.rx.committed f ++ waitingBytes f s.rx.queue

/-- The application stores bytes behind the tail and moves it past them. -/
def writeBytes (bytes : List Byte) : TcpLink :=
  { s with
    tx := { s.tx with tailPtr := s.tx.tailPtr + BitVec.ofNat 13 bytes.length }
    txRing := Ring.write s.txRing (s.tx.tailPtr.setWidth 12) bytes
    written := s.written ++ bytes }

/-- The payload of a segment, as the ring holds it now. -/
def fetched (d : TxDesc) : NetSegment where
  seqNum := d.seqNum
  bytes :=
    Ring.slice s.txRing (d.payloadBuf.payloadAddr.setWidth 12) d.payloadBuf.payloadLen.toNat
  pos := d.pos

/-- Stage N of `protocol_logic_pipe`. -/
def numbered (flags : RtTimeoutFlags) (now : BitVec 64) : TcpLink :=
  { s with
    tx := { s.tx with sendPass := some (flags, numbering flags s.tx.txState s.tx.tailPtr now) }
    passPos := s.acked + s.tx.dist (passSeqNum flags s.tx.txState) }

/-- Stage W of `protocol_logic_pipe`. -/
def sent (n : Numbered) : TcpLink :=
  { s with
    tx := s.tx.writeBack n
    descs := s.descs ++ if n.generatePkt then [⟨n.txPktSeqNum, n.payloadBuf, s.passPos⟩] else [] }

/-- A segment goes into the network with its payload. -/
def fetch (d : TxDesc) (ds : List TxDesc) : TcpLink :=
  { s with descs := ds, segs := s.segs ++ [s.fetched d] }

/-- Stage C of `est_pipe` at the sending end. -/
def ackSeen (a : NetAck) : TcpLink :=
  { s with tx := { s.tx with estPass := some (s.tx.ackOut a.ackNum) } }

/-- Stage W of `est_pipe`. -/
def ackWritten (o : TxAckOut) : TcpLink :=
  { s with
    tx := s.tx.writeAck o
    acked := s.acked + s.tx.dist o.nextAckState.txCurrAckNum }

/-- The receiving application reads up to a new head pointer. -/
def releasedTo (h : Ptr) : TcpLink :=
  { s with
    rx := { s.rx with headPtr := Function.update s.rx.headPtr f h }
    read := s.read ++
      Ring.slice (s.rx.ring f) ((s.rx.headPtr f).setWidth 12) (h - s.rx.headPtr f).toNat }

/-- The receiving end takes a segment as a packet of the flow. -/
def Brings (g : NetSegment) (p : RxPkt) : Prop :=
  g ∈ s.segs ∧ p.pkt.flowid = f ∧ p.pkt.tcpHdr.seqNum = g.seqNum ∧ p.slab = g.bytes

instance (g : NetSegment) (p : RxPkt) : Decidable (s.Brings f g p) :=
  inferInstanceAs (Decidable (_ ∧ _ ∧ _ ∧ _))

def step : LinkAct → Option TcpLink
  | .write bytes =>
    if (s.tx.tailPtr - s.tx.headPtr).toNat + bytes.length ≤ ringBytes then
      some (s.writeBytes bytes)
    else none
  | .sendRead flags now =>
    if s.tx.sendPass.isNone then some (s.numbered flags now) else none
  | .sendWrite => s.tx.sendPass.map fun p => s.sent p.2
  | .fetch =>
    match s.descs with
    | [] => none
    | d :: ds => some (s.fetch d ds)
  | .deliver g p tx =>
    if s.Brings f g p then (rxStep s.rx (.packet p tx)).map fun rx => { s with rx } else none
  | .receive a => if Aside f a then (rxStep s.rx a).map fun rx => { s with rx } else none
  | .release h => if appHeadOk s.rx f h then some (s.releasedTo f h) else none
  | .sendAck => some { s with acks := s.acks ++ [⟨s.rx.ackNum f, (s.accepted f).length⟩] }
  | .ackRead a =>
    if a ∈ s.acks ∧ s.tx.estPass.isNone then some (s.ackSeen a) else none
  | .ackWrite => s.tx.estPass.map s.ackWritten

/-- A message is gone before the stream is half the number circle past it. -/
def Alive (pos : Nat) : Prop := s.written.length < pos + 2 ^ 31

/-- No message outlives its time, and no acknowledgement overtakes a rewinding pass. -/
def Timely : LinkAct → Prop
  | .deliver g _ _ => s.Alive g.pos
  | .ackRead a => s.Alive a.pos ∧ NoOvertake (some s.tx) (.estRead a.ackNum)
  | .sendRead flags now => NoOvertake (some s.tx) (.sendRead flags now)
  | _ => True

instance : ∀ a, Decidable (s.Timely a)
  | .deliver _ _ _ => inferInstanceAs (Decidable (_ < _))
  | .ackRead a => inferInstanceAs (Decidable (_ < _ ∧ NoOvertake (some s.tx) (.estRead a.ackNum)))
  | .sendRead flags now =>
    inferInstanceAs (Decidable (NoOvertake (some s.tx) (.sendRead flags now)))
  | .write _ => .isTrue trivial
  | .sendWrite => .isTrue trivial
  | .fetch => .isTrue trivial
  | .receive _ => .isTrue trivial
  | .release _ => .isTrue trivial
  | .sendAck => .isTrue trivial
  | .ackWrite => .isTrue trivial

/-- Both ends have set the flow up with the same first number; the other flows of the receiving
engine are in any state. -/
structure Init (isn : BitVec 32) : Prop where
  tx : s.tx = initFlow isn
  rx : ∃ p, Reach rxInit rxStep Free p ∧ p.live f = false ∧ s.rx = p.newFlow f isn
  empty : s.descs = [] ∧ s.segs = [] ∧ s.acks = [] ∧ s.written = [] ∧ s.read = [] ∧ s.acked = 0

end TcpLink

end TcpHw
