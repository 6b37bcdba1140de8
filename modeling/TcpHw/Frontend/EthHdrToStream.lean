import TcpHw.Frontend.TcpToStream
import TcpHw.Frontend.IpToEthstream

/-!
# `eth_hdrtostream`

The last stage on the transmit side puts the Ethernet header in front of the payload and marks the
first and the last line of the frame. The header is put in by an element outside of this repository,
`inserter_compile`: it gives out the lines of header and payload in order, each at the earliest in
the cycle in which the last of its bytes is taken and otherwise when it pleases.
-/
namespace TcpHw

open Bytes Framing

set_option autoImplicit false

/-! ### `inserter_compile` -/

/-- The bytes of a line that are not padding. -/
def DataLine.bytes (l : DataLine) : List (BitVec 8) := l.read.bytes

/-- `held` are the bytes of the packet in hand behind its full lines, and `queue` are the lines that
may leave. -/
structure Inserter where
  held : Option (List (BitVec 8))
  queue : List (Beat (BitVec 8))

/-- A line is taken; the first line of a packet comes behind `insert_data`. -/
def Inserter.write (x : Inserter) (insertData : List (BitVec 8)) (l : DataLine) : Inserter :=
  if l.last then ⟨none, x.queue ++ beats 64 (x.held.getD insertData ++ l.bytes)⟩
  else
    ⟨some (rest 64 (x.held.getD insertData ++ l.bytes)),
      x.queue ++ whole 64 (x.held.getD insertData ++ l.bytes)⟩

/-! ### The registers -/

/-- The bits of `eth_hdr`. -/
def EthHdr.bits (h : EthHdr) : BitVec (8 * 14) := (h.dst ++ h.src ++ h.ethType : BitVec (48 + 48 + 16))

/-- The header port; the length has `MTU_SIZE_W` bits. -/
structure EthTxHdr where
  ethHdr : EthHdr
  payloadLen : BitVec 14
  timestamp : Timestamp
  deriving DecidableEq, Inhabited

namespace EthHdrToStream

/-- `state_e` -/
inductive State where
  | ready | writeIn | waitOut
  deriving DecidableEq, Inhabited

end EthHdrToStream

/-- The registers of `eth_hdrtostream` with the inserter. `READY` does not drive
`inserter_fifo_rd_rdy`, so that it keeps its value there. -/
structure EthHdrToStream where
  state : EthHdrToStream.State
  isStart : Bool
  hdr : EthHdr
  timestamp : Timestamp
  payloadLen : BitVec 16
  rdRdyLatch : Bool
  inserter : Inserter

/-- The wires of a cycle; `wrRdy` and `emits` are up to the inserter. -/
structure EthTxWires where
  hdrVal : Bool
  hdr : EthTxHdr
  dataVal : Bool
  line : DataLine
  wrRdy : Bool
  emits : Bool
  dataRdy : Bool

/-- A line at the output, as its receiver reads it; `endframe` is the last mark of the line. -/
structure EthTxLine where
  line : Beat (BitVec 8)
  startframe : Bool
  frameSize : Nat
  deriving DecidableEq

/-! ### One cycle -/

namespace EthHdrToStream

variable (r : EthHdrToStream) (i : EthTxWires)

/-- `eth_hdrtostream_src_eth_hdr_rdy`, which is `store_inputs` -/
def srcHdrRdy : Bool := r.state == .ready

def takesHdr : Bool := i.hdrVal && r.srcHdrRdy

/-- `hdr_next` -/
def hdrNext : EthHdr := if r.srcHdrRdy then i.hdr.ethHdr else r.hdr

/-- `inserter_fifo_wr_val` -/
def wrVal : Bool := r.state == .writeIn && i.dataVal

/-- A line goes into the inserter. -/
def takesData : Bool := r.wrVal i && i.wrRdy

/-- The inserter with the line of this cycle. -/
def fed : Inserter :=
  if r.takesData i then r.inserter.write (lineBytes (r.hdrNext i).bits) i.line else r.inserter

/-- `inserter_fifo_rd_val` -/
def rdVal : Bool := i.emits && !(r.fed i).queue.isEmpty

/-- `inserter_fifo_rd_rdy` -/
def rdRdy : Bool := if r.state = .ready then r.rdRdyLatch else i.dataRdy

/-- The line the inserter shows while `inserter_fifo_rd_val` is high. -/
def shown : Beat (BitVec 8) := (r.fed i).queue.headD ⟨[], false, 0⟩

/-- `eth_hdrtostream_dst_data_val` -/
def dstDataVal : Bool := r.state != .ready && r.rdVal i

/-- A line leaves. -/
def gives : Bool := r.dstDataVal i && i.dataRdy

/-- `eth_hdrtostream_dst_endframe` -/
def endframe : Bool := (r.shown i).last

/-- `eth_hdrtostream_dst_frame_size` -/
def frameSize : BitVec 14 := (r.payloadLen + 14).setWidth 14

def lineOut : EthTxLine := ⟨r.shown i, r.isStart, r.frameSize.toNat⟩

def stateNext : State :=
  match r.state with
  | .ready => if i.hdrVal then .writeIn else .ready
  | .writeIn =>
    if r.takesData i then
      if i.line.last then (if r.gives i then (if r.endframe i then .ready else .waitOut) else .waitOut)
      else .writeIn
    else .writeIn
  | .waitOut => if r.gives i then (if r.endframe i then .ready else .waitOut) else .waitOut

def isStartNext : Bool :=
  match r.state with
  | .ready => true
  | .writeIn => if r.gives i then false else r.isStart
  -- the line that leaves is not looked at
  | .waitOut => r.isStart

/-- One clock edge. -/
def next : EthHdrToStream where
  state := r.stateNext i
  isStart := r.isStartNext i
  hdr := r.hdrNext i
  timestamp := if r.srcHdrRdy then i.hdr.timestamp else r.timestamp
  payloadLen := if r.srcHdrRdy then i.hdr.payloadLen.setWidth 16 else r.payloadLen
  rdRdyLatch := r.rdRdy i
  inserter :=
    { r.fed i with
      queue := if r.rdVal i && r.rdRdy i then (r.fed i).queue.tail else (r.fed i).queue }

end EthHdrToStream

/-! ### Frames -/

/-- A frame with at least one byte of payload. -/
structure EthTxFrame where
  hdr : EthTxHdr
  payload : List (BitVec 8)
  lines : List DataLine
  carried : Carries lines payload
  len : hdr.payloadLen.toNat = payload.length

namespace EthTxFrame

variable (x : EthTxFrame)

/-- The Ethernet header and the payload. -/
def bytes : List (BitVec 8) := lineBytes x.hdr.ethHdr.bits ++ x.payload

/-- The size of the frame can be told on the port. -/
def Fits : Prop := x.payload.length + 14 < 2 ^ 14

instance : Decidable x.Fits := inferInstanceAs (Decidable (_ < _))

/-- The lines with the marks and the size a line should have. -/
def marked (first : Bool) (size : Nat) : List (Beat (BitVec 8)) → List EthTxLine
  | [] => []
  | b :: t => ⟨b, first, size⟩ :: marked false size t

/-- The lines that should leave for the frame: the first one is marked as the start, the last one as
the end. -/
def outLines : List EthTxLine := marked true (x.payload.length + 14) (beats 64 x.bytes)

theorem length_bytes : x.bytes.length = x.payload.length + 14 := by
  rw [bytes, List.length_append, length_lineBytes, Nat.add_comm]

end EthTxFrame

end TcpHw
