import TcpHw.Frontend.IpPacket
import TcpHw.Common.PacketQueue
import TcpHw.Lib.Trace

/-!
# `ip_stream_format_pipe`

The pipelined formatter. `ip_stream_format_pipe_in` writes every line to a FIFO and the header line
to the checksum unit as well. `ip_stream_format_pipe_out` waits for the checksum of the packet at
the head of the FIFO, then passes the lines of the packet to `realign_runtime` or drops them, while
a second machine gives out the header.

`realign_runtime` is taken at its contract: it drops the given number of leading bytes of each
packet and gives out the rest in full lines. When it accepts a line and when it presents one is
left to the surroundings, and so is the timing of the checksum unit.
-/
namespace TcpHw

open Bytes Framing Trace

set_option autoImplicit false

/-! ### `ip_stream_format_pipe_in` -/

namespace FormatPipeIn

/-- `chksum_state_e` -/
inductive ChksumState where
  | ready | ipHdrFirst | ipHdrRem | waitData
  deriving DecidableEq, Inhabited

/-- `data_state_e` -/
inductive DataState where
  | waiting | dataOut
  deriving DecidableEq, Inhabited

end FormatPipeIn

/-- The registers of `ip_stream_format_pipe_in`. -/
structure FormatPipeIn where
  chksumState : FormatPipeIn.ChksumState
  dataState : FormatPipeIn.DataState
  chksumData : Line
  ipHdr : IpPktHdr

structure PipeInWires where
  srcVal : Bool
  src : RxLine
  cmdRdy : Bool
  reqRdy : Bool
  fifoFull : Bool

namespace FormatPipeIn

variable (r : FormatPipeIn) (i : PipeInWires)

def ipHdrLen : BitVec 16 := r.ipHdr.hdrBytes

/-- `DATA_BYTES - ip_hdr_len[DATA_BYTES_W-1:0]` -/
def keepShift : BitVec 7 := 64#7 - (r.ipHdrLen.extractLsb' 0 6).setWidth 7

/-- `ip_format_src_rx_rdy` -/
def srcRdy : Bool :=
  match r.chksumState with
  | .ready => !i.fifoFull && i.cmdRdy
  | .ipHdrFirst =>
    i.srcVal &&
      (if 64 < r.ipHdrLen.toNat then i.reqRdy && !i.fifoFull
      -- a waiting data machine has passed the last line already
      else !i.fifoFull && decide (r.dataState = .dataOut))
  | .ipHdrRem | .waitData => !i.fifoFull && decide (r.dataState = .dataOut)

/-- A line is accepted. -/
def accept : Bool := i.srcVal && r.srcRdy i

/-- `data_out` -/
def dataOut : Bool := decide (r.chksumState = .ready) && r.accept i

/-- `in_data_fifo_wr_req` with its data -/
def fifoWr : Option RxLine :=
  match r.dataState with
  | .waiting => if r.dataOut i && r.accept i then some i.src else none
  | .dataOut => if r.accept i then some i.src else none

def dataNext : DataState :=
  match r.fifoWr i with
  | some l => if l.last then .waiting else .dataOut
  | none => r.dataState

/-- The line for the checksum unit. -/
def req : Option ChksumReq :=
  let last : ChksumReq := ⟨r.chksumData, BitVec.allOnes 64 <<< r.keepShift.toNat, true⟩
  match r.chksumState with
  | .ready | .waitData => none
  | .ipHdrFirst =>
    if 64 < r.ipHdrLen.toNat then some ⟨r.chksumData, BitVec.allOnes 64, false⟩ else some last
  | .ipHdrRem => some last

def chksumNext : ChksumState :=
  let finished : ChksumState := if r.dataNext i = .waiting then .ready else .waitData
  match r.chksumState with
  | .ready => if r.accept i then .ipHdrFirst else .ready
  | .ipHdrFirst =>
    if 64 < r.ipHdrLen.toNat then (if r.accept i then .ipHdrRem else .ipHdrFirst)
    else (if i.reqRdy then finished else .ipHdrFirst)
  | .ipHdrRem => if i.reqRdy then finished else .ipHdrRem
  | .waitData => if r.dataNext i = .waiting then .ready else .waitData

/-- `store_data_line` -/
def storeDataLine : Bool :=
  match r.chksumState with
  | .ready => true
  | .ipHdrFirst => decide (64 < r.ipHdrLen.toNat) && r.accept i
  | _ => false

def next : FormatPipeIn where
  chksumState := r.chksumNext i
  dataState := r.dataNext i
  chksumData := if r.storeDataLine i then i.src.data else r.chksumData
  ipHdr := if r.chksumState = .ready then ipHdrCast i.src.data else r.ipHdr

end FormatPipeIn

/-! ### `ip_stream_format_pipe_out` -/

namespace FormatPipeOut

/-- `data_state_e` -/
inductive DataState where
  | ready | ipHdrDrain | passData | waitMeta | dataDrain
  deriving DecidableEq, Inhabited

/-- `meta_state_e` -/
inductive MetaState where
  | waiting | metaOut
  deriving DecidableEq, Inhabited

end FormatPipeOut

/-- The registers of `ip_stream_format_pipe_out`. -/
structure FormatPipeOut where
  dataState : FormatPipeOut.DataState
  metaState : FormatPipeOut.MetaState
  pktHdr : IpPktHdr
  chksumGood : Bool
  timestamp : Timestamp

structure PipeOutWires where
  resp : Option ChksumResp
  fifoEmpty : Bool
  fifoData : RxLine
  hdrRdy : Bool
  realignRdy : Bool

namespace FormatPipeOut

variable (r : FormatPipeOut) (i : PipeOutWires)

/-- The packet at the head of the FIFO and its checksum are both there. -/
def both : Bool := !i.fifoEmpty && i.resp.isSome

/-- `chksum_good` -/
def good : Bool := (i.resp.map (·.chksum)) == some 0

/-- `output_meta` -/
def outputMeta : Bool := decide (r.dataState = .ready) && both i && good i

def hdrVal : Bool :=
  match r.metaState with
  | .waiting => r.outputMeta i
  | .metaOut => true

def metaNext : MetaState := if r.hdrVal i && !i.hdrRdy then .metaOut else .waiting

def pktHdrNext : IpPktHdr := if r.dataState = .ready then ipHdrCast i.fifoData.data else r.pktHdr

def timestampNext : Timestamp := if r.dataState = .ready then i.fifoData.timestamp else r.timestamp

/-- The header port. -/
def hdrOut : Option HdrOut := if r.hdrVal i then some ⟨r.pktHdrNext i, r.timestampNext i⟩ else none

/-- `ip_chksum_resp_rdy` -/
def respRdy : Bool :=
  match r.dataState with
  | .ready | .ipHdrDrain => both i
  | _ => false

/-- `out_data_fifo_rd_req` -/
def rdReq : Bool :=
  match r.dataState with
  | .ipHdrDrain => both i
  | .passData => !i.fifoEmpty && i.realignRdy
  | .dataDrain => !i.fifoEmpty
  | _ => false

/-- `data_ctrl_realign_val` -/
def realignVal : Bool := decide (r.dataState = .passData) && !i.fifoEmpty

/-- `ip_hdr_len[PADBYTES_WIDTH-1:0]` -/
def realignShift : BitVec 6 := r.pktHdr.hdrBytes.extractLsb' 0 6

def dataNext : DataState :=
  let finished : DataState := if r.metaNext i = .waiting then .ready else .waitMeta
  match r.dataState with
  | .ready =>
    match i.resp with
    | some q =>
      if i.fifoEmpty then .ready
      else if q.last then (if good i then .passData else .dataDrain) else .ipHdrDrain
    | none => .ready
  | .ipHdrDrain =>
    if both i then (if r.chksumGood then .passData else .dataDrain) else .ipHdrDrain
  | .passData =>
    if !i.fifoEmpty && i.realignRdy && i.fifoData.last then finished else .passData
  | .dataDrain => if !i.fifoEmpty && i.fifoData.last then finished else .dataDrain
  | .waitMeta => if r.metaNext i = .waiting then .ready else .waitMeta

def next : FormatPipeOut where
  dataState := r.dataNext i
  metaState := r.metaNext i
  pktHdr := r.pktHdrNext i
  chksumGood := if r.dataState = .ready then good i else r.chksumGood
  timestamp := r.timestampNext i

end FormatPipeOut

/-! ### `realign_runtime` -/

/-- The lines that can be presented, the bytes of the packet not yet in a line, and whether the
next line starts a packet. -/
structure RealignRuntime where
  out : List (Beat (BitVec 8))
  buf : List (BitVec 8)
  fresh : Bool

namespace RealignRuntime

/-- The bytes of a line that are not padding. -/
def valid (l : RxLine) : List (BitVec 8) :=
  if l.last then (lineBytes l.data).take (64 - l.padbytes.toNat) else lineBytes l.data

/-- A line is accepted; the first line of a packet loses `realign_bytes` bytes. -/
def accept (a : RealignRuntime) (shift : BitVec 6) (l : RxLine) : RealignRuntime :=
  let bytes := a.buf ++ (valid l).drop (if a.fresh then shift.toNat else 0)
  if l.last then ⟨a.out ++ beats 64 bytes, [], true⟩
  else ⟨a.out ++ whole 64 bytes, rest 64 bytes, false⟩

/-- One clock edge, with the line sent, which was settled before, and the line accepted. -/
def step (a : RealignRuntime) (sent : Bool) (line : Option (BitVec 6 × RxLine)) : RealignRuntime :=
  let left : RealignRuntime := if sent then { a with out := a.out.tail } else a
  match line with
  | some (shift, l) => left.accept shift l
  | none => left

def reset : RealignRuntime := ⟨[], [], true⟩

end RealignRuntime

/-! ### The system -/

/-- What the surroundings do in one cycle. `wires` is on the input bus while no line is
offered. -/
structure PipeEnv where
  offer : Bool
  wires : RxLine
  hdrRdy : Bool
  dataRdy : Bool
  reqRdy : Bool
  respond : Bool
  realignRdy : Bool
  present : Bool

/-- The two halves with the FIFO, the checksum unit and the realigner between them, the lines
still to be offered and the deliveries. -/
structure PipeSystem where
  pipeIn : FormatPipeIn
  fifo : Fifo1r1w 6 RxLine
  chk : ChksumCalc
  pipeOut : FormatPipeOut
  realign : RealignRuntime
  src : List RxLine
  hdrs : List HdrOut
  data : List (Beat (BitVec 8))

namespace PipeSystem

variable (s : PipeSystem) (e : PipeEnv)

def inWires : PipeInWires where
  srcVal := e.offer && !s.src.isEmpty
  src := if e.offer then s.src.headD e.wires else e.wires
  cmdRdy := s.chk.cmdRdy
  reqRdy := e.reqRdy && s.chk.transferIn
  fifoFull := s.fifo.full

/-- The FIFO has no data before its first read. -/
def outWires : PipeOutWires where
  resp := if e.respond then s.chk.out.head? else none
  fifoEmpty := s.fifo.empty
  fifoData := s.fifo.rdData.getD default
  hdrRdy := e.hdrRdy
  realignRdy := e.realignRdy

/-- One clock cycle. -/
def cycle : PipeSystem :=
  let i := s.inWires e
  let o := s.outWires e
  let sent := e.present && e.dataRdy
  { pipeIn := s.pipeIn.next i
    fifo := s.fifo.step (s.pipeIn.fifoWr i) (s.pipeOut.rdReq o)
    chk := s.chk.step (s.pipeIn.dataOut i) (if i.reqRdy then s.pipeIn.req else none)
      (s.pipeOut.respRdy o)
    pipeOut := s.pipeOut.next o
    realign := s.realign.step sent
      (if s.pipeOut.realignVal o && e.realignRdy then some (s.pipeOut.realignShift, o.fifoData)
        else none)
    src := if s.pipeIn.accept i then s.src.tail else s.src
    hdrs := if e.hdrRdy then s.hdrs ++ (s.pipeOut.hdrOut o).toList else s.hdrs
    data := if sent then s.data ++ s.realign.out.head?.toList else s.data }

/-- After reset, with the packets to come; the registers without a reset hold anything. -/
structure Init (pkts : List IpPacket) (s : PipeSystem) : Prop where
  pipeIn : s.pipeIn.chksumState = .ready ∧ s.pipeIn.dataState = .waiting
  fifo : s.fifo.Init
  chk : s.chk = .reset
  pipeOut : s.pipeOut.dataState = .ready ∧ s.pipeOut.metaState = .waiting
  realign : s.realign = .reset
  src : s.src = linesOf pkts
  empty : s.hdrs = [] ∧ s.data = []

/-- One of these states. -/
def reset (pkts : List IpPacket) : PipeSystem :=
  ⟨⟨.ready, .waiting, 0, default⟩, ⟨fun _ => default, 0, 0, none⟩, .reset,
    ⟨.ready, .waiting, default, false, 0⟩, .reset, linesOf pkts, [], []⟩

theorem init_reset (pkts : List IpPacket) : Init pkts (reset pkts) :=
  ⟨⟨rfl, rfl⟩, ⟨rfl, rfl, rfl⟩, rfl, ⟨rfl, rfl⟩, rfl, rfl, ⟨rfl, rfl⟩⟩

def step : Option PipeSystem := some (s.cycle e)

end PipeSystem

/-- Everything around the formatter is ready. -/
def PipeEnv.calm : PipeEnv := ⟨true, default, true, true, true, true, true, true⟩

end TcpHw
