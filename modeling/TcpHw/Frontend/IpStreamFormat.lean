import TcpHw.Frontend.IpPacket
import TcpHw.Lib.Trace

/-!
# `ip_stream_format`

The formatter that handles one packet at a time. The data machine takes the header line, sends
it to the checksum unit, waits for the checksum together with the first data line, and then
gives out the lines of the payload, each from two neighbouring lines of the input. The header
machine gives out the header once the checksum is known to be right.

The system adds the checksum unit behind `ip_rx_chksum_calc_wrap`, a source that offers the lines
of some packets in order, and the record of what has been delivered.
-/
namespace TcpHw

open Bytes Framing Trace

set_option autoImplicit false

namespace IpStreamFormat

/-- `data_state_e` -/
inductive DataState where
  | ready | ipHdrDrain | chksumLast | chksumWaitFirstData | dataOutput | dataOutputLast | drain
  | dataWaitTxFin
  deriving DecidableEq, Inhabited

/-- `hdr_state_e` -/
inductive HdrState where
  | waiting | hdrOutput | hdrWaitTxFin
  deriving DecidableEq, Inhabited

end IpStreamFormat

/-- The registers of `ip_stream_format`. -/
structure IpStreamFormat where
  dataState : IpStreamFormat.DataState
  hdrState : IpStreamFormat.HdrState
  ipHdr : IpPktHdr
  realignUpper : Line
  realignLower : Line
  ipHdrBytesLeft : BitVec 16
  payloadBytesLeft : BitVec 16
  wasLast : Bool
  pktTimestamp : Timestamp

/-- The input wires of `ip_stream_format` and the wires from the checksum unit. -/
structure FormatIn where
  srcVal : Bool
  src : RxLine
  hdrRdy : Bool
  dataRdy : Bool
  cmdRdy : Bool
  reqRdy : Bool
  resp : Option (BitVec 16)

/-- The output wires of the data machine. -/
structure FormatOut where
  srcRdy : Bool
  cmdVal : Bool
  req : Option ChksumReq
  respRdy : Bool
  data : Option (Line × Bool × BitVec 6)

namespace IpStreamFormat

variable (r : IpStreamFormat) (i : FormatIn)

/-- `{1'b1, ip_hdr_struct_reg.tot_len[MAC_PADBYTES_W-1:0]}` -/
def dataRemainder : BitVec 7 := 1#1 ++ r.ipHdr.totLen.extractLsb' 0 6

def dataPadbytes : BitVec 7 := 64#7 - r.dataRemainder

def padbytesTemp : BitVec 16 := r.ipHdrBytesLeft + (r.dataPadbytes.extractLsb' 0 6).setWidth 16

def padbytes : BitVec 6 := r.padbytesTemp.extractLsb' 0 6

/-- `realigned_data[(MAC_INTERFACE_W*2)-1 -: MAC_INTERFACE_W]` -/
def realignedData : Line := upperShl r.realignUpper r.realignLower (r.ipHdrBytesLeft <<< 3).toNat

/-- The outputs at their defaults. -/
def quiet : FormatOut := ⟨false, false, none, false, none⟩

/-- The data machine: the registers after the edge, the header state apart, and the outputs. -/
def dataComb : IpStreamFormat × FormatOut :=
  match r.dataState with
  | .ready =>
    let hdr := ipHdrCast i.src.data
    if i.srcVal && i.cmdRdy then
      ({ r with
          ipHdr := hdr
          payloadBytesLeft := hdr.totLen - hdr.hdrBytes
          ipHdrBytesLeft := hdr.hdrBytes
          realignUpper := i.src.data
          wasLast := i.src.last
          pktTimestamp := i.src.timestamp
          -- the header does not end in the first line
          dataState := if 64 / 4 < hdr.ipHdrLen.toNat then .ipHdrDrain else .chksumLast },
        { quiet with srcRdy := i.cmdRdy, cmdVal := true })
    else ({ r with pktTimestamp := i.src.timestamp }, { quiet with srcRdy := i.cmdRdy })
  | .ipHdrDrain =>
    if i.srcVal && i.reqRdy then
      ({ r with
          wasLast := i.src.last
          ipHdrBytesLeft := r.ipHdrBytesLeft - 64
          realignUpper := i.src.data
          dataState := .chksumLast },
        { quiet with srcRdy := i.reqRdy, req := some ⟨r.realignUpper, BitVec.allOnes 64, false⟩ })
    else (r, { quiet with srcRdy := i.reqRdy })
  | .chksumLast =>
    (if i.reqRdy then { r with dataState := .chksumWaitFirstData } else r,
      { quiet with
        req := some
          ⟨r.realignUpper, BitVec.allOnes 64 <<< (64 - r.ipHdrBytesLeft.toNat), true⟩ })
  | .chksumWaitFirstData =>
    match i.resp with
    | none => (r, { quiet with respRdy := true })
    | some result =>
      -- the last line is already in: only the checksum is missing
      if r.wasLast then
        (if result == 0 then { r with dataState := .dataOutputLast }
          else { r with dataState := .dataWaitTxFin },
          { quiet with respRdy := true })
      else if i.srcVal then
        ({ r with
            wasLast := i.src.last
            realignLower := i.src.data
            dataState :=
              if result == 0 then (if i.src.last then .dataOutputLast else .dataOutput)
              else (if i.src.last then .dataWaitTxFin else .drain) },
          { quiet with srcRdy := true, respRdy := true })
      -- the response is taken although the data line is missing
      else (r, { quiet with respRdy := true })
  | .dataOutput =>
    (if i.dataRdy && i.srcVal then
        { r with
          wasLast := i.src.last
          payloadBytesLeft := r.payloadBytesLeft - 64
          realignUpper := r.realignLower
          realignLower := i.src.data
          dataState := if i.src.last then .dataOutputLast else .dataOutput }
      else r,
      { quiet with
        srcRdy := i.dataRdy
        data := if i.srcVal then some (r.realignedData, false, 0) else none })
  | .dataOutputLast =>
    (if i.dataRdy then
        if 64 < r.payloadBytesLeft.toNat then
          { r with
            realignUpper := r.realignLower
            realignLower := 0
            payloadBytesLeft := r.payloadBytesLeft - 64 }
        else { r with payloadBytesLeft := 0, dataState := .dataWaitTxFin }
      else r,
      { quiet with
        data := some (r.realignedData, decide (r.payloadBytesLeft.toNat ≤ 64), r.padbytes) })
  | .drain =>
    -- the line is looked at and not accepted
    (if i.srcVal && i.src.last then { r with dataState := .dataWaitTxFin } else r, quiet)
  | .dataWaitTxFin =>
    (if r.hdrState = .hdrWaitTxFin then { r with dataState := .ready } else r, quiet)

/-- The header machine. -/
def hdrNext : HdrState :=
  match r.hdrState with
  | .waiting =>
    if r.dataState = .chksumWaitFirstData then
      match i.resp with
      | none => .waiting
      | some result => if result == 0 then .hdrOutput else .hdrWaitTxFin
    else .waiting
  | .hdrOutput => if i.hdrRdy then .hdrWaitTxFin else .hdrOutput
  | .hdrWaitTxFin => if r.dataState = .dataWaitTxFin then .waiting else .hdrWaitTxFin

/-- The header port. -/
def hdrOut : Option HdrOut :=
  if r.hdrState = .hdrOutput then some ⟨r.ipHdr, r.pktTimestamp⟩ else none

def next : IpStreamFormat := { (r.dataComb i).1 with hdrState := r.hdrNext i }

def outputs : FormatOut := (r.dataComb i).2

end IpStreamFormat

/-! ### `ip_rx_chksum_calc_wrap` -/

/-- `state_e` of the wrapper. -/
inductive ChksumWrap where
  | wait | drain
  deriving DecidableEq, Inhabited

namespace ChksumWrap

/-- `ip_chksum_wrap_rdy` -/
def wrapRdy (w : ChksumWrap) (respRdy : Bool) : Bool :=
  match w with
  | .wait => respRdy
  | .drain => true

/-- `ip_chksum_resp_val` and `ip_chksum_resp_result` -/
def resp (w : ChksumWrap) (wrap : Option ChksumResp) : Option (BitVec 16) :=
  match w with
  | .wait => wrap.map (·.chksum)
  | .drain => none

def next (w : ChksumWrap) (wrap : Option ChksumResp) (respRdy : Bool) : ChksumWrap :=
  match w, wrap with
  | .wait, some q => if respRdy && !q.last then .drain else .wait
  | .drain, some q => if q.last then .wait else .drain
  | w, none => w

end ChksumWrap

/-! ### The system -/

/-- What the surroundings of the formatter do in one cycle. `wires` is on the input bus while no
line is offered. -/
structure FormatEnv where
  offer : Bool
  wires : RxLine
  hdrRdy : Bool
  dataRdy : Bool
  reqRdy : Bool
  respond : Bool

/-- The formatter, its checksum unit, the lines still to be offered and the deliveries. -/
structure FormatSystem where
  fmt : IpStreamFormat
  wrap : ChksumWrap
  chk : ChksumCalc
  src : List RxLine
  hdrs : List HdrOut
  data : List (Beat (BitVec 8))

namespace FormatSystem

variable (s : FormatSystem) (e : FormatEnv)

/-- The line at the output of the checksum unit. -/
def wrapData : Option ChksumResp := if e.respond then s.chk.out.head? else none

def inputs : FormatIn where
  srcVal := e.offer && !s.src.isEmpty
  src := if e.offer then s.src.headD e.wires else e.wires
  hdrRdy := e.hdrRdy
  dataRdy := e.dataRdy
  cmdRdy := s.chk.cmdRdy
  reqRdy := e.reqRdy && s.chk.transferIn
  resp := s.wrap.resp (s.wrapData e)

/-- One clock cycle. -/
def cycle : FormatSystem :=
  let i := s.inputs e
  let o := s.fmt.outputs i
  { fmt := s.fmt.next i
    wrap := s.wrap.next (s.wrapData e) o.respRdy
    chk := s.chk.step o.cmdVal (if i.reqRdy then o.req else none)
      ((s.wrapData e).isSome && s.wrap.wrapRdy o.respRdy)
    src := if i.srcVal && o.srcRdy then s.src.tail else s.src
    hdrs := if e.hdrRdy then s.hdrs ++ s.fmt.hdrOut.toList else s.hdrs
    data :=
      match o.data with
      | some (data, last, padbytes) =>
        if e.dataRdy then s.data ++ [readBeat data last padbytes] else s.data
      | none => s.data }

/-- After reset, with the packets to come. -/
structure Init (pkts : List IpPacket) (s : FormatSystem) : Prop where
  dataState : s.fmt.dataState = .ready
  hdrState : s.fmt.hdrState = .waiting
  ipHdr : s.fmt.ipHdr = ⟨0, 0, 0, 0, 0, 0, 0, 0, 0, 0, 0⟩
  realign : s.fmt.realignUpper = 0 ∧ s.fmt.realignLower = 0
  left : s.fmt.ipHdrBytesLeft = 0 ∧ s.fmt.payloadBytesLeft = 0
  wasLast : s.fmt.wasLast = false
  wrap : s.wrap = .wait
  chk : s.chk = .reset
  src : s.src = linesOf pkts
  empty : s.hdrs = [] ∧ s.data = []

def step : Option FormatSystem := some (s.cycle e)

end FormatSystem

end TcpHw
