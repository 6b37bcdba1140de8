import TcpHw.Basic
import TcpHw.Frontend.ChksumPath
import TcpHw.Frontend.UdpStream

/-!
# TCP headers and the TCP transmit path

`tcp_tx_chksum_input_ctrl`, a checksum unit and `tcp_tx_chksum_output_ctrl` make a stream of IP
payloads out of TCP headers and payloads. The two controllers are the general ones with the widths
and the first line of TCP: 32 bytes of headers go in front, and the pseudo header is cut off again.
-/
namespace TcpHw

open Bytes Framing Trace

set_option autoImplicit false

/-! ### Headers -/

namespace TcpPktHdr

/-- The 16 bytes before the checksum. -/
def front (h : TcpPktHdr) : BitVec (8 * 16) :=
  h.srcPort ++ h.dstPort ++ h.seqNum ++ h.ackNum ++ h.rawDataOffset ++ h.reserved ++ h.flags ++
    h.winSize

def bits (h : TcpPktHdr) : BitVec (8 * 20) := h.front ++ h.chksum ++ h.urgPointer

def cast (x : BitVec (8 * 20)) : TcpPktHdr where
  srcPort := x.extractLsb' 144 16
  dstPort := x.extractLsb' 128 16
  seqNum := x.extractLsb' 96 32
  ackNum := x.extractLsb' 64 32
  rawDataOffset := x.extractLsb' 60 4
  reserved := x.extractLsb' 57 3
  flags := x.extractLsb' 48 9
  winSize := x.extractLsb' 32 16
  chksum := x.extractLsb' 16 16
  urgPointer := x.extractLsb' 0 16

theorem cast_bits (h : TcpPktHdr) : cast h.bits = h := by
  obtain ⟨sp, dp, sq, ak, off, rv, fl, w, c, u⟩ := h
  simp only [cast, bits, front, mk.injEq]
  refine ⟨?_, ?_, ?_, ?_, ?_, ?_, ?_, ?_, ?_, ?_⟩ <;>
    · refine BitVec.eq_of_getLsbD_eq fun j hj => ?_
      simp only [BitVec.getLsbD_extractLsb', BitVec.getLsbD_append, hj]
      grind

/-- The two bytes of a field of 16 bits. -/
theorem lineBytes_word (c : BitVec (8 * 2)) :
    lineBytes c = [c.extractLsb' 8 8, c.extractLsb' 0 8] := rfl

theorem lineBytes_bits (h : TcpPktHdr) : lineBytes h.bits = lineBytes h.front ++
    ([h.chksum.extractLsb' 8 8, h.chksum.extractLsb' 0 8] ++ lineBytes (n := 2) h.urgPointer) := by
  have hword : lineBytes (n := 2) h.chksum = _ := lineBytes_word h.chksum
  have houter : lineBytes h.bits =
      lineBytes (n := 18) (h.front ++ h.chksum) ++ lineBytes (n := 2) h.urgPointer :=
    lineBytes_append (m := 18) (n := 2) (h.front ++ h.chksum) h.urgPointer
  have hinner : lineBytes (n := 18) (h.front ++ h.chksum) =
      lineBytes h.front ++ lineBytes (n := 2) h.chksum :=
    lineBytes_append (m := 16) (n := 2) h.front h.chksum
  rw [houter, hinner, hword, List.append_assoc]

/-- `raw_data_offset << 2` -/
def hdrBytes (h : TcpPktHdr) : BitVec 16 := h.rawDataOffset.setWidth 16 <<< 2

theorem toNat_hdrBytes (h : TcpPktHdr) :
    h.hdrBytes.toNat = 4 * h.rawDataOffset.toNat := by
  have hlt := h.rawDataOffset.isLt
  rw [hdrBytes, BitVec.toNat_shiftLeft, BitVec.toNat_setWidth, Nat.shiftLeft_eq]
  omega

end TcpPktHdr

/-! ### The controllers -/

/-- The header of a request on the bus. -/
structure TcpReqHdr where
  srcIp : BitVec 32
  dstIp : BitVec 32
  payloadLen : BitVec 16
  timestamp : Timestamp
  tcpHdr : TcpPktHdr
  deriving DecidableEq, Inhabited

/-- `pseudo_hdr_cast`, on the transmit and on the receive side. -/
def tcpPseudoHdr (srcIp dstIp : BitVec 32) (length : BitVec 16) : ChksumPseudoHdr where
  sourceAddr := srcIp
  destAddr := dstIp
  length := length
  zeros := 0
  protocol := 6

/-- `{pseudo_hdr_cast, tcp_hdr_input}` -/
def TcpReqHdr.bits (h : TcpReqHdr) : BitVec (8 * 32) :=
  (tcpPseudoHdr h.srcIp h.dstIp (h.payloadLen + 20)).bits ++ { h.tcpHdr with chksum := 0 }.bits

/-- `tcp_tx_chksum_input_ctrl` on its wires. -/
def tcpTxInput (hdrVal : Bool) (hdr : TcpReqHdr) (dataVal : Bool) (line : DataLine)
    (cmdRdy reqRdy : Bool) : InputWires 32 where
  hdrVal := hdrVal
  hdr := hdr.bits
  hdrOnly := hdr.payloadLen == 0
  timestamp := hdr.timestamp
  dataVal := dataVal
  line := line
  cmdRdy := cmdRdy
  reqRdy := reqRdy

/-- `CHKSUM_OFFSET_BYTES`: 64 bytes less the pseudo header and the TCP header, and two bytes of
urgent pointer, in both directions. -/
def tcpChksumCmd : ChksumCmd where
  enable := true
  offset := 34

/-- `tcp_tx_chksum_output_ctrl`: `resp_tlast` decides whether more lines follow. -/
def tcpTxOutput : OutputCfg where
  first l :=
    some ((ChksumPseudoHdr.cast (l.data.extractLsb' (8 * 52) (8 * 12))).length,
      if l.last then .outputLast else .output)
  storesIdle := true

/-- The header port of the path. -/
structure TcpIpHdr where
  srcIp : BitVec 32
  dstIp : BitVec 32
  tcpLen : BitVec 16
  timestamp : Timestamp
  deriving DecidableEq, Inhabited

/-- `chksum_dst_tx_src_ip` and its neighbours, from the next values of the registers. -/
def tcpTxHdr (hdr : BitVec (8 * 12)) (timestamp : Timestamp) : TcpIpHdr where
  srcIp := (ChksumPseudoHdr.cast hdr).sourceAddr
  dstIp := (ChksumPseudoHdr.cast hdr).destAddr
  tcpLen := (ChksumPseudoHdr.cast hdr).length
  timestamp := timestamp

/-! ### The transmit path -/

/-- A transmit request: the length field tells the payload, which comes in full lines. -/
structure TcpRequest where
  hdr : TcpReqHdr
  payload : List (BitVec 8)
  lines : List DataLine
  len : hdr.payloadLen.toNat = payload.length
  fits : payload.length + 20 < 2 ^ 16
  carried : lines.map DataLine.read = beats 64 payload

/-- What the surroundings do in one cycle. The last three fields are what is on the buses while
nothing is valid there. -/
structure TcpTxEnv where
  offerHdr : Bool
  offerData : Bool
  reqRdy : Bool
  respond : Bool
  hdrRdy : Bool
  dataRdy : Bool
  hdrBus : TcpReqHdr
  lineBus : DataLine
  respBus : AxisLine

/-- The controllers and the checksum unit, what the source still has to offer and what was given
out. -/
structure TcpTxSystem where
  inp : InputCtrl 32
  chk : ChksumUnit
  out : OutputCtrl 12
  srcHdrs : List TcpRequest
  srcData : List DataLine
  hdrs : List TcpIpHdr
  data : List (Beat (BitVec 8))

namespace TcpTxSystem

variable (mask : Line → BitVec 6 → Bool → Line) (s : TcpTxSystem) (e : TcpTxEnv)

def inWires : InputWires 32 :=
  tcpTxInput (e.offerHdr && !s.srcHdrs.isEmpty)
    (if e.offerHdr then (s.srcHdrs.head?.map TcpRequest.hdr).getD e.hdrBus else e.hdrBus)
    (e.offerData && !s.srcData.isEmpty)
    (if e.offerData then s.srcData.headD e.lineBus else e.lineBus)
    s.chk.cmdRdy (e.reqRdy && s.chk.transferIn)

def outWires : OutputWires where
  respVal := s.chk.valid
  resp := s.chk.resp.getD e.respBus
  hdrRdy := e.hdrRdy
  dataRdy := e.dataRdy

/-- The header port. -/
def dstHdr : TcpIpHdr :=
  tcpTxHdr (s.out.hdrNext tcpTxOutput (s.outWires e)) (s.out.timestampNext (s.outWires e))

/-- The data port, behind `data_masker`. -/
def dstLine : DataLine :=
  let l := s.out.dataOut (s.outWires e)
  { l with data := mask l.data l.padbytes l.last }

/-- One clock cycle. -/
def cycle : TcpTxSystem :=
  let i := s.inWires e
  let o := s.outWires e
  { inp := s.inp.next i
    chk := s.chk.step (if s.inp.takesHdr i then some tcpChksumCmd else none) (s.inp.sent i)
      (s.out.takes o) e.respond
    out := s.out.next tcpTxOutput o
    srcHdrs := if s.inp.takesHdr i then s.srcHdrs.tail else s.srcHdrs
    srcData := if s.inp.takesData i then s.srcData.tail else s.srcData
    hdrs := if s.out.givesHdr o then s.hdrs ++ [s.dstHdr e] else s.hdrs
    data := if s.out.gives o then s.data ++ [(s.dstLine mask e).read] else s.data }

def step : Option TcpTxSystem := some (s.cycle mask e)

/-- After reset, with the requests to come. -/
structure Init (reqs : List TcpRequest) (s : TcpTxSystem) : Prop where
  inp : s.inp.state = .ready
  chk : s.chk.Reset
  out : s.out.state = .ready ∧ s.out.hdrState = .waiting
  src : s.srcHdrs = reqs ∧ s.srcData = reqs.flatMap TcpRequest.lines
  empty : s.hdrs = [] ∧ s.data = []

end TcpTxSystem

end TcpHw
