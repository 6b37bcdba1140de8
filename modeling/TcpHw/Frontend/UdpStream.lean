import TcpHw.Frontend.ChksumOutput
import TcpHw.Lib.Trace

/-!
# The UDP transmit and receive paths, back to back

`udp_tx_chksum_input_ctrl`, a checksum unit and `udp_tx_chksum_output_ctrl` make a stream of IP
payloads out of UDP requests. `udp_rx_chksum_input_ctrl`, a checksum unit and
`udp_rx_chksum_output_ctrl` take the stream apart again. `data_masker`, which clears the padding of
a last line, is a parameter.
-/
namespace TcpHw

open Bytes Framing Trace

set_option autoImplicit false

/-! ### Headers -/

/-- `udp_pkt_hdr` -/
structure UdpPktHdr where
  srcPort : BitVec 16
  dstPort : BitVec 16
  length : BitVec 16
  chksum : BitVec 16
  deriving DecidableEq, Inhabited

namespace UdpPktHdr

def bits (h : UdpPktHdr) : BitVec (8 * 8) := h.srcPort ++ h.dstPort ++ h.length ++ h.chksum

def cast (x : BitVec (8 * 8)) : UdpPktHdr where
  srcPort := x.extractLsb' 48 16
  dstPort := x.extractLsb' 32 16
  length := x.extractLsb' 16 16
  chksum := x.extractLsb' 0 16

theorem cast_bits (h : UdpPktHdr) : cast h.bits = h := by
  obtain ⟨s, d, l, c⟩ := h
  simp only [cast, bits, mk.injEq]
  refine ⟨?_, ?_, ?_, ?_⟩ <;>
    · refine BitVec.eq_of_getLsbD_eq fun j hj => ?_
      simp only [BitVec.getLsbD_extractLsb', BitVec.getLsbD_append, hj]
      grind

end UdpPktHdr

/-- `chksum_pseudo_hdr` -/
structure ChksumPseudoHdr where
  sourceAddr : BitVec 32
  destAddr : BitVec 32
  length : BitVec 16
  zeros : BitVec 8
  protocol : BitVec 8
  deriving DecidableEq, Inhabited

namespace ChksumPseudoHdr

def bits (h : ChksumPseudoHdr) : BitVec (8 * 12) :=
  h.sourceAddr ++ h.destAddr ++ h.length ++ h.zeros ++ h.protocol

def cast (x : BitVec (8 * 12)) : ChksumPseudoHdr where
  sourceAddr := x.extractLsb' 64 32
  destAddr := x.extractLsb' 32 32
  length := x.extractLsb' 16 16
  zeros := x.extractLsb' 8 8
  protocol := x.extractLsb' 0 8

theorem cast_bits (h : ChksumPseudoHdr) : cast h.bits = h := by
  obtain ⟨s, d, l, z, p⟩ := h
  simp only [cast, bits, mk.injEq]
  refine ⟨?_, ?_, ?_, ?_, ?_⟩ <;>
    · refine BitVec.eq_of_getLsbD_eq fun j hj => ?_
      simp only [BitVec.getLsbD_extractLsb', BitVec.getLsbD_append, hj]
      grind

end ChksumPseudoHdr

/-! ### The controllers -/

/-- The header of a request on the bus. -/
structure UdpReqHdr where
  srcIp : BitVec 32
  dstIp : BitVec 32
  udpHdr : UdpPktHdr
  timestamp : Timestamp
  deriving DecidableEq, Inhabited

/-- `pseudo_hdr_cast` -/
def udpPseudoHdr (srcIp dstIp : BitVec 32) (length : BitVec 16) : ChksumPseudoHdr where
  sourceAddr := srcIp
  destAddr := dstIp
  length := length
  zeros := 0
  protocol := 17

/-- `{pseudo_hdr_cast, udp_hdr_input}` -/
def UdpReqHdr.bits (h : UdpReqHdr) : BitVec (8 * 20) :=
  (udpPseudoHdr h.srcIp h.dstIp h.udpHdr.length).bits ++ { h.udpHdr with chksum := 0 }.bits

/-- `udp_tx_chksum_input_ctrl` on its wires. -/
def udpTxInput (hdrVal : Bool) (hdr : UdpReqHdr) (dataVal : Bool) (line : DataLine)
    (cmdRdy reqRdy : Bool) : InputWires 20 where
  hdrVal := hdrVal
  hdr := hdr.bits
  hdrOnly := hdr.udpHdr.length == 8
  timestamp := hdr.timestamp
  dataVal := dataVal
  line := line
  cmdRdy := cmdRdy
  reqRdy := reqRdy

/-- `req_cmd_csum_offset`: 64 bytes less the pseudo header and the UDP header, in both directions. -/
def udpChksumCmd : ChksumCmd where
  enable := true
  offset := 44

/-- `udp_tx_chksum_output_ctrl` -/
def udpTxOutput : OutputCfg where
  first l :=
    let length := (ChksumPseudoHdr.cast (l.data.extractLsb' (8 * 52) (8 * 12))).length
    some (length, if length.toNat ≤ 52 then .outputLast else .output)
  storesIdle := true

/-- The header port between the two paths. -/
structure UdpIpHdr where
  srcIp : BitVec 32
  dstIp : BitVec 32
  udpLen : BitVec 16
  timestamp : Timestamp

/-- `udp_to_stream_dst_tx_src_ip` and its neighbours, from the next values of the registers. -/
def udpTxHdr (hdr : BitVec (8 * 12)) (timestamp : Timestamp) : UdpIpHdr where
  srcIp := (ChksumPseudoHdr.cast hdr).sourceAddr
  dstIp := (ChksumPseudoHdr.cast hdr).destAddr
  udpLen := (ChksumPseudoHdr.cast hdr).length
  timestamp := timestamp

/-- `udp_rx_chksum_input_ctrl` on its wires. -/
def udpRxInput (hdrVal : Bool) (hdr : UdpIpHdr) (dataVal : Bool) (line : DataLine)
    (cmdRdy reqRdy : Bool) : InputWires 12 where
  hdrVal := hdrVal
  hdr := (udpPseudoHdr hdr.srcIp hdr.dstIp hdr.udpLen).bits
  hdrOnly := false
  timestamp := hdr.timestamp
  dataVal := dataVal
  line := line
  cmdRdy := cmdRdy
  reqRdy := reqRdy

/-- `udp_rx_chksum_output_ctrl` -/
def udpRxOutput : OutputCfg where
  first l :=
    let hdr := UdpPktHdr.cast (l.data.extractLsb' (8 * 44) (8 * 8))
    let bytes := hdr.length - 8
    if hdr.chksum = 0 then
      some (bytes,
        if bytes = 0 then .waitTxFin else if bytes.toNat ≤ 44 then .outputLast else .output)
    else none
  storesIdle := false

/-- `chksum_pseudo_hdr_reg`, `udp_hdr_struct_reg` and `pkt_timestamp_reg` on the header port. -/
def udpRxHdr (hdr : BitVec (8 * 20)) (timestamp : Timestamp) : UdpReqHdr where
  srcIp := (ChksumPseudoHdr.cast (hdr.extractLsb' 64 96)).sourceAddr
  dstIp := (ChksumPseudoHdr.cast (hdr.extractLsb' 64 96)).destAddr
  udpHdr := UdpPktHdr.cast (hdr.setWidth 64)
  timestamp := timestamp

/-! ### The system -/

/-- A transmit request: the length field tells the payload, which comes in full lines. -/
structure UdpRequest where
  hdr : UdpReqHdr
  payload : List (BitVec 8)
  lines : List DataLine
  len : hdr.udpHdr.length.toNat = 8 + payload.length
  carried : lines.map DataLine.read = beats 64 payload

/-- What the surroundings do in one cycle. The two links between the paths may be held up. The last
four fields are what is on the buses while nothing is valid there. -/
structure UdpEnv where
  offerHdr : Bool
  offerData : Bool
  txReqRdy : Bool
  txRespond : Bool
  linkHdr : Bool
  linkData : Bool
  rxReqRdy : Bool
  rxRespond : Bool
  hdrRdy : Bool
  dataRdy : Bool
  hdrBus : UdpReqHdr
  lineBus : DataLine
  txBus : AxisLine
  rxBus : AxisLine

/-- The controllers and checksum units, what the source still has to offer and what was
delivered. -/
structure UdpSystem where
  txIn : InputCtrl 20
  txChk : ChksumUnit
  txOut : OutputCtrl 12
  rxIn : InputCtrl 12
  rxChk : ChksumUnit
  rxOut : OutputCtrl 20
  srcHdrs : List UdpRequest
  srcData : List DataLine
  hdrs : List UdpReqHdr
  data : List (Beat (BitVec 8))

namespace UdpSystem

variable (mask : Line → BitVec 6 → Bool → Line) (s : UdpSystem) (e : UdpEnv)

def txInWires : InputWires 20 :=
  udpTxInput (e.offerHdr && !s.srcHdrs.isEmpty)
    (if e.offerHdr then (s.srcHdrs.head?.map UdpRequest.hdr).getD e.hdrBus else e.hdrBus)
    (e.offerData && !s.srcData.isEmpty)
    (if e.offerData then s.srcData.headD e.lineBus else e.lineBus)
    s.txChk.cmdRdy (e.txReqRdy && s.txChk.transferIn)

/-- `s_axis_tready` of the receive path's unit. -/
def rxReqRdy : Bool := e.rxReqRdy && s.rxChk.transferIn

def txOutWires : OutputWires where
  respVal := s.txChk.valid
  resp := s.txChk.resp.getD e.txBus
  hdrRdy := e.linkHdr && s.rxIn.hdrRdy s.rxChk.cmdRdy
  dataRdy := e.linkData && s.rxIn.dataRdy (s.rxReqRdy e)

/-- The header port between the paths. -/
def linkHdr : UdpIpHdr :=
  udpTxHdr (s.txOut.hdrNext udpTxOutput (s.txOutWires e)) (s.txOut.timestampNext (s.txOutWires e))

/-- The data port between the paths. -/
def linkLine : DataLine :=
  let l := s.txOut.dataOut (s.txOutWires e)
  { l with data := mask l.data l.padbytes l.last }

def rxInWires : InputWires 12 :=
  udpRxInput (e.linkHdr && s.txOut.hdrVal) (s.linkHdr e)
    (e.linkData && s.txOut.dataVal (s.txOutWires e)) (s.linkLine mask e) s.rxChk.cmdRdy
    (s.rxReqRdy e)

def rxOutWires : OutputWires where
  respVal := s.rxChk.valid
  resp := s.rxChk.resp.getD e.rxBus
  hdrRdy := e.hdrRdy
  dataRdy := e.dataRdy

/-- One clock cycle. -/
def cycle : UdpSystem :=
  let i := s.txInWires e
  let o := s.txOutWires e
  let j := s.rxInWires mask e
  let q := s.rxOutWires e
  { txIn := s.txIn.next i
    txChk := s.txChk.step (if s.txIn.takesHdr i then some udpChksumCmd else none) (s.txIn.sent i)
      (s.txOut.takes o) e.txRespond
    txOut := s.txOut.next udpTxOutput o
    rxIn := s.rxIn.next j
    rxChk := s.rxChk.step (if s.rxIn.takesHdr j then some udpChksumCmd else none) (s.rxIn.sent j)
      (s.rxOut.takes q) e.rxRespond
    rxOut := s.rxOut.next udpRxOutput q
    srcHdrs := if s.txIn.takesHdr i then s.srcHdrs.tail else s.srcHdrs
    srcData := if s.txIn.takesData i then s.srcData.tail else s.srcData
    hdrs :=
      if s.rxOut.givesHdr q then s.hdrs ++ [udpRxHdr s.rxOut.hdr s.rxOut.timestamp] else s.hdrs
    data := if s.rxOut.gives q then s.data ++ [(s.rxOut.dataOut q).read] else s.data }

def step : Option UdpSystem := some (s.cycle mask e)

/-- After reset, with the requests to come. -/
structure Init (reqs : List UdpRequest) (s : UdpSystem) : Prop where
  txIn : s.txIn.state = .ready
  txChk : s.txChk.Reset
  txOut : s.txOut.state = .ready ∧ s.txOut.hdrState = .waiting
  rxIn : s.rxIn.state = .ready
  rxChk : s.rxChk.Reset
  rxOut : s.rxOut.state = .ready ∧ s.rxOut.hdrState = .waiting
  src : s.srcHdrs = reqs ∧ s.srcData = reqs.flatMap UdpRequest.lines
  empty : s.hdrs = [] ∧ s.data = []

end UdpSystem

end TcpHw
