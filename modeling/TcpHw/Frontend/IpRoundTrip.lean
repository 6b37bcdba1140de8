import TcpHw.Frontend.IpToEthstream
import TcpHw.Frontend.PipeDelivery

/-!
# IP requests come back as they were sent

`ip_hdr_assembler_pipe`, `ip_to_ethstream` and `ip_stream_format_pipe` follow each other. The lines
that `ip_to_ethstream` owes are a function of the requests, and the formatter behind it runs as it
does in front of a source that has these lines to offer. What it delivers for them is known from
its own runs, so what is left is to follow the headers and the lines up to the formatter.
-/
namespace TcpHw

open Bytes Framing Trace

set_option autoImplicit false

/-! ### Packets -/

/-- A checksum takes the place of the zeros. -/
theorem IpPktHdr.bits_chksum (h : IpPktHdr) (c : BitVec 16) (h0 : h.chksum = 0) :
    { h with chksum := c }.bits = setField h.bits 8 c := by
  obtain ⟨v, l, t, n, i, f, tt, p, c0, s, d⟩ := h
  simp only at h0
  subst h0
  refine BitVec.eq_of_getLsbD_eq fun j hj => ?_
  simp only [setField, BitVec.getLsbD_or, BitVec.getLsbD_and, BitVec.getLsbD_not,
    BitVec.getLsbD_shiftLeft, BitVec.getLsbD_setWidth, BitVec.getLsbD_allOnes, bits,
    BitVec.getLsbD_append]
  grind

namespace IpRequest

variable (r : IpRequest)

/-- The header with its checksum. -/
def sealedHdr : IpPktHdr :=
  { r.hdr.ipHdr with chksum := onesChksum (lineBytes r.hdr.ipHdr.bits) }

theorem lineBytes_sealedHdr :
    lineBytes r.sealedHdr.bits = sealed 10 (lineBytes r.hdr.ipHdr.bits) := by
  rw [sealedHdr, IpPktHdr.bits_chksum _ _ rfl, lineBytes_setField _ _ (by decide)]
  rfl

theorem toNat_totLen : r.sealedHdr.totLen.toNat = 20 + r.payload.length := by
  have hlen := r.len
  have hfits := r.fits
  show (20 + r.hdr.dataPayloadLen).toNat = _
  rw [BitVec.toNat_add, hlen]
  show (20 + r.payload.length) % 65536 = _
  omega

/-- The packet in front of `ip_to_ethstream`. -/
def ethPkt : EthPkt where
  hdr := r.sealedHdr.bits
  lines := r.lines
  timestamp := r.hdr.timestamp
  carried := ⟨_, r.carried⟩
  hasPayload := by
    have hlen := r.toNat_totLen
    have hpos := r.carried.1
    rw [IpPktHdr.cast_bits]
    intro h
    rw [h] at hlen
    have h20 : (20 : BitVec 16).toNat = 20 := rfl
    omega

theorem frame_carries : Carries (r.ethPkt.frame.map RxLine.line)
    (lineBytes r.sealedHdr.bits ++ r.payload) :=
  ethLines_carries _ r.carried _

theorem frame_spec : Framed r.ethPkt.frame (20 + r.payload.length) ∧
    (flatBytes r.ethPkt.frame).take (20 + r.payload.length) =
      lineBytes r.sealedHdr.bits ++ r.payload := by
  have hspec := framed_of_carries r.frame_carries
  rw [List.length_append, length_lineBytes] at hspec
  exact hspec

/-- The first line on the receive bus. -/
def head : RxLine := r.ethPkt.frame.headD default

theorem frame_eq : r.ethPkt.frame = r.head :: r.ethPkt.frame.tail := by
  have hne := r.frame_spec.1.ne_nil
  obtain ⟨l, t, hl⟩ := List.exists_cons_of_ne_nil hne
  simp [head, hl]

theorem head_bytes : (lineBytes r.head.data).take 20 = lineBytes r.sealedHdr.bits := by
  have hlen : (lineBytes r.head.data).length = 64 := length_lineBytes _
  have hbits : (lineBytes r.sealedHdr.bits).length = 20 := length_lineBytes _
  have hbytes := congrArg (List.take 20) r.frame_spec.2
  rw [List.take_take, Nat.min_eq_left (by omega), List.take_append_of_le_length (by omega),
    List.take_of_length_le (Nat.le_of_eq hbits), r.frame_eq, flatBytes_cons,
    List.take_append_of_le_length (by omega)] at hbytes
  exact hbytes

theorem head_cast : ipHdrCast r.head.data = r.sealedHdr := by
  have hcut : r.head.data.extractLsb' (8 * 44) (8 * 20) = r.sealedHdr.bits := by
    apply lineBytes_inj
    rw [lineBytes_extract r.head.data (by decide), r.head_bytes]
  rw [ipHdrCast_eq, hcut, IpPktHdr.cast_bits]

/-- The packet in front of the formatter. -/
def ipPacket : IpPacket where
  head := r.head
  tail := r.ethPkt.frame.tail
  tlen := 20 + r.payload.length
  hdrLen := by
    rw [r.head_cast]
    exact Nat.le_refl 5
  hasPayload := by
    have hpos := r.carried.1
    have hlen : r.sealedHdr.hdrBytes.toNat = 20 := rfl
    rw [r.head_cast, hlen]
    omega
  framed := by
    rw [← r.frame_eq]
    exact r.frame_spec.1

theorem head_time : r.head.timestamp = r.hdr.timestamp := by
  obtain ⟨l, t, hl⟩ := List.exists_cons_of_ne_nil r.carried.ne_nil
  simp only [head, EthPkt.frame, ethPkt, hl, ethLines]
  split_ifs <;> rfl

/-- The checksum of the header is right. -/
theorem ipPacket_good : r.ipPacket.good = true := by
  have hbyte : byte r.hdr.ipHdr.bits 10 = 0#8 ∧ byte r.hdr.ipHdr.bits 11 = 0#8 := by
    constructor <;>
      · refine BitVec.eq_of_getLsbD_eq fun j hj => ?_
        rw [getLsbD_byte _ _ hj]
        simp only [IpPktHdr.bits, IpReqHdr.ipHdr, BitVec.getLsbD_append]
        grind
  have hzero := onesChksum_setPair (lineBytes r.hdr.ipHdr.bits) 5
    (by simp [lineBytes, hbyte.1]) (by simp [lineBytes, hbyte.2])
  have hlen : r.ipPacket.hlen = 20 := by
    show (ipHdrCast r.head.data).hdrBytes.toNat = 20
    rw [r.head_cast]
    rfl
  have hsum : r.ipPacket.hdrChksum = 0 := by
    show onesChksum ((lineBytes r.head.data).take r.ipPacket.hlen) = 0
    rw [hlen, r.head_bytes, r.lineBytes_sealedHdr]
    exact hzero
  simp [IpPacket.good, hsum]

/-- What the formatter owes for a request. -/
def owed : HdrOut := ⟨r.sealedHdr, r.hdr.timestamp⟩

/-- A header says the same as the request. -/
structure Matches (h : HdrOut) : Prop where
  source : h.hdr.sourceAddr = r.hdr.srcIpAddr
  dest : h.hdr.destAddr = r.hdr.dstIpAddr
  protocol : h.hdr.protocolNo = r.hdr.protocol
  totLen : h.hdr.totLen.toNat = 20 + r.payload.length

theorem matches_owed : r.Matches r.owed := ⟨rfl, rfl, rfl, r.toNat_totLen⟩

theorem ipPacket_hdrOwed : r.ipPacket.hdrOwed = [r.owed] := by
  rw [IpPacket.hdrOwed, if_pos r.ipPacket_good]
  show [(⟨ipHdrCast r.head.data, r.head.timestamp⟩ : HdrOut)] = _
  rw [r.head_cast, r.head_time]
  rfl

theorem ipPacket_dataOwed : r.ipPacket.dataOwed = beats 64 r.payload := by
  have hbits : (lineBytes r.sealedHdr.bits).length = 20 := length_lineBytes _
  have hpay : r.ipPacket.payload = r.payload := by
    show ((flatBytes (r.head :: r.ethPkt.frame.tail)).take (20 + r.payload.length)).drop
      (ipHdrCast r.head.data).hdrBytes.toNat = _
    have hlen : r.sealedHdr.hdrBytes.toNat = 20 := rfl
    rw [← r.frame_eq, r.head_cast, r.frame_spec.2, hlen,
      List.drop_append_of_le_length (by omega), List.drop_of_length_le (by omega), List.nil_append]
  rw [IpPacket.dataOwed, if_pos r.ipPacket_good, hpay]

end IpRequest

theorem hdrsOf_ipPacket (reqs : List IpRequest) :
    hdrsOf (reqs.map IpRequest.ipPacket) = reqs.map IpRequest.owed := by
  induction reqs with
  | nil => rfl
  | cons r reqs ih =>
    rw [List.map_cons, hdrsOf_cons, ih, r.ipPacket_hdrOwed]
    rfl

theorem dataOf_ipPacket (reqs : List IpRequest) :
    dataOf (reqs.map IpRequest.ipPacket) = reqs.flatMap fun r => beats 64 r.payload := by
  induction reqs with
  | nil => rfl
  | cons r reqs ih => rw [List.map_cons, dataOf_cons, ih, r.ipPacket_dataOwed, List.flatMap_cons]

theorem linesOf_ipPacket (reqs : List IpRequest) :
    linesOf (reqs.map IpRequest.ipPacket) =
      (reqs.map IpRequest.ethPkt).flatMap EthPkt.frame := by
  induction reqs with
  | nil => rfl
  | cons r reqs ih =>
    have hlines : r.ipPacket.lines = r.ethPkt.frame := r.frame_eq.symm
    rw [List.map_cons, List.map_cons, List.flatMap_cons, ← ih, ← hlines]
    rfl

/-- The unit puts the checksums into the headers. -/
theorem sealAll_requests (reqs : List IpRequest) :
    sealAll 10 [] (reqs.flatMap IpRequest.toks) =
      (reqs.map IpRequest.ethPkt).map EthPkt.tok := by
  induction reqs with
  | nil => rfl
  | cons r reqs ih =>
    have hlen : (lineBytes r.hdr.ipHdr.bits).length = 20 := length_lineBytes _
    rw [List.flatMap_cons, IpRequest.toks, sealAll_frame _ _ _ _ (by omega), List.nil_append,
      sealToks_frame _ (by decide) (by omega), ih, ← r.lineBytes_sealedHdr, HdrAssembler.toks_hdr]
    rfl

/-! ### The system -/

/-- What the surroundings do in one cycle. The links between the stages may be held up. In `rx`
`offer` and `wires` do not matter, and the last three fields are what is on the buses while nothing
is valid there. -/
structure IpEnv where
  offerReq : Bool
  offerData : Bool
  chkReqRdy : Bool
  chkRespond : Bool
  linkHdr : Bool
  linkData : Bool
  ethHdrRdy : Bool
  linkLine : Bool
  rx : PipeEnv
  reqBus : IpReqHdr
  lineBus : DataLine
  respBus : AxisLine

/-- The assembler with its checksum unit and FIFO, `ip_to_ethstream`, the formatter with its
deliveries, and what the source still has to offer. The formatter has no source of its own. -/
structure IpSystem where
  asm : HdrAssembler
  chk : ChksumUnit
  fifo : Fifo1r1w 6 DataLine
  eth : IpToEthstream
  rx : PipeSystem
  srcReqs : List IpRequest
  srcData : List DataLine

namespace IpSystem

variable (s : IpSystem) (e : IpEnv)

def asmWires : AssemblerWires where
  reqVal := e.offerReq && !s.srcReqs.isEmpty
  req := if e.offerReq then (s.srcReqs.head?.map IpRequest.hdr).getD e.reqBus else e.reqBus
  dataVal := e.offerData && !s.srcData.isEmpty
  line := if e.offerData then s.srcData.headD e.lineBus else e.lineBus
  cmdRdy := s.chk.cmdRdy
  reqRdy := e.chkReqRdy && s.chk.transferIn
  fifoFull := s.fifo.full

/-- `ip_hdr_assembler_pipe_out` on one side and the formatter's `dataRdy` on the other. -/
def ethWiresWith (dataRdy : Bool) : EthWires where
  hdrVal := e.linkHdr && s.chk.valid
  hdr := (s.chk.resp.getD e.respBus).data.extractLsb' (8 * 44) (8 * 20)
  timestamp := (s.chk.resp.getD e.respBus).user
  dataVal := e.linkData && !s.fifo.empty
  line := s.fifo.rdData.getD default
  hdrRdy := e.ethHdrRdy
  dataRdy := dataRdy

/-- A line is offered to the formatter. -/
def lineVal : Bool := e.linkLine && s.eth.dstDataVal (s.ethWiresWith e false)

/-- `ip_format_src_rx_rdy`, which does not look at the line. -/
def lineRdy : Bool :=
  e.linkLine && s.rx.pipeIn.srcRdy
    { srcVal := s.lineVal e
      src := default
      cmdRdy := s.rx.chk.cmdRdy
      reqRdy := e.rx.reqRdy && s.rx.chk.transferIn
      fifoFull := s.rx.fifo.full }

def ethWires : EthWires := s.ethWiresWith e (s.lineRdy e)

/-- The formatter with the line that is offered to it. -/
def rxWith : PipeSystem :=
  { s.rx with src := if s.lineVal e then [s.eth.dataOut (s.ethWires e)] else [] }

/-- One clock cycle. -/
def cycle : IpSystem :=
  let i := s.asmWires e
  let o := s.ethWires e
  { asm := s.asm.next i
    chk := s.chk.step (if s.asm.dataOut i then some ipChksumCmd else none) (s.asm.sent i)
      (s.eth.begins o) e.chkRespond
    fifo := s.fifo.step (if s.asm.takesData i then some i.line else none) (s.eth.takesData o)
    eth := s.eth.next o
    rx := { (s.rxWith e).cycle { e.rx with offer := true } with src := [] }
    srcReqs := if s.asm.dataOut i then s.srcReqs.tail else s.srcReqs
    srcData := if s.asm.takesData i then s.srcData.tail else s.srcData }

def step : Option IpSystem := some (s.cycle e)

/-- After reset, with the requests to come. -/
structure Init (reqs : List IpRequest) (s : IpSystem) : Prop where
  asm : s.asm.chksumState = .ready ∧ s.asm.dataState = .waiting
  chk : s.chk.Reset
  fifo : s.fifo.Init
  eth : s.eth.dataState = .ready ∧ s.eth.hdrState = .waiting ∧ s.eth.lookup.state = .ready
  rx : PipeSystem.Init [] s.rx
  src : s.srcReqs = reqs ∧ s.srcData = reqs.flatMap IpRequest.lines

variable {s e} {reqs : List IpRequest} {es : List RxLine}

/-! ### The formatter behind the transmit side -/

/-- The formatter in front of a source that has the lines `es` to offer. -/
def fed (s : IpSystem) (es : List RxLine) : PipeSystem := { s.rx with src := es }

/-- The wires of the formatter. -/
def rxWires (s : IpSystem) (e : IpEnv) : PipeInWires :=
  (s.rxWith e).inWires { e.rx with offer := true }

/-- The source offers a line when it is accepted. -/
def fedEnv (s : IpSystem) (e : IpEnv) : PipeEnv :=
  { e.rx with offer := s.eth.gives (s.ethWires e), wires := (s.rxWires e).src }

/-- The input half depends on the line and on whether it is accepted. -/
theorem pipeIn_congr {r : FormatPipeIn} {i j : PipeInWires} (ha : r.accept i = r.accept j)
    (hs : i.src = j.src) (hq : i.reqRdy = j.reqRdy) :
    r.next i = r.next j ∧ r.fifoWr i = r.fifoWr j ∧ r.dataOut i = r.dataOut j := by
  have hout : r.dataOut i = r.dataOut j := by simp [FormatPipeIn.dataOut, ha]
  have hwr : r.fifoWr i = r.fifoWr j := by simp [FormatPipeIn.fifoWr, hout, ha, hs]
  have hd : r.dataNext i = r.dataNext j := by simp [FormatPipeIn.dataNext, hwr]
  have hc : r.chksumNext i = r.chksumNext j := by
    simp [FormatPipeIn.chksumNext, ha, hd, hq]
  have hst : r.storeDataLine i = r.storeDataLine j := by simp [FormatPipeIn.storeDataLine, ha]
  exact ⟨by simp [FormatPipeIn.next, hc, hd, hst, hs], hwr, hout⟩

theorem rxWires_srcVal : (s.rxWires e).srcVal = s.lineVal e := by
  show (true && !(if s.lineVal e then [s.eth.dataOut (s.ethWires e)] else []).isEmpty) = _
  cases s.lineVal e <;> rfl

/-- `ip_to_ethstream` gives a line out when the formatter accepts it. -/
theorem accept_eq : s.rx.pipeIn.accept (s.rxWires e) = s.eth.gives (s.ethWires e) := by
  have hrdy : s.rx.pipeIn.srcRdy (s.rxWires e) = s.rx.pipeIn.srcRdy
      { srcVal := (s.rxWires e).srcVal
        src := default
        cmdRdy := s.rx.chk.cmdRdy
        reqRdy := e.rx.reqRdy && s.rx.chk.transferIn
        fifoFull := s.rx.fifo.full } := rfl
  show ((s.rxWires e).srcVal && s.rx.pipeIn.srcRdy (s.rxWires e)) =
    (s.eth.dstDataVal (s.ethWires e) && s.lineRdy e)
  have hval : s.eth.dstDataVal (s.ethWires e) = s.eth.dstDataVal (s.ethWiresWith e false) := rfl
  rw [hrdy, rxWires_srcVal, hval, lineRdy, lineVal]
  cases e.linkLine <;> simp

/-- In front of a source that has the lines to offer it accepts the same. -/
theorem fed_accept (hes : s.eth.gives (s.ethWires e) = true →
      ∃ es', es = s.eth.dataOut (s.ethWires e) :: es') :
    s.rx.pipeIn.accept ((s.fed es).inWires (s.fedEnv e)) = s.eth.gives (s.ethWires e) := by
  cases hg : s.eth.gives (s.ethWires e) with
  | false =>
    show (s.eth.gives (s.ethWires e) && !es.isEmpty && _) = false
    rw [hg]
    rfl
  | true =>
    obtain ⟨es', rfl⟩ := hes hg
    have hacc := accept_eq.trans hg
    have hval : ((s.fed (s.eth.dataOut (s.ethWires e) :: es')).inWires (s.fedEnv e)).srcVal =
        (s.rxWires e).srcVal := by
      rw [(Bool.and_eq_true_iff.mp hacc).1]
      show (s.eth.gives (s.ethWires e) && true) = true
      rw [hg]
      rfl
    rw [← hacc]
    unfold FormatPipeIn.accept FormatPipeIn.srcRdy
    rw [hval]
    rfl

/-- The formatter moves as if the lines that are owed were its source. -/
theorem fed_cycle (hes : s.eth.gives (s.ethWires e) = true →
      ∃ es', es = s.eth.dataOut (s.ethWires e) :: es') :
    (s.fed es).cycle (s.fedEnv e) =
      (s.cycle e).fed (if s.eth.gives (s.ethWires e) then es.tail else es) := by
  have hsrc : ((s.fed es).inWires (s.fedEnv e)).src = (s.rxWires e).src := by
    show (if s.eth.gives (s.ethWires e) then es.headD (s.rxWires e).src else (s.rxWires e).src) = _
    split_ifs with hg
    · obtain ⟨es', rfl⟩ := hes hg
      have hv : s.lineVal e = true := by
        rw [← accept_eq, FormatPipeIn.accept, rxWires_srcVal] at hg
        exact (Bool.and_eq_true_iff.mp hg).1
      show _ = (if s.lineVal e then [s.eth.dataOut (s.ethWires e)] else []).headD e.rx.wires
      simp [hv]
    · rfl
  have hacc := fed_accept hes
  obtain ⟨hnext, hwr, hout⟩ := pipeIn_congr (hacc.trans accept_eq.symm) hsrc rfl
  show PipeSystem.mk (s.rx.pipeIn.next _) (s.rx.fifo.step (s.rx.pipeIn.fifoWr _) _)
    (s.rx.chk.step (s.rx.pipeIn.dataOut _) _ _) _ _ (if s.rx.pipeIn.accept _ then es.tail else es)
    _ _ = _
  rw [hnext, hwr, hout, hacc]
  rfl

/-! ### What is owed -/

/-- What is still to come and what is owed: lines for the checksum unit and behind it, lines in the
FIFO, the packets that `ip_to_ethstream` has not begun and the lines it owes. -/
structure Owed where
  reqs : List ChkTok
  resps : List ChkTok
  queue : List DataLine
  ahead : List IpRequest
  lines : List RxLine

/-- What is left after a cycle. -/
def owedNext (s : IpSystem) (g : Owed) (e : IpEnv) : Owed where
  reqs := if (s.asm.sent (s.asmWires e)).isSome then g.reqs.tail else g.reqs
  resps := if s.eth.begins (s.ethWires e) then g.resps.tail else g.resps
  queue := (if s.eth.takesData (s.ethWires e) then g.queue.tail else g.queue) ++
    (if s.asm.takesData (s.asmWires e) then some (s.asmWires e).line else none).toList
  ahead := if s.eth.begins (s.ethWires e) then g.ahead.tail else g.ahead
  lines := if s.eth.gives (s.ethWires e) then g.lines.tail else g.lines

/-- The formatter runs on the lines of the requests. -/
structure Inv (reqs : List IpRequest) (s : IpSystem) (g : Owed) : Prop where
  asm : s.asm.Owes s.chk.transferIn s.srcReqs s.srcData g.reqs
  chk : s.chk.Holds 10 ipChksumCmd g.reqs g.resps
  fifo : s.fifo.Represents g.queue
  eth : s.eth.Owes (g.ahead.map IpRequest.ethPkt) g.resps (g.queue ++ s.srcData) g.lines
  pair : s.srcReqs <:+ g.ahead
  rx : PipeSystem.Good (reqs.map IpRequest.ipPacket) (s.fed g.lines)

def owedInit (reqs : List IpRequest) : Owed where
  reqs := reqs.flatMap IpRequest.toks
  resps := (reqs.map IpRequest.ethPkt).map EthPkt.tok
  queue := []
  ahead := reqs
  lines := (reqs.map IpRequest.ethPkt).flatMap EthPkt.frame

theorem inv_init (hi : Init reqs s) : Inv reqs s (owedInit reqs) := by
  obtain ⟨hr, hd⟩ := hi.src
  refine ⟨?_, ?_, Fifo1r1w.represents_init hi.fifo, ?_, ?_, ?_⟩
  · rw [hr, hd]
    exact .ready hi.asm.1 hi.asm.2 hi.chk.1 rfl rfl
  · show ChksumUnit.Holds _ _ _ _ ((reqs.map IpRequest.ethPkt).map EthPkt.tok)
    rw [← sealAll_requests]
    exact ChksumUnit.holds_reset hi.chk
  · refine .ready hi.eth.1 hi.eth.2.1 hi.eth.2.2 rfl ?_ rfl
    show [] ++ s.srcData = (reqs.map IpRequest.ethPkt).flatMap EthPkt.lines
    rw [hd, List.flatMap_map]
    rfl
  · rw [hr]
    exact List.suffix_rfl
  · refine PipeSystem.good_init ⟨hi.rx.pipeIn, hi.rx.fifo, hi.rx.chk, hi.rx.pipeOut, hi.rx.realign,
      ?_, hi.rx.empty⟩
    rw [linesOf_ipPacket]
    rfl

theorem asm_req (ht : s.asm.dataOut (s.asmWires e) = true) :
    ∃ p ps, s.srcReqs = p :: ps ∧ (s.asmWires e).req = p.hdr := by
  have hval := (Bool.and_eq_true_iff.mp (Bool.and_eq_true_iff.mp ht).1).2
  obtain ⟨ho, hne⟩ := Bool.and_eq_true_iff.mp hval
  cases hs : s.srcReqs with
  | nil => simp [hs] at hne
  | cons p ps => exact ⟨p, ps, rfl, by simp [asmWires, ho, hs]⟩

theorem asm_data (ht : s.asm.takesData (s.asmWires e) = true) :
    ∃ t, s.srcData = (s.asmWires e).line :: t := by
  have hval := (Bool.and_eq_true_iff.mp ht).1
  obtain ⟨ho, hne⟩ := Bool.and_eq_true_iff.mp hval
  cases hs : s.srcData with
  | nil => simp [hs] at hne
  | cons l t => exact ⟨t, by simp [asmWires, ho, hs]⟩

theorem asm_moves {g : Owed} (hv : Inv reqs s g) :
    HdrAssembler.Moves s.asm (s.asmWires e) s.chk.transferIn s.srcReqs s.srcData g.reqs :=
  hv.asm.moves asm_req asm_data

/-- A header in front of `ip_to_ethstream` comes from the unit. -/
theorem eth_resp {g : Owed} (hv : Inv reqs s g) (ht : (s.ethWires e).hdrVal = true) :
    ∃ l t ts, g.resps = t :: ts ∧ AxisLine.Shows l t ∧
      (s.ethWires e).hdr = l.data.extractLsb' (8 * 44) (8 * 20) ∧
      (s.ethWires e).timestamp = l.user := by
  have hval : s.chk.valid = true := (Bool.and_eq_true_iff.mp ht).2
  obtain ⟨l, tl, hl⟩ := List.exists_cons_of_ne_nil (hv.chk.valid hval)
  have hresp : s.chk.resp = some l := by simp [ChksumUnit.resp, hval, hl]
  obtain ⟨-, t, ts, hts, hshow⟩ := hv.chk.resp hresp
  exact ⟨l, t, ts, hts, hshow, by simp [ethWires, ethWiresWith, hresp],
    by simp [ethWires, ethWiresWith, hresp]⟩

/-- A line in front of `ip_to_ethstream` comes from the FIFO. -/
theorem eth_data {g : Owed} (hv : Inv reqs s g) (ht : s.eth.takesData (s.ethWires e) = true) :
    ∃ t, g.queue = (s.ethWires e).line :: t := by
  have hval := (Bool.and_eq_true_iff.mp ht).1
  have hne : s.fifo.empty = false := by simpa using (Bool.and_eq_true_iff.mp hval).2
  cases hq : g.queue with
  | nil =>
    rw [hv.fifo.empty_iff.mpr hq] at hne
    cases hne
  | cons l t => exact ⟨t, by simp [ethWires, ethWiresWith, hv.fifo.rdData hq]⟩

theorem eth_moves {g : Owed} (hv : Inv reqs s g) :
    IpToEthstream.Moves s.eth (s.ethWires e) (g.ahead.map IpRequest.ethPkt) g.resps
      (g.queue ++ s.srcData) g.lines := by
  refine hv.eth.moves (eth_resp hv) fun ht => ?_
  obtain ⟨t, hq⟩ := eth_data hv ht
  exact ⟨t ++ s.srcData, by rw [hq]; rfl⟩

/-- The unit has a line for `ip_to_ethstream` when a packet begins. -/
theorem begins_valid (ht : s.eth.begins (s.ethWires e) = true) : s.chk.valid = true :=
  (Bool.and_eq_true_iff.mp (Bool.and_eq_true_iff.mp ht).1).2

theorem chk_cycle {g : Owed} (hv : Inv reqs s g) :
    (s.cycle e).chk.Holds 10 ipChksumCmd (owedNext s g e).reqs (owedNext s g e).resps := by
  refine hv.chk.step rfl (by decide) (by decide) e.chkRespond ?_ ?_ begins_valid
  · intro x hx
    split_ifs at hx with ht
    · have hcmd : s.chk.cmdRdy = true := (Bool.and_eq_true_iff.mp ht).2
      exact ⟨(Option.mem_some_iff.mp hx).symm, by simpa [ChksumUnit.cmdRdy] using hcmd⟩
    · cases hx
  · intro x hx
    refine ⟨?_, (asm_moves hv).sent x hx⟩
    cases hq : (s.asmWires e).reqRdy with
    | false => simp [HdrAssembler.sent, hq] at hx
    | true => exact (Bool.and_eq_true_iff.mp hq).2

theorem fifo_cycle {g : Owed} (hv : Inv reqs s g) :
    (s.cycle e).fifo.Represents (owedNext s g e).queue := by
  refine hv.fifo.step ?_ ?_
  · intro hw
    have ht : s.asm.takesData (s.asmWires e) = true := by
      cases ht : s.asm.takesData (s.asmWires e) with
      | true => rfl
      | false => simp [ht] at hw
    have hrdy := (Bool.and_eq_true_iff.mp ht).2
    have hfull : (s.asmWires e).fifoFull = false := by simpa using (Bool.and_eq_true_iff.mp hrdy).2
    replace hfull : s.fifo.full = false := hfull
    refine Nat.lt_of_le_of_ne hv.fifo.room fun hlen => ?_
    rw [hv.fifo.full_iff.mpr hlen] at hfull
    cases hfull
  · intro ht
    obtain ⟨t, hq⟩ := eth_data hv ht
    simp [hq]

/-- The lines in the FIFO and at the source go on together. -/
theorem queue_next {g : Owed} (hv : Inv reqs s g) :
    (owedNext s g e).queue ++ (s.cycle e).srcData =
      if s.eth.takesData (s.ethWires e) then (g.queue ++ s.srcData).tail
      else g.queue ++ s.srcData := by
  have hsrc : (if s.asm.takesData (s.asmWires e) then some (s.asmWires e).line else none).toList ++
      (if s.asm.takesData (s.asmWires e) then s.srcData.tail else s.srcData) = s.srcData := by
    split_ifs with ht
    · obtain ⟨t, hd⟩ := asm_data ht
      simp [hd]
    · rfl
  show ((if s.eth.takesData (s.ethWires e) then g.queue.tail else g.queue) ++ _) ++
    (if s.asm.takesData (s.asmWires e) then s.srcData.tail else s.srcData) = _
  rw [List.append_assoc, hsrc]
  split_ifs with ht
  · obtain ⟨t, hq⟩ := eth_data hv ht
    simp [hq]
  · rfl

/-- Every frame gives at least one line. -/
theorem countP_le_sealAll (n : Nat) (fr ts : List ChkTok) :
    ts.countP (fun t => t.1.last) ≤ (sealAll n fr ts).length := by
  induction ts generalizing fr with
  | nil => exact Nat.zero_le _
  | cons t ts ih =>
    cases hl : t.1.last with
    | true =>
      have hlen : (sealToks n (fr ++ [t])).length = fr.length + 1 := by
        cases fr <;> simp [sealToks]
      have hih := ih []
      rw [List.countP_cons_of_pos (by simpa using hl), sealAll, if_pos hl, List.length_append, hlen]
      omega
    | false =>
      rw [List.countP_cons_of_neg (by simp [hl]), sealAll, if_neg (by simp [hl])]
      exact ih _

theorem countP_toks (rs : List IpRequest) :
    (rs.flatMap IpRequest.toks).countP (fun t => t.1.last) = rs.length := by
  induction rs with
  | nil => rfl
  | cons r rs ih =>
    rw [List.flatMap_cons, IpRequest.toks, HdrAssembler.toks_hdr, List.countP_append, ih,
      List.length_cons]
    simp [Nat.add_comm]

theorem resps_eq {g : Owed} (hv : Inv reqs s g) :
    g.resps = (g.ahead.map IpRequest.ethPkt).map EthPkt.tok := by
  cases hv.eth with
  | ready _ _ _ ht => exact ht
  | output _ _ _ _ ht => exact ht
  | outputLast _ _ ht => exact ht
  | waitTxFin _ _ ht => exact ht

/-- A header that waits behind the unit belongs to a request that was taken. -/
theorem taken_of_out {g : Owed} (hv : Inv reqs s g) (hne : s.chk.out ≠ []) :
    s.srcReqs.length < g.ahead.length := by
  obtain ⟨fr, os, -, hos, hresps⟩ := hv.chk.lines
  have hlen : g.resps.length = g.ahead.length := by
    rw [resps_eq hv, List.length_map, List.length_map]
  have hcount : s.srcReqs.length ≤ (sealAll 10 fr g.reqs).length := by
    refine Nat.le_trans ?_ (countP_le_sealAll 10 fr g.reqs)
    rw [← countP_toks]
    cases hv.asm with
    | ready _ _ _ _ ht => rw [ht]
    | hdrIn _ _ _ _ _ ht =>
      rw [ht, List.countP_append]
      exact Nat.le_add_left _ _
    | waitData _ _ _ _ _ _ ht => rw [ht]
  have hpos : 0 < os.length := by
    rw [← hos.length_eq]
    exact List.length_pos_of_ne_nil hne
  rw [hresps, List.length_append] at hlen
  omega

/-- The requests that were not taken stay behind those not begun. -/
theorem pair_next {g : Owed} (hv : Inv reqs s g) :
    (s.cycle e).srcReqs <:+ (owedNext s g e).ahead := by
  show (if s.asm.dataOut (s.asmWires e) then s.srcReqs.tail else s.srcReqs) <:+
    if s.eth.begins (s.ethWires e) then g.ahead.tail else g.ahead
  have htail : (if s.asm.dataOut (s.asmWires e) then s.srcReqs.tail else s.srcReqs) <:+
      s.srcReqs := by
    split_ifs
    · exact List.tail_suffix _
    · exact List.suffix_rfl
  refine htail.trans ?_
  split_ifs with hb
  · have hlt := taken_of_out hv (hv.chk.valid (begins_valid hb))
    have hpair := hv.pair
    cases ha : g.ahead with
    | nil => simp [ha] at hlt
    | cons r rs =>
      rw [ha] at hpair hlt
      rcases List.suffix_cons_iff.mp hpair with heq | hsuf
      · rw [heq] at hlt
        omega
      · exact hsuf
  · exact hv.pair

theorem inv_cycle {g : Owed} (hv : Inv reqs s g) : Inv reqs (s.cycle e) (owedNext s g e) := by
  have hasm := asm_moves (e := e) hv
  have heth := eth_moves (e := e) hv
  refine ⟨?_, chk_cycle hv, fifo_cycle hv, ?_, pair_next hv, ?_⟩
  · have hbusy : (s.cycle e).chk.transferIn = (s.asm.dataOut (s.asmWires e) ||
        (s.chk.transferIn && !(s.asm.sent (s.asmWires e)).any AxisLine.last)) := by
      simp only [cycle, ChksumUnit.step]
      split_ifs with ht <;> simp [ht]
    rw [hbusy]
    exact hasm.owes
  · rw [queue_next hv]
    show (s.eth.next _).Owes ((if s.eth.begins (s.ethWires e) then g.ahead.tail else g.ahead).map _)
      _ _ _
    rw [← map_tail_if]
    exact heth.owes
  · obtain ⟨l, cur, rem, begun, rest, h, d, hin⟩ := hv.rx
    have hnext := PipeSystem.inv_cycle (e := s.fedEnv e) hin
    rw [fed_cycle heth.line] at hnext
    exact hnext

/-! ### Progress -/

/-- What the surroundings do in their own time. -/
inductive IpEvent where
  | offerReq | offerData | chkReq | chkRespond | linkHdr | line | ethHdrRdy
  | rx (w : PipeSystem.PipeWait)
  deriving DecidableEq

/-- The event happens in this cycle. A line goes over to the formatter with the one it is made
of. -/
def Given (e : IpEnv) : IpEvent → Prop
  | .offerReq => e.offerReq = true
  | .offerData => e.offerData = true
  | .chkReq => e.chkReqRdy = true
  | .chkRespond => e.chkRespond = true
  | .linkHdr => e.linkHdr = true
  | .line => e.linkData = true ∧ e.linkLine = true
  | .ethHdrRdy => e.ethHdrRdy = true
  | .rx w => PipeSystem.Brings e.rx w

/-- Every request has come out. -/
structure Delivered (reqs : List IpRequest) (s : IpSystem) : Prop where
  srcReqs : s.srcReqs = []
  srcData : s.srcData = []
  hdrs : s.rx.hdrs = reqs.map IpRequest.owed
  data : s.rx.data = reqs.flatMap fun r => beats 64 r.payload

/-- There is a line for the formatter. -/
def HasLine (s : IpSystem) : Prop :=
  s.eth.dataState = .outputLast ∨ s.eth.dataState = .output ∧ s.fifo.empty = false

/-- The event lets something move. -/
def Awaits (s : IpSystem) : IpEvent → Prop
  | .offerReq => s.asm.chksumState = .ready ∧ s.srcReqs ≠ []
  | .offerData => s.asm.dataState = .dataOut ∧ s.fifo.empty = true
  | .chkReq => s.asm.chksumState = .ipHdrIn
  | .chkRespond => s.chk.out ≠ [] ∧ s.chk.valid = false
  | .linkHdr => s.eth.dataState = .ready ∧ s.chk.valid = true
  | .line => s.rx.Hungry ∧ s.HasLine
  | .ethHdrRdy => s.eth.hdrState = .hdrOutput
  | .rx w => s.rx.Awaiting w

/-- The formatter in front of the lines that are owed gets on. -/
def rxMoved (s : IpSystem) (g : Owed) (e : IpEnv) : Nat :=
  (if PipeSystem.inMoves s.rx.pipeIn ((s.fed g.lines).inWires (s.fedEnv e)) then 1 else 0) +
    (if PipeSystem.outGets s.rx.pipeOut ((s.fed g.lines).outWires (s.fedEnv e)) s.rx.realign
      (e.rx.present && e.rx.dataRdy) then 1 else 0)

/-- What moves in a cycle. -/
def moved (s : IpSystem) (g : Owed) (e : IpEnv) : Nat :=
  (s.asm.dataOut (s.asmWires e)).toNat + (s.asm.takesData (s.asmWires e)).toNat +
    (s.asm.sent (s.asmWires e)).isSome.toNat + (s.eth.begins (s.ethWires e)).toNat +
    (!s.chk.valid && (e.chkRespond && !s.chk.out.isEmpty)).toNat +
    (s.eth.hdrMoves (s.ethWires e)).toNat + s.eth.finishes.toNat + s.rxMoved g e

/-- A header behind the unit weighs what it costs to begin and finish its packet. -/
def work (s : IpSystem) (g : Owed) : Nat :=
  s.srcReqs.length + s.srcData.length + g.reqs.length + 5 * g.resps.length +
    (!s.chk.valid).toNat + (s.eth.hdrLeft + s.eth.unfinished) + (s.fed g.lines).work

/-- Everything that moves lowers the work. -/
theorem work_le {g : Owed} (hv : Inv reqs s g) :
    (s.cycle e).work (owedNext s g e) + s.moved g e ≤ s.work g := by
  have hreqs : s.asm.dataOut (s.asmWires e) = true → s.srcReqs ≠ [] := by
    intro ht
    obtain ⟨p, ps, hp, -⟩ := asm_req ht
    simp [hp]
  have hdata : s.asm.takesData (s.asmWires e) = true → s.srcData ≠ [] := by
    intro ht
    obtain ⟨t, hd⟩ := asm_data ht
    simp [hd]
  have hsent : (s.asm.sent (s.asmWires e)).isSome = true → g.reqs ≠ [] := by
    intro hs
    obtain ⟨l, hl⟩ := Option.isSome_iff_exists.mp hs
    obtain ⟨t, ts, ht, -⟩ := (asm_moves hv).sent l hl
    simp [ht]
  have hresps : s.eth.begins (s.ethWires e) = true → g.resps ≠ [] := by
    intro hb
    obtain ⟨l, t, ts, ht, -⟩ := eth_resp hv (Bool.and_eq_true_iff.mp hb).1
    simp [ht]
  have h1 := length_tail_if hreqs
  have h2 := length_tail_if hdata
  have h3 := length_tail_if hsent
  have h4 := length_tail_if hresps
  have h5 := ChksumUnit.valid_step (if s.asm.dataOut (s.asmWires e) then some ipChksumCmd else none)
    (s.asm.sent (s.asmWires e)) e.chkRespond (begins_valid (s := s) (e := e))
  have h6 := hv.eth.work_le (s.ethWires e)
  have h7 : ((s.cycle e).fed (owedNext s g e).lines).work + s.rxMoved g e ≤
      (s.fed g.lines).work := by
    obtain ⟨l, cur, rem, begun, rest, h, d, hin⟩ := hv.rx
    have hle := PipeSystem.work_le (e := s.fedEnv e) hin
    rw [fed_cycle (eth_moves hv).line, Nat.add_assoc] at hle
    exact hle
  simp only [work, moved]
  simp only [cycle, owedNext] at h7 ⊢
  omega

theorem rxMoved_pos {g : Owed}
    (h : PipeSystem.inMoves s.rx.pipeIn ((s.fed g.lines).inWires (s.fedEnv e)) = true ∨
      PipeSystem.outGets s.rx.pipeOut ((s.fed g.lines).outWires (s.fedEnv e)) s.rx.realign
        (e.rx.present && e.rx.dataRdy) = true) : 0 < s.rxMoved g e := by
  rcases h with h | h <;> rw [rxMoved, if_pos h] <;> omega

/-- A line that goes over moves the formatter. -/
theorem gives_moves {g : Owed} (hv : Inv reqs s g) (hg : s.eth.gives (s.ethWires e) = true) :
    0 < s.rxMoved g e := by
  have hacc := (fed_accept (eth_moves (e := e) hv).line).trans hg
  exact rxMoved_pos (.inl (by simp [PipeSystem.inMoves, hacc]))

/-- Any of these is a move. -/
theorem moved_pos {g : Owed} (hm : s.asm.dataOut (s.asmWires e) = true ∨
    s.asm.takesData (s.asmWires e) = true ∨ (s.asm.sent (s.asmWires e)).isSome = true ∨
    s.eth.begins (s.ethWires e) = true ∨
    (!s.chk.valid && (e.chkRespond && !s.chk.out.isEmpty)) = true ∨
    s.eth.hdrMoves (s.ethWires e) = true ∨ s.eth.finishes = true ∨ 0 < s.rxMoved g e) :
    0 < s.moved g e := by
  rcases hm with h | h | h | h | h | h | h | h
  case inr.inr.inr.inr.inr.inr.inr =>
    simp only [moved]
    omega
  all_goals
    simp only [moved, h, Bool.toNat_true]
    omega

/-- Where nothing moves, every stage stays in its state. -/
structure Still (s t : IpSystem) : Prop where
  asm : t.asm.chksumState = s.asm.chksumState
  data : t.asm.dataState = s.asm.dataState
  reqs : t.srcReqs = s.srcReqs
  out : t.chk.out = s.chk.out
  valid : t.chk.valid = s.chk.valid
  fifo : t.fifo.empty = s.fifo.empty
  eth : t.eth.dataState = s.eth.dataState
  hdr : t.eth.hdrState = s.eth.hdrState
  hungry : s.rx.Hungry → t.rx.Hungry
  rx : ∀ w, s.rx.Awaiting w → t.rx.Awaiting w

theorem still {g : Owed} (hv : Inv reqs s g) (hz : s.moved g e = 0) : Still s (s.cycle e) := by
  simp only [moved, Nat.add_eq_zero_iff, Bool.toNat_eq_zero] at hz
  obtain ⟨⟨⟨⟨⟨⟨⟨hreq, hdata⟩, hsent⟩, hbeg⟩, hrise⟩, hmv⟩, hfin⟩, hrx⟩ := hz
  have hnone : s.asm.sent (s.asmWires e) = none := by simpa using hsent
  have hgives : s.eth.gives (s.ethWires e) = false := by
    cases hg : s.eth.gives (s.ethWires e) with
    | false => rfl
    | true =>
      have hpos := gives_moves hv hg
      omega
  have htake : s.eth.takesData (s.ethWires e) = false := by
    cases ht : s.eth.takesData (s.ethWires e) with
    | false => rfl
    | true => exact absurd (IpToEthstream.takesData_gives ht) (by simp [hgives])
  obtain ⟨hasm, hdat⟩ := hv.asm.still hreq hdata hnone
  obtain ⟨heth, hhdr⟩ := hv.eth.still hbeg hgives hmv hfin
  have hchk : (s.cycle e).chk.out = s.chk.out ∧ (s.cycle e).chk.valid = s.chk.valid := by
    show (s.chk.step _ _ _ e.chkRespond).out = _ ∧ (s.chk.step _ _ _ e.chkRespond).valid = _
    rw [hnone, hbeg]
    exact ChksumUnit.still _ hrise
  have hfifo : (s.cycle e).fifo.empty = s.fifo.empty := by
    have hrep := fifo_cycle (e := e) hv
    have hq : (owedNext s g e).queue = g.queue := by simp [owedNext, htake, hdata]
    rw [hq] at hrep
    rw [Bool.eq_iff_iff, hrep.empty_iff, hv.fifo.empty_iff]
  obtain ⟨l, cur, rem, begun, rest, h, d, hin⟩ := hv.rx
  have hcyc := fed_cycle (eth_moves (e := e) hv).line
  have hno : PipeSystem.inMoves s.rx.pipeIn ((s.fed g.lines).inWires (s.fedEnv e)) = false ∧
      PipeSystem.outGets s.rx.pipeOut ((s.fed g.lines).outWires (s.fedEnv e)) s.rx.realign
        (e.rx.present && e.rx.dataRdy) = false := by
    simpa [rxMoved] using hrx
  refine ⟨hasm, hdat, if_neg (by simp [hreq]), hchk.1, hchk.2, hfifo, heth, hhdr, ?_, ?_⟩
  · intro hs
    have hs' : (s.fed g.lines).Hungry := hs
    have hnext := hs'.next hin hno.1
    rw [hcyc] at hnext
    exact hnext
  · intro w hw
    have hw' : (s.fed g.lines).Awaiting w := hw
    have hnext := PipeSystem.awaiting_next hin hno.1 hno.2 hw'
    rw [hcyc] at hnext
    exact hnext

/-- Where nothing moves, the same event is awaited. -/
theorem Still.awaits {t : IpSystem} (hs : Still s t) {k : IpEvent} (ha : s.Awaits k) :
    t.Awaits k := by
  cases k with
  | offerReq => simpa [Awaits, hs.asm, hs.reqs] using ha
  | offerData => simpa [Awaits, hs.data, hs.fifo] using ha
  | chkReq => simpa [Awaits, hs.asm] using ha
  | chkRespond => simpa [Awaits, hs.out, hs.valid] using ha
  | linkHdr => simpa [Awaits, hs.eth, hs.valid] using ha
  | line => exact ⟨hs.hungry ha.1, by simpa [HasLine, hs.eth, hs.fifo] using ha.2⟩
  | ethHdrRdy => simpa [Awaits, hs.hdr] using ha
  | rx w => exact hs.rx w ha

/-- An event that is awaited lets something move. -/
theorem moves {g : Owed} (hv : Inv reqs s g) {k : IpEvent} (ha : s.Awaits k) (hg : Given e k) :
    0 < s.moved g e := by
  cases k with
  | offerReq =>
    obtain ⟨hs, hne⟩ := ha
    have ho : e.offerReq = true := hg
    have hidle : s.chk.cmdRdy = true := by
      cases hv.asm with
      | ready _ _ hb => simp [ChksumUnit.cmdRdy, hb]
      | hdrIn _ hs' => cases hs.symm.trans hs'
      | waitData _ hs' => cases hs.symm.trans hs'
    have ht : s.asm.dataOut (s.asmWires e) = true := by
      simp [HdrAssembler.dataOut, asmWires, hs, ho, hne, hidle]
    exact moved_pos (.inl ht)
  | offerData =>
    obtain ⟨hs, hempty⟩ := ha
    have ho : e.offerData = true := hg
    obtain ⟨rem, hne, hd⟩ := hv.asm.missing hs
    have hq : g.queue = [] := hv.fifo.empty_iff.mp hempty
    have hfull : s.fifo.full = false := by
      cases hf : s.fifo.full with
      | false => rfl
      | true =>
        have hlen := hv.fifo.full_iff.mp hf
        simp [hq] at hlen
    have ht : s.asm.takesData (s.asmWires e) = true := by
      simp [HdrAssembler.takesData, HdrAssembler.dataRdy, asmWires, hs, ho, hd, hne, hfull]
    exact moved_pos (by simp [ht])
  | chkReq =>
    have hs : s.asm.chksumState = .ipHdrIn := ha
    have hr : e.chkReqRdy = true := hg
    have hbusy : s.chk.transferIn = true := by
      cases hv.asm with
      | ready hs' => cases hs.symm.trans hs'
      | hdrIn _ _ _ hb => exact hb
      | waitData _ hs' => cases hs.symm.trans hs'
    have ht : (s.asm.sent (s.asmWires e)).isSome = true := by
      simp [HdrAssembler.sent, HdrAssembler.req, asmWires, hs, hr, hbusy]
    exact moved_pos (by simp [ht])
  | chkRespond =>
    obtain ⟨hne, hval⟩ := ha
    have hr : e.chkRespond = true := hg
    exact moved_pos (by simp [hne, hval, hr])
  | linkHdr =>
    obtain ⟨hs, hval⟩ := ha
    have hl : e.linkHdr = true := hg
    have hlook : s.eth.lookup.state = .ready := by
      cases hv.eth with
      | ready _ _ hl => exact hl
      | output _ hs' => cases hs.symm.trans hs'
      | outputLast hs' => cases hs.symm.trans hs'
      | waitTxFin hs' => cases hs.symm.trans hs'
    have ht : s.eth.begins (s.ethWires e) = true := by
      simp [IpToEthstream.begins, IpToEthstream.srcHdrRdy, EthHdrAssembler.reqRdy, ethWires,
        ethWiresWith, hs, hlook, hl, hval]
    exact moved_pos (by simp [ht])
  | line =>
    obtain ⟨hungry, hline⟩ := ha
    obtain ⟨hd, hl⟩ : e.linkData = true ∧ e.linkLine = true := hg
    have hval : s.lineVal e = true := by
      rcases hline with hs | ⟨hs, hne⟩
      · simp [lineVal, hl, IpToEthstream.dstDataVal, hs]
      · simp [lineVal, hl, IpToEthstream.dstDataVal, ethWiresWith, hs, hd, hne]
    obtain ⟨l, cur, rem, begun, rest, h, d, hin⟩ := hv.rx
    have hungry' : (s.fed g.lines).Hungry := hungry
    have hacc : s.rx.pipeIn.accept (s.rxWires e) = true :=
      hungry'.accepts hin (rxWires_srcVal.trans hval) rfl rfl
    have hpos := gives_moves hv (accept_eq.symm.trans hacc)
    exact moved_pos (by simp [hpos])
  | ethHdrRdy =>
    have hs : s.eth.hdrState = .hdrOutput := ha
    have hr : (s.ethWires e).hdrRdy = true := hg
    exact moved_pos (by simp [IpToEthstream.hdrMoves, hs, hr])
  | rx w =>
    obtain ⟨l, cur, rem, begun, rest, h, d, hin⟩ := hv.rx
    have ha' : (s.fed g.lines).Awaiting w := ha
    have hb : PipeSystem.Brings (s.fedEnv e) w := hg
    have hpos := rxMoved_pos (PipeSystem.gets_on hin ha' hb)
    exact moved_pos (by simp [hpos])

/-- Something moves in every cycle, or an event is awaited. -/
def GoesOn (s : IpSystem) (g : Owed) (k : IpEvent) : Prop :=
  (∀ e, 0 < s.moved g e) ∨ s.Awaits k

/-- With nothing in the unit, the packets not begun are the requests not taken. -/
theorem ahead_eq {g : Owed} (hv : Inv reqs s g) (hout : s.chk.out = [])
    (hs : s.asm.chksumState ≠ .ipHdrIn) : g.ahead = s.srcReqs := by
  obtain ⟨hidle, hreqs⟩ := hv.asm.between hs
  have hresps : g.resps = (s.srcReqs.map IpRequest.ethPkt).map EthPkt.tok := by
    obtain ⟨fr, os, hfr, hos, hresps⟩ := hv.chk.lines
    rw [hv.chk.idle hidle, List.forall₂_nil_left_iff] at hfr
    rw [hout, List.forall₂_nil_left_iff] at hos
    rw [hresps, hfr, hos, hreqs, sealAll_requests]
    rfl
  have hlen := congrArg List.length ((resps_eq hv).symm.trans hresps)
  simp only [List.length_map] at hlen
  exact (hv.pair.eq_of_length hlen.symm).symm

theorem flatMap_ethPkt (rs : List IpRequest) :
    (rs.map IpRequest.ethPkt).flatMap EthPkt.lines = rs.flatMap IpRequest.lines := by
  rw [List.flatMap_map]
  rfl

/-- Between two packets `ip_to_ethstream` waits for a header. -/
theorem wants_hdr {g : Owed} (hv : Inv reqs s g) (hs : s.eth.dataState = .ready) :
    (∃ k, GoesOn s g k) ∨ s.srcReqs = [] ∧ s.srcData = [] ∧ g.lines = [] := by
  obtain ⟨hd, he⟩ : g.queue ++ s.srcData = (g.ahead.map IpRequest.ethPkt).flatMap EthPkt.lines ∧
      g.lines = (g.ahead.map IpRequest.ethPkt).flatMap EthPkt.frame := by
    cases hv.eth with
    | ready _ _ _ _ hd he => exact ⟨hd, he⟩
    | output _ hs' => cases hs.symm.trans hs'
    | outputLast hs' => cases hs.symm.trans hs'
    | waitTxFin hs' => cases hs.symm.trans hs'
  cases hval : s.chk.valid with
  | true => exact .inl ⟨.linkHdr, .inr ⟨hs, hval⟩⟩
  | false =>
    by_cases hout : s.chk.out = []
    swap
    · exact .inl ⟨.chkRespond, .inr ⟨hout, hval⟩⟩
    by_cases hin : s.asm.chksumState = .ipHdrIn
    · exact .inl ⟨.chkReq, .inr hin⟩
    have hahead := ahead_eq hv hout hin
    rw [flatMap_ethPkt, hahead] at hd
    cases hv.asm with
    | hdrIn _ hst => exact absurd hst hin
    | ready hst =>
      by_cases hsrc : s.srcReqs = []
      · rw [hsrc] at hd
        exact .inr ⟨hsrc, (List.append_eq_nil_iff.mp hd).2, by rw [he, hahead, hsrc]; rfl⟩
      · exact .inl ⟨.offerReq, .inr ⟨hst, hsrc⟩⟩
    | waitData rem hst hm hr hb hds =>
      -- the packet in hand has lines to come, but its header has not gone by
      obtain ⟨bs, hc⟩ := hr
      have hpos := List.length_pos_of_ne_nil hc.ne_nil
      have hlen := congrArg List.length hd
      rw [hds] at hlen
      simp only [List.length_append] at hlen
      omega

/-- In a packet `ip_to_ethstream` waits for a line. -/
theorem wants_line {g : Owed} (hv : Inv reqs s g) (hs : s.eth.dataState = .output)
    (hempty : s.fifo.empty = true) : s.asm.dataState = .dataOut := by
  obtain ⟨rest, hne, hd⟩ : ∃ rest, rest ≠ [] ∧ g.queue ++ s.srcData =
      rest ++ (g.ahead.map IpRequest.ethPkt).flatMap EthPkt.lines := by
    cases hv.eth with
    | ready hs' => cases hs.symm.trans hs'
    | output rest _ _ hr _ hd =>
      obtain ⟨bs, hc⟩ := hr
      exact ⟨rest, hc.ne_nil, hd⟩
    | outputLast hs' => cases hs.symm.trans hs'
    | waitTxFin hs' => cases hs.symm.trans hs'
  cases hst : s.asm.dataState with
  | dataOut => rfl
  | waiting =>
    -- all lines of the packets before those at the source have gone by
    obtain ⟨c, hc⟩ := hv.pair
    have hpos := List.length_pos_of_ne_nil hne
    have hq : g.queue = [] := hv.fifo.empty_iff.mp hempty
    have hlen := congrArg List.length hd
    rw [hq, hv.asm.whole hst, flatMap_ethPkt, ← hc, List.flatMap_append] at hlen
    simp only [List.length_append, List.length_nil] at hlen
    omega

/-- As long as something is missing, the stages go on. -/
theorem goes_on {g : Owed} (hv : Inv reqs s g) (hn : ¬ Delivered reqs s) :
    ∃ k, GoesOn s g k := by
  obtain ⟨l, cur, rem, begun, rest, h, d, hin⟩ := hv.rx
  rcases PipeSystem.waits hin with ⟨w, hw⟩ | hdrop | ⟨hungry, hdone⟩
  · exact ⟨.rx w, .inr hw⟩
  · refine ⟨.line, .inl fun e => moved_pos ?_⟩
    have hpos : 0 < s.rxMoved g e := rxMoved_pos (.inr (hdrop.gets_on (s.fedEnv e)))
    simp [hpos]
  · have hungry' : s.rx.Hungry := hungry
    cases hv.eth with
    | ready hs =>
      rcases wants_hdr hv hs with hk | ⟨hreqs, hdata, hlines⟩
      · exact hk
      · obtain ⟨-, hh, hd⟩ := hdone hlines
        rw [hdrsOf_ipPacket] at hh
        rw [dataOf_ipPacket] at hd
        exact absurd ⟨hreqs, hdata, hh, hd⟩ hn
    | output rest hs =>
      cases hempty : s.fifo.empty with
      | false => exact ⟨.line, .inr ⟨hungry', .inr ⟨hs, hempty⟩⟩⟩
      | true => exact ⟨.offerData, .inr ⟨wants_line hv hs hempty, hempty⟩⟩
    | outputLast hs => exact ⟨.line, .inr ⟨hungry', .inl hs⟩⟩
    | waitTxFin hs hh =>
      rcases hh with ⟨hst, -⟩ | ⟨hst | hst, -⟩
      · exact ⟨.line, .inl fun e => moved_pos (by simp [IpToEthstream.hdrMoves, hst])⟩
      · exact ⟨.ethHdrRdy, .inr hst⟩
      · exact ⟨.line, .inl fun e => moved_pos (by simp [IpToEthstream.finishes, hs, hst])⟩

/-! ### Whole runs -/

theorem inv_of_reach (h : Reach (Init reqs) step Free s) : ∃ g, Inv reqs s g := by
  refine h.invariant (I := fun s => ∃ g, Inv reqs s g) (fun _ hi => ⟨_, inv_init hi⟩) ?_
  rintro s e s' ⟨g, hv⟩ - hstep
  cases hstep
  exact ⟨_, inv_cycle hv⟩

/-- The system together with what is owed. -/
def nextOwed (x : IpSystem × Owed) (e : IpEnv) : IpSystem × Owed :=
  (x.1.cycle e, owedNext x.1 x.2 e)

/-- If every event happens again and again, everything is delivered. -/
theorem Inv.delivers {g : Owed} (hv : Inv reqs s g) {sched : Nat → IpEnv}
    (hf : Fair Given sched) : ∃ n, Delivered reqs (exec cycle s sched n) := by
  have hmap : ∀ n, (exec nextOwed (s, g) sched n).1 = exec cycle s sched n :=
    exec_map (fun _ _ => rfl) _ sched
  have hreach : ∃ n, Delivered reqs (exec nextOwed (s, g) sched n).1 := by
    apply exec_reaches_moving (I := fun x : IpSystem × Owed => Inv reqs x.1 x.2)
      (G := fun x => Delivered reqs x.1) (fun x => x.1.work x.2) (fun x e => x.1.moved x.2 e)
      (fun x k => x.1.Awaits k) ?_ ?_ ?_ ?_ ?_ hv hf
    · intro x e hx
      exact inv_cycle hx
    · intro x e hx
      exact work_le hx
    · intro x hx hn
      exact goes_on hx hn
    · intro x e k hx ha hg
      exact moves hx ha hg
    · intro x e k hx ha hz
      exact (still hx hz).awaits ha
  obtain ⟨n, hn⟩ := hreach
  exact ⟨n, hmap n ▸ hn⟩

end IpSystem

/-- For all requests and schedules the formatter gives out one header for each request, which says
the same, and the payloads of the requests, in order. If every event happens again and again it
gives out all of them. -/
theorem ip_round_trip (reqs : List IpRequest) {s : IpSystem}
    (h : Reach (IpSystem.Init reqs) IpSystem.step Free s) :
    (s.rx.hdrs <+: reqs.map IpRequest.owed ∧ ∀ r ∈ reqs, r.Matches r.owed) ∧
      (s.rx.data <+: reqs.flatMap fun r => beats 64 r.payload) ∧
      ∀ sched, Fair IpSystem.Given sched →
        ∃ n, IpSystem.Delivered reqs (exec IpSystem.cycle s sched n) := by
  obtain ⟨g, hv⟩ := IpSystem.inv_of_reach h
  obtain ⟨hh, hd⟩ := hv.rx.prefixes
  rw [hdrsOf_ipPacket] at hh
  rw [dataOf_ipPacket] at hd
  exact ⟨⟨hh, fun r _ => r.matches_owed⟩, hd, fun sched hf => hv.delivers hf⟩

/-! ### Fixed requests -/

/-- One byte of payload. -/
def byteRequest : IpRequest where
  hdr := ⟨0xc6000003, 0xc6000005, 1, 17, 6⟩
  payload := [0xab]
  lines := [⟨BitVec.ofNat 512 (0xab * 2 ^ 504), 63, true⟩]
  len := by decide
  fits := by decide
  carried := ⟨by decide, by decide +kernel⟩

theorem fiftyBytes_carried :
    Carries [⟨BitVec.ofNat 512 (0x1234 * 2 ^ 400), 14, true⟩]
      ((lineBytes (BitVec.ofNat (8 * 64) (0x1234 * 2 ^ 400))).take 50) :=
  ⟨by decide +kernel, by decide +kernel⟩

/-- 50 bytes of payload, which do not fit in one line with the header. -/
def fiftyRequest : IpRequest where
  hdr := ⟨0xc6000003, 0xc6000007, 50, 6, 7⟩
  payload := (lineBytes (BitVec.ofNat (8 * 64) (0x1234 * 2 ^ 400))).take 50
  lines := [⟨BitVec.ofNat 512 (0x1234 * 2 ^ 400), 14, true⟩]
  len := by decide +kernel
  fits := by decide +kernel
  carried := fiftyBytes_carried

def IpSystem.reset (reqs : List IpRequest) : IpSystem where
  asm := ⟨.ready, .waiting, default, 0⟩
  chk := ⟨false, default, [], [], false⟩
  fifo := ⟨fun _ => default, 0, 0, none⟩
  eth := ⟨.ready, .waiting, 0, 0, default, default, 0, ⟨.ready, 0, 0⟩⟩
  rx := PipeSystem.reset []
  srcReqs := reqs
  srcData := reqs.flatMap IpRequest.lines

theorem IpSystem.init_reset (reqs : List IpRequest) : Init reqs (reset reqs) :=
  ⟨⟨rfl, rfl⟩, ⟨rfl, rfl, rfl, rfl⟩, ⟨rfl, rfl, rfl⟩, ⟨rfl, rfl, rfl⟩, PipeSystem.init_reset [],
    ⟨rfl, rfl⟩⟩

/-- Everything happens in every cycle. -/
def IpEnv.calm : IpEnv where
  offerReq := true
  offerData := true
  chkReqRdy := true
  chkRespond := true
  linkHdr := true
  linkData := true
  ethHdrRdy := true
  linkLine := true
  rx := .calm
  reqBus := default
  lineBus := default
  respBus := default

/-- The two requests have come back after some cycles. -/
theorem ip_round_trip_two :
    ∃ s, Reach (IpSystem.Init [byteRequest, fiftyRequest]) IpSystem.step Free s ∧
      s.rx.hdrs.map (fun h => h.hdr.totLen) = [21, 70] ∧
      s.rx.data = [⟨byteRequest.payload, true, 63⟩, ⟨fiftyRequest.payload, true, 14⟩] ∧
      (∃ n, IpSystem.Delivered [byteRequest, fiftyRequest]
        (exec IpSystem.cycle s (fun _ => .calm) n)) := by
  have hs : ∃ s, Reach (IpSystem.Init [byteRequest, fiftyRequest]) IpSystem.step Free s ∧
      decide (s.rx.hdrs.map (fun h => h.hdr.totLen) = [21, 70] ∧
        s.rx.data = [⟨byteRequest.payload, true, 63⟩, ⟨fiftyRequest.payload, true, 14⟩]) = true :=
    Reach.exists_of_run (List.replicate 32 .calm) (IpSystem.init_reset _) (by decide +kernel)
  obtain ⟨s, hs, hp⟩ := hs
  obtain ⟨hh, hd⟩ := of_decide_eq_true hp
  have hfair : Fair IpSystem.Given fun _ => IpEnv.calm := by
    intro k n
    refine ⟨n, Nat.le_refl n, ?_⟩
    cases k with
    | line => exact ⟨rfl, rfl⟩
    | rx w =>
      cases w with
      | present => exact ⟨rfl, rfl⟩
      | _ => rfl
    | _ => rfl
  exact ⟨s, hs, hh, hd, (ip_round_trip _ hs).2.2 _ hfair⟩

end TcpHw
