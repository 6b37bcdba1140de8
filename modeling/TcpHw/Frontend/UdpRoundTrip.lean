import TcpHw.Frontend.ChksumPath
import TcpHw.Frontend.UdpStream

/-!
# UDP requests come back as they were sent

Every stage of the two paths is followed on its own, against the packets and lines that are still to
come to it and those it still owes. What one stage owes is what is to come to the next one, so one
cycle of the system composes the cycles of the stages. A packet is the request with its two headers
in front; on the way between the paths it carries its checksum.
-/
namespace TcpHw

open Bytes Framing Trace

set_option autoImplicit false

/-! ### Packets -/

namespace UdpRequest

variable (r : UdpRequest)

/-- `pseudo_hdr_cast` -/
def pseudo : ChksumPseudoHdr := udpPseudoHdr r.hdr.srcIp r.hdr.dstIp r.hdr.udpHdr.length

/-- The packet without a checksum, as it goes into the first unit and comes out of the second. -/
def plain : ChkPkt 20 where
  hdr := r.hdr.bits
  body := r.payload
  timestamp := r.hdr.timestamp

/-- The packet with its checksum, as it comes out of the first unit and goes into the second. -/
def summed : ChkPkt 12 where
  hdr := r.pseudo.bits
  body := (sealed 18 r.plain.frame).drop 12
  timestamp := r.hdr.timestamp

/-- The UDP header without its checksum. -/
def udp : UdpPktHdr := { r.hdr.udpHdr with chksum := 0 }

theorem lineBytes_bits : lineBytes r.hdr.bits = lineBytes r.pseudo.bits ++ lineBytes r.udp.bits :=
  lineBytes_append r.pseudo.bits r.udp.bits

theorem length_plain : r.plain.frame.length = 20 + r.payload.length := by
  have hb : (lineBytes r.plain.hdr).length = 20 := length_lineBytes _
  rw [ChkPkt.frame, List.length_append, hb]
  rfl

/-- The checksum field is zero at first. -/
theorem plain_field : r.plain.frame[2 * 9]? = some 0#8 ∧ r.plain.frame[2 * 9 + 1]? = some 0#8 := by
  have hlen : (lineBytes r.plain.hdr).length = 20 := length_lineBytes _
  have hbyte : byte r.plain.hdr 18 = 0#8 ∧ byte r.plain.hdr 19 = 0#8 := by
    constructor <;>
      · refine BitVec.eq_of_getLsbD_eq fun j hj => ?_
        rw [getLsbD_byte _ _ hj]
        simp only [plain, UdpReqHdr.bits, UdpPktHdr.bits]
        grind
  constructor
  · rw [ChkPkt.frame, List.getElem?_append_left (by omega)]
    simp [lineBytes, hbyte.1]
  · rw [ChkPkt.frame, List.getElem?_append_left (by omega)]
    simp [lineBytes, hbyte.2]

/-- The first unit puts the checksum in. -/
theorem summed_frame : r.summed.frame = sealed 18 r.plain.frame := by
  have hlen : (lineBytes r.pseudo.bits).length = 12 := length_lineBytes _
  have htake : (sealed 18 r.plain.frame).take 12 = lineBytes r.pseudo.bits := by
    have hframe : r.plain.frame.take 12 = lineBytes r.pseudo.bits := by
      rw [ChkPkt.frame]
      show (lineBytes r.hdr.bits ++ r.payload).take 12 = _
      rw [lineBytes_bits, List.append_assoc, List.take_append_of_le_length (by omega),
        List.take_of_length_le (by omega)]
    rw [sealed, take_setPair, hframe, setPair, List.set_eq_of_length_le, List.set_eq_of_length_le]
    · omega
    · rw [List.length_set]
      omega
  rw [ChkPkt.frame]
  show lineBytes r.pseudo.bits ++ (sealed 18 r.plain.frame).drop 12 = _
  rw [← htake, List.take_append_drop]

/-- The second unit finds it right, and its result puts the zeros back. -/
theorem sealed_summed : sealed 18 r.summed.frame = r.plain.frame := by
  obtain ⟨h0, h1⟩ := r.plain_field
  have hzero := onesChksum_setPair r.plain.frame 9 h0 h1
  rw [summed_frame]
  have hset : sealed 18 (sealed 18 r.plain.frame) =
      setPair (setPair r.plain.frame (2 * 9) (onesChksum r.plain.frame)) (2 * 9) 0#16 :=
    congrArg (setPair _ 18) hzero
  rw [hset]
  refine List.ext_getElem? fun i => ?_
  simp only [setPair, List.getElem?_set, List.length_set]
  grind

theorem length_payload : r.payload.length + 8 < 2 ^ 16 := by
  have hlt := r.hdr.udpHdr.length.isLt
  have hlen := r.len
  omega

theorem length_summed : r.summed.body.length = 8 + r.payload.length := by
  have hlen := length_sealed 18 r.plain.frame
  rw [length_plain] at hlen
  show ((sealed 18 r.plain.frame).drop 12).length = _
  rw [List.length_drop, hlen]
  omega

/-- The length register of the transmit path is the length of what follows the pseudo header. -/
theorem passes_summed : udpTxOutput.Passes r.summed := by
  have hpay := r.length_payload
  have hbody := r.length_summed
  have hhdr : (lineBytes r.summed.hdr).length = 12 := length_lineBytes _
  have hframe : r.summed.frame.length = 20 + r.payload.length := by
    rw [ChkPkt.frame, List.length_append, hhdr, hbody]
    omega
  refine ⟨by omega, fun l t hl ht => ?_⟩
  obtain ⟨hcut, -, -⟩ := OutputCtrl.first_line (by decide) ht hl (by omega)
  have hcast : ChksumPseudoHdr.cast (l.data.extractLsb' (8 * 52) (8 * 12)) = r.pseudo := by
    rw [← ChksumPseudoHdr.cast_bits r.pseudo]
    exact congrArg _ hcut
  have hlen : r.pseudo.length = BitVec.ofNat 16 r.summed.body.length := by
    rw [hbody, ← r.len, BitVec.ofNat_toNat, BitVec.setWidth_eq]
    rfl
  have hne : r.summed.body ≠ [] := List.ne_nil_of_length_pos (by omega)
  have hnat : r.pseudo.length.toNat = 8 + r.payload.length := r.len
  rw [if_neg hne, hframe, ← hlen]
  simp only [udpTxOutput, hcast, hnat]
  congr 2
  split_ifs <;> first | rfl | omega

/-- The two headers in the bytes in front. -/
theorem cut_bits : r.hdr.bits.extractLsb' 64 96 = r.pseudo.bits ∧
    r.hdr.bits.setWidth 64 = r.udp.bits := by
  constructor
  · refine BitVec.eq_of_getLsbD_eq fun j hj => ?_
    have hge : ¬ 64 + j < 64 := by omega
    simp only [BitVec.getLsbD_extractLsb', hj, decide_true, Bool.true_and]
    show (r.pseudo.bits ++ r.udp.bits).getLsbD (64 + j) = _
    rw [BitVec.getLsbD_append, if_neg hge, Nat.add_sub_cancel_left]
  · refine BitVec.eq_of_getLsbD_eq fun j hj => ?_
    simp only [BitVec.getLsbD_setWidth, hj, decide_true, Bool.true_and]
    show (r.pseudo.bits ++ r.udp.bits).getLsbD j = _
    rw [BitVec.getLsbD_append, if_pos hj]

/-- The checksum is zero behind the second unit, and the length is that of the payload. -/
theorem passes_plain : udpRxOutput.Passes r.plain := by
  have hpay := r.length_payload
  have hframe := r.length_plain
  refine ⟨show r.payload.length < 2 ^ 16 by omega, fun l t hl ht => ?_⟩
  obtain ⟨hcut, -, -⟩ := OutputCtrl.first_line (by decide) ht hl (by omega)
  have hcast : UdpPktHdr.cast (l.data.extractLsb' (8 * 44) (8 * 8)) = r.udp := by
    have hlow : l.data.extractLsb' (8 * 44) (8 * 8) = r.hdr.bits.setWidth 64 := by
      refine BitVec.eq_of_getLsbD_eq fun j hj => ?_
      have hbit := congrArg (fun x => x.getLsbD j) hcut
      have hj' : j < 160 := by omega
      have hj64 : j < 64 := hj
      have hplain : r.plain.hdr = r.hdr.bits := rfl
      simpa [hj', hj64, hplain] using hbit
    rw [hlow, r.cut_bits.2]
    exact UdpPktHdr.cast_bits _
  have hbytes : r.udp.length - 8 = BitVec.ofNat 16 r.payload.length := by
    have hlen : r.udp.length = BitVec.ofNat 16 (8 + r.payload.length) := by
      rw [← r.len, BitVec.ofNat_toNat, BitVec.setWidth_eq]
      rfl
    rw [hlen]
    bv_omega
  have hnat : (BitVec.ofNat 16 r.payload.length).toNat = r.payload.length := by
    rw [BitVec.toNat_ofNat, Nat.mod_eq_of_lt (by omega)]
  have hzero : BitVec.ofNat 16 r.payload.length = 0 ↔ r.plain.body = [] := by
    rw [← BitVec.toNat_inj, hnat]
    exact List.length_eq_zero_iff
  have hchk : r.udp.chksum = 0 := rfl
  have hbody : r.plain.body.length = r.payload.length := rfl
  rw [hframe, hbody]
  simp only [udpRxOutput, hcast, hchk, if_true, hbytes, hnat]
  by_cases hempty : r.plain.body = []
  · rw [if_pos (hzero.mpr hempty), if_pos hempty]
  · rw [if_neg fun h => hempty (hzero.mp h), if_neg hempty]
    have hle : r.payload.length ≤ 44 ↔ 20 + r.payload.length ≤ 64 := by omega
    simp only [hle]

/-- What the receive path gives out for the request. -/
def owed : UdpReqHdr := { r.hdr with udpHdr := r.udp }

theorem rxHdr_plain : udpRxHdr r.plain.hdr r.plain.timestamp = r.owed := by
  have hcut := r.cut_bits
  show udpRxHdr r.hdr.bits r.hdr.timestamp = _
  rw [udpRxHdr, hcut.1, hcut.2]
  have hp : ChksumPseudoHdr.cast r.pseudo.bits = r.pseudo := ChksumPseudoHdr.cast_bits _
  have hu : UdpPktHdr.cast r.udp.bits = r.udp := UdpPktHdr.cast_bits _
  rw [hp, hu]
  rfl

end UdpRequest

namespace UdpSystem

variable {mask : Line → BitVec 6 → Bool → Line} {reqs : List UdpRequest} {s : UdpSystem} {e : UdpEnv}

/-! ### The two paths -/

def txPath (s : UdpSystem) : ChksumPath 20 12 := ⟨s.txIn, s.txChk, s.txOut⟩

def rxPath (s : UdpSystem) : ChksumPath 12 20 := ⟨s.rxIn, s.rxChk, s.rxOut⟩

theorem txPath_wired : s.txPath.Wired (s.txInWires e) (s.txOutWires e) := by
  refine ⟨rfl, fun h => (Bool.and_eq_true_iff.mp h).2, rfl, fun l hl => ?_⟩
  have hresp : s.txChk.resp = some l := hl
  simp [txOutWires, hresp]

theorem rxPath_wired : s.rxPath.Wired (s.rxInWires mask e) (s.rxOutWires e) := by
  refine ⟨rfl, fun h => (Bool.and_eq_true_iff.mp h).2, rfl, fun l hl => ?_⟩
  have hresp : s.rxChk.resp = some l := hl
  simp [rxOutWires, hresp]

theorem places : ChksumPath.Places udpChksumCmd 18 := ⟨rfl, by decide, by decide⟩

/-- The link hands over headers and lines in both paths at once. -/
theorem link_hdr : s.rxIn.takesHdr (s.rxInWires mask e) = s.txOut.givesHdr (s.txOutWires e) := by
  show (e.linkHdr && s.txOut.hdrVal && s.rxIn.hdrRdy s.rxChk.cmdRdy) =
    (s.txOut.hdrVal && (e.linkHdr && s.rxIn.hdrRdy s.rxChk.cmdRdy))
  cases e.linkHdr <;> cases s.txOut.hdrVal <;> rfl

theorem link_data : s.rxIn.takesData (s.rxInWires mask e) = s.txOut.gives (s.txOutWires e) := by
  show (e.linkData && s.txOut.dataVal (s.txOutWires e) && s.rxIn.dataRdy (s.rxReqRdy e)) =
    (s.txOut.dataVal (s.txOutWires e) && (e.linkData && s.rxIn.dataRdy (s.rxReqRdy e)))
  cases e.linkData <;> cases s.txOut.dataVal (s.txOutWires e) <;> rfl

/-- What is still to come and what is owed along the two paths. The packets `ahead` have not been
begun by the output controller of the first path, and the headers of the packets `linked` have not
gone over to the second path. -/
structure Owed where
  tx : PathLists 20 12
  rx : PathLists 12 20
  ahead : List UdpRequest
  linked : List UdpRequest

/-- What is left after a cycle. -/
def owedNext (mask : Line → BitVec 6 → Bool → Line) (s : UdpSystem) (g : Owed) (e : UdpEnv) :
    Owed where
  tx := s.txPath.left (s.txInWires e) (s.txOutWires e) g.tx
  rx := s.rxPath.left (s.rxInWires mask e) (s.rxOutWires e) g.rx
  ahead := if s.txOut.begins (s.txOutWires e) then g.ahead.tail else g.ahead
  linked := if s.txOut.givesHdr (s.txOutWires e) then g.linked.tail else g.linked

/-- What the second path gives out is what was asked for. -/
structure Inv (reqs : List UdpRequest) (s : UdpSystem) (g : Owed) : Prop where
  tx : s.txPath.Owes udpTxOutput udpChksumCmd 18 g.tx
  rx : s.rxPath.Owes udpRxOutput udpChksumCmd 18 g.rx
  pkts : g.tx.pkts = s.srcHdrs.map UdpRequest.plain
  data : g.tx.data = s.srcData.map DataLine.read
  waiting : g.tx.waiting = g.ahead.map UdpRequest.summed
  linkHdrs : g.tx.hdrs = g.linked.map fun r => r.summed.head
  linkPkts : g.rx.pkts = g.linked.map UdpRequest.summed
  linkData : g.rx.data = g.tx.lines
  pair : g.ahead <:+ g.linked
  hdrs : s.hdrs ++ g.rx.hdrs.map (fun h => udpRxHdr h.1 h.2) = reqs.map UdpRequest.owed
  lines : s.data ++ g.rx.lines = reqs.flatMap fun r => beats 64 r.payload

def owedInit (reqs : List UdpRequest) : Owed where
  tx :=
    { pkts := reqs.map UdpRequest.plain
      data := reqs.flatMap fun r => beats 64 r.payload
      reqs := (reqs.map UdpRequest.plain).flatMap ChkPkt.toks
      resps := (reqs.map UdpRequest.summed).flatMap ChkPkt.toks
      waiting := reqs.map UdpRequest.summed
      hdrs := reqs.map fun r => r.summed.head
      lines := (reqs.map UdpRequest.summed).flatMap ChkPkt.lines }
  rx :=
    { pkts := reqs.map UdpRequest.summed
      data := (reqs.map UdpRequest.summed).flatMap ChkPkt.lines
      reqs := (reqs.map UdpRequest.summed).flatMap ChkPkt.toks
      resps := (reqs.map UdpRequest.plain).flatMap ChkPkt.toks
      waiting := reqs.map UdpRequest.plain
      hdrs := reqs.map fun r => r.plain.head
      lines := reqs.flatMap fun r => beats 64 r.payload }
  ahead := reqs
  linked := reqs

theorem flatMap_plain_lines (reqs : List UdpRequest) :
    (reqs.map UdpRequest.plain).flatMap ChkPkt.lines = reqs.flatMap fun r => beats 64 r.payload := by
  rw [List.flatMap_map]
  rfl

theorem inv_init (hi : Init reqs s) : Inv reqs s (owedInit reqs) := by
  have hseal := ChksumPath.sealAll_toks UdpRequest.plain UdpRequest.summed reqs (j := 18)
    (by decide) (by decide) (fun _ => rfl) UdpRequest.summed_frame
  have hopen := ChksumPath.sealAll_toks UdpRequest.summed UdpRequest.plain reqs (j := 18)
    (by decide) (by decide) (fun _ => rfl) (fun r => r.sealed_summed.symm)
  have hsrc : s.srcData.map DataLine.read = reqs.flatMap fun r => beats 64 r.payload := by
    rw [hi.src.2, List.map_flatMap]
    exact congrArg (fun f => reqs.flatMap f) (funext UdpRequest.carried)
  have htx : ∀ p ∈ reqs.map UdpRequest.summed, udpTxOutput.Passes p := by
    simp only [List.mem_map]
    rintro p ⟨r, -, rfl⟩
    exact r.passes_summed
  have hrx : ∀ p ∈ reqs.map UdpRequest.plain, udpRxOutput.Passes p := by
    simp only [List.mem_map]
    rintro p ⟨r, -, rfl⟩
    exact r.passes_plain
  refine ⟨⟨?_, ?_, ?_⟩, ⟨?_, ?_, ?_⟩, ?_, hsrc.symm, rfl, rfl, rfl, rfl, List.suffix_rfl, ?_, ?_⟩
  · exact .ready hi.txIn hi.txChk.1 (flatMap_plain_lines reqs).symm rfl
  · show ChksumUnit.Holds _ _ _ _ ((reqs.map UdpRequest.summed).flatMap ChkPkt.toks)
    rw [← hseal]
    exact ChksumUnit.holds_reset hi.txChk
  · exact .ready htx hi.txOut.1 hi.txOut.2 rfl (by simp [owedInit]) rfl
  · exact .ready hi.rxIn hi.rxChk.1 rfl rfl
  · show ChksumUnit.Holds _ _ _ _ ((reqs.map UdpRequest.plain).flatMap ChkPkt.toks)
    rw [← hopen]
    exact ChksumUnit.holds_reset hi.rxChk
  · exact .ready hrx hi.rxOut.1 hi.rxOut.2 rfl (by simp [owedInit]) (flatMap_plain_lines reqs).symm
  · rw [hi.src.1]
    rfl
  · rw [hi.empty.1, List.nil_append]
    show (reqs.map fun r => r.plain.head).map _ = _
    rw [List.map_map]
    exact congrArg (fun f => reqs.map f) (funext UdpRequest.rxHdr_plain)
  · rw [hi.empty.2]
    rfl

/-- `data_masker` changes padding only. -/
def Keeps (mask : Line → BitVec 6 → Bool → Line) : Prop :=
  ∀ d pad last, readBeat (mask d pad last) last pad = readBeat d last pad

/-- A header the first path takes is that of the next request. -/
theorem tx_hdr {g : Owed} (hv : Inv reqs s g) (ht : s.txPath.inp.takesHdr (s.txInWires e) = true) :
    ∃ q ps, g.tx.pkts = q :: ps ∧ (s.txInWires e).hdr = q.hdr ∧
      (s.txInWires e).timestamp = q.timestamp ∧ ((s.txInWires e).hdrOnly = true ↔ q.body = []) := by
  have hval := (Bool.and_eq_true_iff.mp ht).1
  obtain ⟨ho, hne⟩ := Bool.and_eq_true_iff.mp hval
  obtain ⟨r, rs, hr⟩ : ∃ r rs, s.srcHdrs = r :: rs := by
    cases hs : s.srcHdrs with
    | nil => simp [hs] at hne
    | cons r rs => exact ⟨r, rs, rfl⟩
  refine ⟨r.plain, rs.map UdpRequest.plain, by rw [hv.pkts, hr, List.map_cons], ?_, ?_, ?_⟩
  · simp [txInWires, udpTxInput, ho, hr, UdpRequest.plain]
  · simp [txInWires, udpTxInput, ho, hr, UdpRequest.plain]
  · have hlen := r.len
    have hpay := r.length_payload
    have hiff : r.hdr.udpHdr.length = 8 ↔ r.payload = [] := by
      rw [← BitVec.toNat_inj, hlen, ← List.length_eq_zero_iff]
      show 8 + r.payload.length = 8 ↔ _
      omega
    simpa [txInWires, udpTxInput, ho, hr, UdpRequest.plain] using hiff

theorem tx_data {g : Owed} (hv : Inv reqs s g)
    (ht : s.txPath.inp.takesData (s.txInWires e) = true) :
    ∃ d ds, g.tx.data = d :: ds ∧ (s.txInWires e).line.read = d := by
  have hval := (Bool.and_eq_true_iff.mp ht).1
  obtain ⟨ho, hne⟩ := Bool.and_eq_true_iff.mp hval
  cases hs : s.srcData with
  | nil => simp [hs] at hne
  | cons d ds =>
    exact ⟨d.read, ds.map DataLine.read, by rw [hv.data, hs, List.map_cons],
      by simp [txInWires, udpTxInput, ho, hs]⟩

theorem tx_moves {g : Owed} (hv : Inv reqs s g) : ChksumPath.Moves udpTxOutput udpChksumCmd s.txPath
    (s.txInWires e) (s.txOutWires e) 18 g.tx e.txRespond :=
  hv.tx.moves places txPath_wired (by decide) (by decide) (by decide) (by decide) _
    (tx_hdr hv) (tx_data hv)

/-- A header the second path takes is that of the next packet on the link. -/
theorem rx_hdr {g : Owed} (hv : Inv reqs s g)
    (ht : s.rxPath.inp.takesHdr (s.rxInWires mask e) = true) :
    ∃ q ps, g.rx.pkts = q :: ps ∧ (s.rxInWires mask e).hdr = q.hdr ∧
      (s.rxInWires mask e).timestamp = q.timestamp ∧
      ((s.rxInWires mask e).hdrOnly = true ↔ q.body = []) := by
  have hg : s.txOut.givesHdr (s.txOutWires e) = true := link_hdr.symm.trans ht
  obtain ⟨hst, hs, hhs⟩ := (tx_moves (e := e) hv).hdr (Bool.and_eq_true_iff.mp hg).1
  rw [hv.linkHdrs] at hhs
  cases hl : g.linked with
  | nil => simp [hl] at hhs
  | cons r rs =>
    rw [hl, List.map_cons, List.cons.injEq, ChkPkt.head, Prod.mk.injEq] at hhs
    obtain ⟨⟨hhdr, htime⟩, -⟩ := hhs
    have hlink : s.linkHdr e = udpTxHdr r.summed.hdr r.summed.timestamp := by
      have hst' : s.txOut.state ≠ .ready := hst
      rw [linkHdr, OutputCtrl.hdrNext, OutputCtrl.timestampNext, if_neg fun h => hst' h.1,
        if_neg hst', hhdr, htime]
      rfl
    refine ⟨r.summed, rs.map UdpRequest.summed, by rw [hv.linkPkts, hl, List.map_cons], ?_, ?_, ?_⟩
    · show (udpPseudoHdr (s.linkHdr e).srcIp (s.linkHdr e).dstIp (s.linkHdr e).udpLen).bits = _
      have hcast : ChksumPseudoHdr.cast r.summed.hdr = r.pseudo := ChksumPseudoHdr.cast_bits _
      rw [hlink, udpTxHdr, hcast]
      rfl
    · show (s.linkHdr e).timestamp = _
      rw [hlink]
      rfl
    · have hne : r.summed.body ≠ [] := by
        refine List.ne_nil_of_length_pos ?_
        rw [r.length_summed]
        omega
      have hmore : (s.rxInWires mask e).hdrOnly = false := rfl
      simp [hmore, hne]

theorem rx_data {g : Owed} (hv : Inv reqs s g) (hmask : Keeps mask)
    (ht : s.rxPath.inp.takesData (s.rxInWires mask e) = true) :
    ∃ d ds, g.rx.data = d :: ds ∧ (s.rxInWires mask e).line.read = d := by
  have hg : s.txOut.gives (s.txOutWires e) = true := link_data.symm.trans ht
  obtain ⟨ds, hds⟩ := (tx_moves (e := e) hv).data hg
  exact ⟨_, ds, hv.linkData.trans hds, hmask ..⟩

theorem rx_moves {g : Owed} (hv : Inv reqs s g) (hmask : Keeps mask) :
    ChksumPath.Moves udpRxOutput udpChksumCmd s.rxPath (s.rxInWires mask e) (s.rxOutWires e) 18 g.rx
      e.rxRespond :=
  hv.rx.moves places rxPath_wired (by decide) (by decide) (by decide) (by decide) _
    (rx_hdr hv) (rx_data hv hmask)

/-- The packets not begun stay behind those not on the link. -/
theorem pair_next {g : Owed} (hv : Inv reqs s g) :
    (owedNext mask s g e).ahead <:+ (owedNext mask s g e).linked := by
  show (if s.txOut.begins (s.txOutWires e) then g.ahead.tail else g.ahead) <:+
    if s.txOut.givesHdr (s.txOutWires e) then g.linked.tail else g.linked
  have hahead : (if s.txOut.begins (s.txOutWires e) then g.ahead.tail else g.ahead) <:+ g.ahead := by
    split_ifs
    · exact List.tail_suffix _
    · exact List.suffix_rfl
  refine hahead.trans ?_
  split_ifs with hg
  · have hval : s.txOut.hdrVal = true := (Bool.and_eq_true_iff.mp hg).1
    have hlen := hv.tx.length_hdrs
    have hpair := hv.pair
    rw [hv.linkHdrs, hv.waiting, List.length_map, List.length_map] at hlen
    have hone : s.txPath.out.hdrVal.toNat = 1 := by
      show s.txOut.hdrVal.toNat = 1
      rw [hval]
      rfl
    cases hl : g.linked with
    | nil =>
      rw [hl, List.length_nil] at hlen
      omega
    | cons r rs =>
      rw [hl] at hpair hlen
      rcases List.suffix_cons_iff.mp hpair with heq | hsuf
      · rw [heq] at hlen
        omega
      · exact hsuf
  · exact hv.pair

theorem inv_cycle {g : Owed} (hv : Inv reqs s g) (hmask : Keeps mask) :
    Inv reqs (s.cycle mask e) (owedNext mask s g e) := by
  have htx := tx_moves (e := e) hv
  have hrx := rx_moves (e := e) hv hmask
  refine ⟨htx.owes, hrx.owes, ?_, ?_, ?_, ?_, ?_, ?_, pair_next hv, ?_, ?_⟩
  · show (if s.txIn.takesHdr (s.txInWires e) then g.tx.pkts.tail else g.tx.pkts) = _
    rw [hv.pkts, map_tail_if]
    rfl
  · show (if s.txIn.takesData (s.txInWires e) then g.tx.data.tail else g.tx.data) = _
    rw [hv.data, map_tail_if]
    rfl
  · show (if s.txOut.begins (s.txOutWires e) then g.tx.waiting.tail else g.tx.waiting) = _
    rw [hv.waiting, map_tail_if]
    rfl
  · show (if s.txOut.givesHdr (s.txOutWires e) then g.tx.hdrs.tail else g.tx.hdrs) = _
    rw [hv.linkHdrs, map_tail_if]
    rfl
  · show (if s.rxIn.takesHdr (s.rxInWires mask e) then g.rx.pkts.tail else g.rx.pkts) = _
    rw [link_hdr, hv.linkPkts, map_tail_if]
    rfl
  · show (if s.rxIn.takesData (s.rxInWires mask e) then g.rx.data.tail else g.rx.data) =
      if s.txOut.gives (s.txOutWires e) then g.tx.lines.tail else g.tx.lines
    rw [link_data, hv.linkData]
  · show (if s.rxOut.givesHdr (s.rxOutWires e) then
        s.hdrs ++ [udpRxHdr s.rxOut.hdr s.rxOut.timestamp] else s.hdrs) ++
      (if s.rxOut.givesHdr (s.rxOutWires e) then g.rx.hdrs.tail else g.rx.hdrs).map _ = _
    rw [← hv.hdrs]
    split_ifs with hg
    · obtain ⟨-, hs, hhs⟩ := hrx.hdr (Bool.and_eq_true_iff.mp hg).1
      simp [hhs, rxPath]
    · rfl
  · show (if s.rxOut.gives (s.rxOutWires e) then
        s.data ++ [(s.rxOut.dataOut (s.rxOutWires e)).read] else s.data) ++
      (if s.rxOut.gives (s.rxOutWires e) then g.rx.lines.tail else g.rx.lines) = _
    rw [← hv.lines]
    split_ifs with hg
    · obtain ⟨ds, hds⟩ := hrx.data hg
      simp [hds, rxPath]
    · rfl

/-! ### Progress -/

/-- What the surroundings do in their own time. -/
inductive UdpEvent where
  | offerHdr | txReq | txRespond | linkHdr | rxReq | rxRespond | hdrRdy | dataRdy
  deriving DecidableEq

/-- The event happens in this cycle. A unit takes lines that come from a bus while they are on it. -/
def Given (e : UdpEnv) : UdpEvent → Prop
  | .offerHdr => e.offerHdr = true
  | .txReq => e.txReqRdy = true ∧ e.offerData = true
  | .txRespond => e.txRespond = true
  | .linkHdr => e.linkHdr = true
  | .rxReq => e.rxReqRdy = true ∧ e.linkData = true
  | .rxRespond => e.rxRespond = true
  | .hdrRdy => e.hdrRdy = true
  | .dataRdy => e.dataRdy = true

/-- Every request has come out. -/
structure Delivered (reqs : List UdpRequest) (s : UdpSystem) : Prop where
  srcHdrs : s.srcHdrs = []
  srcData : s.srcData = []
  hdrs : s.hdrs = reqs.map UdpRequest.owed
  data : s.data = reqs.flatMap fun r => beats 64 r.payload

/-- The event lets something move. -/
def Awaits (s : UdpSystem) : UdpEvent → Prop
  | .offerHdr => s.txIn.state = .ready ∧ s.srcHdrs ≠ []
  | .txReq => s.txIn.state ≠ .ready
  | .txRespond => s.txPath.Awaiting
  | .linkHdr => s.rxIn.state = .ready ∧ s.txOut.hdrState = .output
  | .rxReq =>
    s.rxIn.state = .chksumDataLast ∨ s.rxIn.state = .chksumDataInput ∧ s.txPath.HasLine
  | .rxRespond => s.rxPath.Awaiting
  | .hdrRdy => s.rxOut.hdrState = .output
  | .dataRdy => s.rxPath.HasLine

def moved (mask : Line → BitVec 6 → Bool → Line) (s : UdpSystem) (e : UdpEnv) : Nat :=
  s.txPath.moved (s.txInWires e) (s.txOutWires e) e.txRespond +
    s.rxPath.moved (s.rxInWires mask e) (s.rxOutWires e) e.rxRespond

def work (s : UdpSystem) (g : Owed) : Nat := s.txPath.work g.tx + s.rxPath.work g.rx

/-- Everything that moves lowers the work. -/
theorem work_le {g : Owed} (hv : Inv reqs s g) (hmask : Keeps mask) :
    (s.cycle mask e).work (owedNext mask s g e) + s.moved mask e ≤ s.work g := by
  have htx : (s.cycle mask e).txPath.work (owedNext mask s g e).tx +
      s.txPath.moved (s.txInWires e) (s.txOutWires e) e.txRespond ≤ s.txPath.work g.tx := by
    refine (tx_moves hv).work_le txPath_wired ?_ ?_
    · intro h
      obtain ⟨q, ps, hq, -⟩ := tx_hdr hv h
      simp [hq]
    · intro h
      obtain ⟨d, ds, hd, -⟩ := tx_data hv h
      simp [hd]
  have hrx : (s.cycle mask e).rxPath.work (owedNext mask s g e).rx +
      s.rxPath.moved (s.rxInWires mask e) (s.rxOutWires e) e.rxRespond ≤ s.rxPath.work g.rx := by
    refine (rx_moves hv hmask).work_le rxPath_wired ?_ ?_
    · intro h
      obtain ⟨q, ps, hq, -⟩ := rx_hdr hv h
      simp [hq]
    · intro h
      obtain ⟨d, ds, hd, -⟩ := rx_data hv hmask h
      simp [hd]
  simp only [work, moved]
  omega

/-- Where nothing moves, the same event is awaited. -/
theorem awaits_next {g : Owed} (hv : Inv reqs s g) {k : UdpEvent} (ha : s.Awaits k)
    (hz : s.moved mask e = 0) : (s.cycle mask e).Awaits k := by
  obtain ⟨hz1, hz2⟩ := Nat.add_eq_zero_iff.mp hz
  have htx : ChksumPath.Still s.txPath (s.cycle mask e).txPath :=
    ChksumPath.still hz1 hv.tx.not_drain
  have hrx : ChksumPath.Still s.rxPath (s.cycle mask e).rxPath :=
    ChksumPath.still hz2 hv.rx.not_drain
  have hin : (s.cycle mask e).txIn.state = s.txIn.state := htx.inp
  have hin' : (s.cycle mask e).rxIn.state = s.rxIn.state := hrx.inp
  have hhdr : (s.cycle mask e).txOut.hdrState = s.txOut.hdrState := htx.hdr
  have hhdr' : (s.cycle mask e).rxOut.hdrState = s.rxOut.hdrState := hrx.hdr
  cases k with
  | offerHdr =>
    have hkeep : (s.cycle mask e).srcHdrs = s.srcHdrs := by
      have hno : ¬ s.txIn.takesHdr (s.txInWires e) = true := by
        intro ht
        have hpos : 0 < s.txPath.moved (s.txInWires e) (s.txOutWires e) e.txRespond :=
          ChksumPath.moved_pos (.inl ht)
        omega
      exact if_neg hno
    simpa [Awaits, hin, hkeep] using ha
  | txReq => simpa [Awaits, hin] using ha
  | txRespond => simpa [Awaits, ChksumPath.Awaiting, htx.lines, htx.valid] using ha
  | linkHdr => simpa [Awaits, hin', hhdr] using ha
  | rxReq => simpa [Awaits, ChksumPath.HasLine, hin', htx.out, htx.valid] using ha
  | rxRespond => simpa [Awaits, ChksumPath.Awaiting, hrx.lines, hrx.valid] using ha
  | hdrRdy => simpa [Awaits, hhdr'] using ha
  | dataRdy => simpa [Awaits, ChksumPath.HasLine, hrx.out, hrx.valid] using ha

/-- The first unit takes a line. -/
theorem tx_sends {g : Owed} (hv : Inv reqs s g) (ha : s.Awaits .txReq) (hg : Given e .txReq) :
    (s.txIn.sent (s.txInWires e)).isSome = true := by
  obtain ⟨hq, ho⟩ : e.txReqRdy = true ∧ e.offerData = true := hg
  cases hv.tx.inp with
  | ready hst => exact absurd hst ha
  | dataInput rest hst hb hr hd =>
    have hst' : s.txIn.state = .chksumDataInput := hst
    have hb' : s.txChk.transferIn = true := hb
    have hne : s.srcData ≠ [] := by
      intro hnil
      rw [hv.data, hnil] at hd
      exact beats_ne_nil (by decide) hr (List.append_eq_nil_iff.mp hd.symm).1
    simp [InputCtrl.sent, InputCtrl.req, txInWires, udpTxInput, hst', hb', hq, ho, hne]
  | dataLast hst hb =>
    have hst' : s.txIn.state = .chksumDataLast := hst
    have hb' : s.txChk.transferIn = true := hb
    simp [InputCtrl.sent, InputCtrl.req, txInWires, udpTxInput, hst', hb', hq]

/-- The second unit takes a line. -/
theorem rx_sends {g : Owed} (hv : Inv reqs s g) (ha : s.Awaits .rxReq) (hg : Given e .rxReq) :
    (s.rxIn.sent (s.rxInWires mask e)).isSome = true := by
  obtain ⟨hq, hlink⟩ : e.rxReqRdy = true ∧ e.linkData = true := hg
  cases hv.rx.inp with
  | ready hst =>
    have hst' : s.rxIn.state = .ready := hst
    simp [Awaits, hst'] at ha
  | dataInput rest hst hb =>
    have hst' : s.rxIn.state = .chksumDataInput := hst
    have hb' : s.rxChk.transferIn = true := hb
    have hline : s.txPath.HasLine := by simpa [Awaits, hst'] using ha
    have hval : s.txOut.dataVal (s.txOutWires e) = true := hline.dataVal txPath_wired
    simp [InputCtrl.sent, InputCtrl.req, rxInWires, rxReqRdy, udpRxInput, hst', hb', hq, hlink, hval]
  | dataLast hst hb =>
    have hst' : s.rxIn.state = .chksumDataLast := hst
    have hb' : s.rxChk.transferIn = true := hb
    simp [InputCtrl.sent, InputCtrl.req, rxInWires, rxReqRdy, udpRxInput, hst', hb', hq]

theorem tx_idle {g : Owed} (hv : Inv reqs s g) (hs : s.txIn.state = .ready) :
    s.txChk.cmdRdy = true := by
  cases hv.tx.inp with
  | ready hst hb =>
    have hb' : s.txChk.transferIn = false := hb
    simp [ChksumUnit.cmdRdy, hb']
  | dataInput rest hst => cases hs.symm.trans hst
  | dataLast hst => cases hs.symm.trans hst

theorem rx_idle {g : Owed} (hv : Inv reqs s g) (hs : s.rxIn.state = .ready) :
    s.rxChk.cmdRdy = true ∧ g.rx.data = [] ++ g.rx.pkts.flatMap ChkPkt.lines := by
  cases hv.rx.inp with
  | ready hst hb hd =>
    have hb' : s.rxChk.transferIn = false := hb
    exact ⟨by simp [ChksumUnit.cmdRdy, hb'], hd⟩
  | dataInput rest hst => cases hs.symm.trans hst
  | dataLast hst => cases hs.symm.trans hst

/-- An event that is awaited lets something move. -/
theorem moves {g : Owed} (hv : Inv reqs s g) {k : UdpEvent} (ha : s.Awaits k) (hg : Given e k) :
    0 < s.moved mask e := by
  cases k with
  | offerHdr =>
    obtain ⟨hst, hne⟩ := ha
    have ho : e.offerHdr = true := hg
    have ht : s.txPath.inp.takesHdr (s.txInWires e) = true := by
      simp [InputCtrl.takesHdr, InputCtrl.hdrRdy, txPath, txInWires, udpTxInput, hst, ho, hne,
        tx_idle hv hst]
    exact Nat.add_pos_left (ChksumPath.moved_pos (by simp [ht])) _
  | txReq =>
    have ht : (s.txPath.inp.sent (s.txInWires e)).isSome = true := tx_sends hv ha hg
    exact Nat.add_pos_left (ChksumPath.moved_pos (.inr (.inl ht))) _
  | txRespond =>
    obtain ⟨hne, hval⟩ := ha
    have hr : e.txRespond = true := hg
    exact Nat.add_pos_left (ChksumPath.moved_pos (by simp [hne, hval, hr])) _
  | linkHdr =>
    obtain ⟨hst, hs⟩ := ha
    have hl : e.linkHdr = true := hg
    have ht : s.txPath.out.givesHdr (s.txOutWires e) = true := by
      simp [OutputCtrl.givesHdr, OutputCtrl.hdrVal, txPath, hs, txOutWires, hl, InputCtrl.hdrRdy, hst,
        (rx_idle hv hst).1]
    exact Nat.add_pos_left (ChksumPath.moved_pos (by simp [ht])) _
  | rxReq =>
    have ht : (s.rxPath.inp.sent (s.rxInWires mask e)).isSome = true := rx_sends hv ha hg
    exact Nat.add_pos_right _ (ChksumPath.moved_pos (.inr (.inl ht)))
  | rxRespond =>
    obtain ⟨hne, hval⟩ := ha
    have hr : e.rxRespond = true := hg
    exact Nat.add_pos_right _ (ChksumPath.moved_pos (by simp [hne, hval, hr]))
  | hdrRdy =>
    have hs : s.rxOut.hdrState = .output := ha
    have hr : e.hdrRdy = true := hg
    have ht : s.rxPath.out.givesHdr (s.rxOutWires e) = true := by
      simp [OutputCtrl.givesHdr, OutputCtrl.hdrVal, rxPath, hs, rxOutWires, hr]
    exact Nat.add_pos_right _ (ChksumPath.moved_pos (by simp [ht]))
  | dataRdy =>
    have hr : e.dataRdy = true := hg
    have hw : s.rxPath.Wired (s.rxInWires mask e) (s.rxOutWires e) := rxPath_wired
    have hval := ChksumPath.HasLine.dataVal ha hw
    have ht : s.rxPath.out.gives (s.rxOutWires e) = true := Bool.and_eq_true_iff.mpr ⟨hval, hr⟩
    exact Nat.add_pos_right _ (ChksumPath.moved_pos (by simp [ht]))

/-- Something moves in every cycle, or an event is awaited. -/
def GoesOn (mask : Line → BitVec 6 → Bool → Line) (s : UdpSystem) (k : UdpEvent) : Prop :=
  (∀ e, 0 < s.moved mask e) ∨ s.Awaits k

/-- The lines that are on their way over the link, seen from its two ends. -/
theorem link_lines {g : Owed} (hv : Inv reqs s g) {d f : List (Beat (BitVec 8))}
    (hd : g.rx.data = d ++ g.rx.pkts.flatMap ChkPkt.lines)
    (hf : g.tx.lines = f ++ g.tx.waiting.flatMap ChkPkt.lines) :
    (d ≠ [] → f ≠ []) ∧ (s.txOut.hdrVal = false → f ≠ [] → d ≠ []) := by
  obtain ⟨c, hc⟩ := hv.pair
  have hlen := hv.tx.length_hdrs
  rw [hv.linkHdrs, hv.waiting, ← hc, List.length_map, List.length_map, List.length_append] at hlen
  have heq : d ++ (c.map UdpRequest.summed).flatMap ChkPkt.lines = f := by
    have hall := hd.symm.trans (hv.linkData.trans hf)
    rw [hv.linkPkts, ← hc, hv.waiting, List.map_append, List.flatMap_append,
      ← List.append_assoc] at hall
    exact List.append_cancel_right hall
  refine ⟨fun hne => by simp [← heq, hne], fun hval hne => ?_⟩
  have hnil : c = [] := by
    have hz : s.txPath.out.hdrVal.toNat = 0 := by
      show s.txOut.hdrVal.toNat = 0
      rw [hval]
      rfl
    exact List.eq_nil_of_length_eq_zero (by omega)
  simpa [← heq, hnil] using hne

/-- The second path waits for a header. -/
theorem wants_hdr {g : Owed} (hv : Inv reqs s g) (hr : s.rxIn.state = .ready) :
    (∃ k, GoesOn mask s k) ∨ s.txPath.Starved := by
  rcases hv.tx.waits with hs | ha | hs | hl | ⟨-, hs⟩
  · exact .inl ⟨.txReq, .inl fun e => Nat.add_pos_left (hs.moves txPath_wired _) _⟩
  · exact .inl ⟨.txRespond, .inr ha⟩
  · exact .inr hs
  · -- a line that is on its way has its header with it
    obtain ⟨f, hne, hf⟩ := hv.tx.line_owed hl
    cases hval : s.txOut.hdrVal with
    | true => exact .inl ⟨.linkHdr, .inr ⟨hr, eq_of_beq hval⟩⟩
    | false => exact absurd rfl ((link_lines hv (rx_idle hv hr).2 hf).2 hval hne)
  · exact .inl ⟨.linkHdr, .inr ⟨hr, hs⟩⟩

/-- The second path waits for a line. -/
theorem wants_data {g : Owed} (hv : Inv reqs s g) (hr : s.rxIn.state = .chksumDataInput) :
    g.rx.data ≠ [] ∧ ((∃ k, GoesOn mask s k) ∨ s.txPath.Starved) := by
  obtain ⟨d, hne, hd⟩ : ∃ d, d ≠ [] ∧ g.rx.data = d ++ g.rx.pkts.flatMap ChkPkt.lines := by
    cases hv.rx.inp with
    | ready hst => cases hr.symm.trans hst
    | dataInput rest hst hb hr hd => exact ⟨_, beats_ne_nil (by decide) hr, hd⟩
    | dataLast hst => cases hr.symm.trans hst
  refine ⟨by simp [hd, hne], ?_⟩
  rcases hv.tx.waits with hs | ha | hs | hl | ⟨hst, -⟩
  · exact .inl ⟨.txReq, .inl fun e => Nat.add_pos_left (hs.moves txPath_wired _) _⟩
  · exact .inl ⟨.txRespond, .inr ha⟩
  · exact .inr hs
  · exact .inl ⟨.rxReq, .inr (.inr ⟨hr, hl⟩)⟩
  · -- the packet has no more lines, but one is missing
    have hf : g.tx.lines = [] ++ g.tx.waiting.flatMap ChkPkt.lines := by
      cases hv.tx.out with
      | ready hps hst' hh ht hhs hd => exact hd
      | output hps q user rest hst' => cases hst.symm.trans hst'
      | outputLast hps q hst' => cases hst.symm.trans hst'
      | waitTxFin hps q hst' hq ht hhs hd => exact hd
    exact absurd rfl ((link_lines hv hd hf).1 hne)

/-- A starved first path goes on as long as there are requests. -/
theorem tx_starved {g : Owed} (hv : Inv reqs s g) (hs : s.txPath.Starved) :
    (∃ k, GoesOn mask s k) ∨
      s.srcHdrs = [] ∧ s.srcData = [] ∧ g.linked = [] ∧ g.tx.lines = [] := by
  by_cases hst : s.txIn.state = .ready
  · by_cases hsrc : s.srcHdrs = []
    · obtain ⟨hd, hh, hl⟩ := hv.tx.drained hs hst (by rw [hv.pkts, hsrc]; rfl) (by decide)
      rw [hv.data, List.map_eq_nil_iff] at hd
      rw [hv.linkHdrs, List.map_eq_nil_iff] at hh
      exact .inr ⟨hsrc, hd, hh, hl⟩
    · exact .inl ⟨.offerHdr, .inr ⟨hst, hsrc⟩⟩
  · exact .inl ⟨.txReq, .inr hst⟩

/-- As long as something is missing, the paths go on. -/
theorem goes_on {g : Owed} (hv : Inv reqs s g) (hn : ¬ Delivered reqs s) :
    ∃ k, GoesOn mask s k := by
  rcases hv.rx.waits with hs | ha | hstarved | hl | ⟨-, hs⟩
  · exact ⟨.txReq, .inl fun e => Nat.add_pos_right _ (hs.moves rxPath_wired _)⟩
  · exact ⟨.rxRespond, .inr ha⟩
  · cases hst : s.rxIn.state with
    | chksumDataLast => exact ⟨.rxReq, .inr (.inl hst)⟩
    | chksumDataInput =>
      obtain ⟨hne, hk | htx⟩ := wants_data hv hst
      · exact hk
      · rcases tx_starved hv htx with hk | ⟨-, -, -, hl⟩
        · exact hk
        · exact absurd (hv.linkData.trans hl) hne
    | ready =>
      rcases wants_hdr hv hst with hk | htx
      · exact hk
      · rcases tx_starved hv htx with hk | ⟨h1, h2, hlinked, -⟩
        · exact hk
        · obtain ⟨-, hh, hl⟩ :=
            hv.rx.drained hstarved hst (by rw [hv.linkPkts, hlinked]; rfl) (by decide)
          refine absurd ⟨h1, h2, ?_, ?_⟩ hn
          · simpa [hh] using hv.hdrs
          · simpa [hl] using hv.lines
  · exact ⟨.dataRdy, .inr hl⟩
  · exact ⟨.hdrRdy, .inr hs⟩

/-! ### Whole runs -/

theorem inv_of_reach (hmask : Keeps mask) (h : Reach (Init reqs) (step mask) Free s) :
    ∃ g, Inv reqs s g := by
  refine h.invariant (I := fun s => ∃ g, Inv reqs s g) (fun _ hi => ⟨_, inv_init hi⟩) ?_
  rintro s e s' ⟨g, hv⟩ - hstep
  cases hstep
  exact ⟨_, inv_cycle hv hmask⟩

/-- The system together with what is owed. -/
def nextOwed (mask : Line → BitVec 6 → Bool → Line) (x : UdpSystem × Owed) (e : UdpEnv) :
    UdpSystem × Owed := (x.1.cycle mask e, owedNext mask x.1 x.2 e)

/-- If every event happens again and again, everything is delivered. -/
theorem Inv.delivers {g : Owed} (hv : Inv reqs s g) (hmask : Keeps mask) {sched : Nat → UdpEnv}
    (hf : Fair Given sched) : ∃ n, Delivered reqs (exec (cycle mask) s sched n) := by
  have hmap : ∀ n, (exec (nextOwed mask) (s, g) sched n).1 = exec (cycle mask) s sched n :=
    exec_map (fun _ _ => rfl) _ sched
  have hreach : ∃ n, Delivered reqs (exec (nextOwed mask) (s, g) sched n).1 := by
    apply exec_reaches_moving (I := fun x : UdpSystem × Owed => Inv reqs x.1 x.2)
      (G := fun x => Delivered reqs x.1) (fun x => x.1.work x.2) (fun x e => x.1.moved mask e)
      (fun x k => x.1.Awaits k) ?_ ?_ ?_ ?_ ?_ hv hf
    · intro x e hx
      exact inv_cycle hx hmask
    · intro x e hx
      exact work_le hx hmask
    · intro x hx hn
      exact goes_on hx hn
    · intro x e k hx ha hg
      exact moves hx ha hg
    · intro x e k hx ha hz
      exact awaits_next hx ha hz
  obtain ⟨n, hn⟩ := hreach
  exact ⟨n, hmap n ▸ hn⟩

end UdpSystem

/-- For all requests and schedules the second path gives out the headers and the payloads of the
requests in order, and if every event happens again and again it gives out all of them. -/
theorem udp_round_trip {mask : Line → BitVec 6 → Bool → Line} (hmask : UdpSystem.Keeps mask)
    (reqs : List UdpRequest) {s : UdpSystem}
    (h : Reach (UdpSystem.Init reqs) (UdpSystem.step mask) Free s) :
    (s.hdrs <+: reqs.map UdpRequest.owed ∧ s.data <+: reqs.flatMap fun r => beats 64 r.payload) ∧
      ∀ sched, Fair UdpSystem.Given sched →
        ∃ n, UdpSystem.Delivered reqs (exec (UdpSystem.cycle mask) s sched n) := by
  obtain ⟨g, hv⟩ := UdpSystem.inv_of_reach hmask h
  exact ⟨⟨⟨_, hv.hdrs⟩, ⟨_, hv.lines⟩⟩, fun sched hf => hv.delivers hmask hf⟩

/-! ### Fixed requests -/

/-- The padding of a last line is zero. -/
def clearPadding (d : Line) (pad : BitVec 6) (last : Bool) : Line :=
  if last then d >>> (8 * pad.toNat) <<< (8 * pad.toNat) else d

theorem keeps_clearPadding : UdpSystem.Keeps clearPadding := by
  intro d pad last
  cases last with
  | false => rfl
  | true =>
    have hbytes : (lineBytes (clearPadding d pad true)).take (64 - pad.toNat) =
        (lineBytes d).take (64 - pad.toNat) := by
      refine List.ext_getElem (by simp) fun i hi _ => ?_
      simp only [List.length_take, length_lineBytes] at hi
      simp only [List.getElem_take, lineBytes, List.getElem_map, List.getElem_range]
      refine BitVec.eq_of_getLsbD_eq fun j hj => ?_
      have hge : ¬ 8 * (63 - i) + j < 8 * pad.toNat := by omega
      have hlt : 8 * (63 - i) + j < 512 := by omega
      have hidx : 8 * pad.toNat + (8 * (63 - i) + j - 8 * pad.toNat) = 8 * (63 - i) + j := by omega
      rw [getLsbD_byte _ _ hj, getLsbD_byte _ _ hj]
      simp [clearPadding, hge, hlt, hidx]
    simp only [readBeat, if_true, hbytes]

/-- A request without payload. -/
def emptyRequest : UdpRequest where
  hdr := ⟨1, 2, ⟨3, 4, 8, 5⟩, 6⟩
  payload := []
  lines := []
  len := by decide
  carried := by decide

/-- 50 bytes of payload, which do not fit in one line with the headers. -/
def spillRequest : UdpRequest where
  hdr := ⟨1, 2, ⟨3, 4, 58, 5⟩, 7⟩
  payload := (lineBytes (BitVec.ofNat (8 * 64) (0x1234 * 2 ^ 400))).take 50
  lines := [⟨BitVec.ofNat 512 (0x1234 * 2 ^ 400), 14, true⟩]
  len := by decide +kernel
  carried := by decide +kernel

namespace UdpSystem

def reset (reqs : List UdpRequest) : UdpSystem where
  txIn := ⟨.ready, 0, 0, 0⟩
  txChk := ⟨false, default, [], [], false⟩
  txOut := ⟨.ready, .waiting, 0, 0, 0, 0⟩
  rxIn := ⟨.ready, 0, 0, 0⟩
  rxChk := ⟨false, default, [], [], false⟩
  rxOut := ⟨.ready, .waiting, 0, 0, 0, 0⟩
  srcHdrs := reqs
  srcData := reqs.flatMap UdpRequest.lines
  hdrs := []
  data := []

theorem init_reset (reqs : List UdpRequest) : Init reqs (reset reqs) :=
  ⟨rfl, ⟨rfl, rfl, rfl, rfl⟩, ⟨rfl, rfl⟩, rfl, ⟨rfl, rfl, rfl, rfl⟩, ⟨rfl, rfl⟩, ⟨rfl, rfl⟩,
    ⟨rfl, rfl⟩⟩

end UdpSystem

/-- Everything happens in every cycle. -/
def UdpEnv.calm : UdpEnv where
  offerHdr := true
  offerData := true
  txReqRdy := true
  txRespond := true
  linkHdr := true
  linkData := true
  rxReqRdy := true
  rxRespond := true
  hdrRdy := true
  dataRdy := true
  hdrBus := default
  lineBus := default
  txBus := default
  rxBus := default

/-- The two requests have come back after some cycles. -/
theorem udp_round_trip_two :
    ∃ s, Reach (UdpSystem.Init [emptyRequest, spillRequest]) (UdpSystem.step clearPadding) Free s ∧
      s.hdrs.map (fun h => h.udpHdr.length) = [8, 58] ∧
      s.data = [⟨spillRequest.payload, true, 14⟩] ∧
      (∃ n, UdpSystem.Delivered [emptyRequest, spillRequest]
        (exec (UdpSystem.cycle clearPadding) s (fun _ => .calm) n)) := by
  have hs : ∃ s, Reach (UdpSystem.Init [emptyRequest, spillRequest])
      (UdpSystem.step clearPadding) Free s ∧
        decide (s.hdrs.map (fun h => h.udpHdr.length) = [8, 58] ∧
          s.data = [⟨spillRequest.payload, true, 14⟩]) = true :=
    Reach.exists_of_run (List.replicate 24 .calm) (UdpSystem.init_reset _) (by decide +kernel)
  obtain ⟨s, hs, hp⟩ := hs
  obtain ⟨hh, hd⟩ := of_decide_eq_true hp
  have hfair : Fair UdpSystem.Given fun _ => UdpEnv.calm :=
    fun k n => ⟨n, Nat.le_refl n, by cases k <;> simp [UdpSystem.Given, UdpEnv.calm]⟩
  exact ⟨s, hs, hh, hd, (udp_round_trip keeps_clearPadding _ hs).2 _ hfair⟩

end TcpHw
