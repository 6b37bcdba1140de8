import TcpHw.Frontend.RxTcpInput
import TcpHw.Frontend.RxTcpSegments
import TcpHw.Lib.ByteMemory

/-!
# Received segments around the checksum engine

The input controller puts the pseudo header in front of a segment, and the engine writes the checksum
of all these bytes over the checksum that came with the segment. It is zero exactly if the segment
verifies. The lines that come out of the engine are those of such frames, one after the other.
-/
namespace TcpHw

open Bytes Framing

set_option autoImplicit false

/-! ### Segments as bytes -/

namespace RxSegment

variable (x : RxSegment)

/-- What the engine calculates: the checksum of the pseudo header and the segment. -/
def chksum : BitVec 16 := onesChksum x.pkt.frame

/-- The checksum that came with the segment is the right one. -/
def verifies : Bool := x.chksum == 0

/-- The segment behind the engine. -/
def summed : List (BitVec 8) := setPair x.bytes 16 x.chksum

/-- The TCP header without options. -/
def tcpHdr : TcpPktHdr := .cast (lineOf 20 fun i => x.summed.getD i 0)

/-- Bytes of the TCP header with its options. -/
def hdrLen : Nat := 4 * x.tcpHdr.rawDataOffset.toNat

def payload : List (BitVec 8) := x.summed.drop x.hdrLen

/-- The header port for the segment. -/
def hdrOut : RxTcpHdr where
  srcIp := x.hdr.srcIp
  dstIp := x.hdr.dstIp
  tcpTotLen := x.hdr.tcpLen
  tcpHdr := x.tcpHdr

/-- The segment has a TCP header and comes with its length, and if it verifies its options are within
it. -/
structure Framed : Prop where
  len : x.hdr.tcpLen.toNat = x.bytes.length
  twenty : 20 ≤ x.bytes.length
  fits : x.verifies = true → x.hdrLen ≤ x.bytes.length

instance : Decidable x.Framed :=
  decidable_of_iff (x.hdr.tcpLen.toNat = x.bytes.length ∧ 20 ≤ x.bytes.length ∧
      (x.verifies = true → x.hdrLen ≤ x.bytes.length))
    ⟨fun ⟨hlen, htwenty, hfits⟩ => ⟨hlen, htwenty, hfits⟩, fun h => ⟨h.len, h.twenty, h.fits⟩⟩

/-- The segments that are passed on. A segment of one line that does not verify takes the next one
with it. -/
def passed : List RxSegment → List RxSegment
  | [] => []
  | [x] => if x.verifies then [x] else []
  | x :: y :: t =>
    if x.verifies then x :: passed (y :: t)
    else if x.bytes.length ≤ 52 then passed t
    else passed (y :: t)

/-! ### Frames -/

/-- The frame behind the engine. -/
def frame : List (BitVec 8) := sealed 28 x.pkt.frame

def pseudo : ChksumPseudoHdr := tcpPseudoHdr x.hdr.srcIp x.hdr.dstIp x.hdr.tcpLen

@[simp] theorem length_summed : x.summed.length = x.bytes.length := length_setPair _ _ _

theorem frame_eq : x.frame = lineBytes x.pseudo.bits ++ x.summed := by
  have hlen : (lineBytes x.pseudo.bits).length = 12 := length_lineBytes _
  show (((lineBytes x.pseudo.bits ++ x.bytes).set 28 _).set 29 _) = _
  rw [List.set_append_right _ _ (by omega), List.set_append_right _ _ (by omega), hlen]
  rfl

theorem length_frame : x.frame.length = 12 + x.bytes.length := by
  have hlen : (lineBytes x.pseudo.bits).length = 12 := length_lineBytes _
  rw [frame_eq, List.length_append, hlen, length_summed]

/-- The header carries the result of the engine. -/
theorem tcpHdr_chksum (h : 20 ≤ x.bytes.length) : x.tcpHdr.chksum = x.chksum := by
  have hs := x.length_summed
  apply lineBytes_inj (n := 2)
  have hmid := lineBytes_middle (lineOf 20 fun i => x.summed.getD i 0) (show 2 + 2 ≤ 20 by decide)
  rw [lineBytes_lineOf (by omega)] at hmid
  refine hmid.trans (List.ext_getElem? fun i => ?_)
  rw [TcpPktHdr.lineBytes_word, List.getElem?_drop, List.take_take]
  by_cases hi : i < 2
  · rw [List.getElem?_take_of_lt (by omega), summed, setPair]
    obtain rfl | rfl : i = 0 ∨ i = 1 := by omega
    · rw [List.getElem?_set_ne (by decide), List.getElem?_set_self (by omega)]
      rfl
    · rw [List.getElem?_set_self (by simp; omega)]
      rfl
  · rw [List.getElem?_eq_none (by simp; omega), List.getElem?_eq_none (by simp; omega)]

/-- Where the header has at least 20 bytes, the payload does not depend on the checksum. -/
theorem payload_eq (h : 20 ≤ x.hdrLen) : x.payload = x.bytes.drop x.hdrLen :=
  drop_setPair x.bytes x.chksum (by omega)

end RxSegment

/-! ### Lines of frames -/

namespace AxisLine

/-- Some line shows the bytes. -/
theorem exists_shows (user : Timestamp) {bs : List (BitVec 8)} (last : Bool) (h0 : 0 < bs.length)
    (h : bs.length ≤ 64) : ∃ l : AxisLine, l.Shows (⟨bs, last, 64 - bs.length⟩, user) := by
  refine ⟨⟨lineOf 64 fun i => bs.getD i 0, BitVec.allOnes 64 <<< (64 - bs.length), last, user⟩,
    show 64 - bs.length < 64 by omega, rfl, rfl, ?_, rfl⟩
  have hk : 64 - (64 - bs.length) = bs.length := by omega
  show (lineBytes (lineOf 64 fun i => bs.getD i 0)).take (64 - (64 - bs.length)) = bs
  rw [hk]
  refine List.ext_getElem (by simp; omega) fun i hi hi' => ?_
  have hi64 : i < 64 := by omega
  simp only [lineBytes, List.getElem_take, List.getElem_map, List.getElem_range,
    byte_lineOf hi64, List.getD_eq_getElem?_getD, List.getElem?_eq_getElem hi', Option.getD_some]

/-- Some lines show the frame. -/
theorem exists_shows_frame (user : Timestamp) {bs : List (BitVec 8)} (h0 : 0 < bs.length) :
    ∃ ls, List.Forall₂ Shows ls (frameToks user bs) := by
  generalize hl : bs.length = m
  induction m using Nat.strongRecOn generalizing bs with
  | _ m ih =>
    by_cases hn : 64 < bs.length
    · have hfull : (bs.take 64).length = 64 := by
        rw [List.length_take]
        omega
      obtain ⟨l, hl⟩ := exists_shows user false (show 0 < (bs.take 64).length by omega) (by omega)
      obtain ⟨ls, hls⟩ := ih (bs.drop 64).length (by rw [List.length_drop]; omega)
        (by rw [List.length_drop]; omega) rfl
      rw [hfull] at hl
      rw [frameToks_full user hn]
      exact ⟨l :: ls, .cons hl hls⟩
    · obtain ⟨l, hl⟩ := exists_shows user true h0 (Nat.le_of_not_lt hn)
      rw [frameToks_last user h0 (Nat.le_of_not_lt hn)]
      exact ⟨[l], .cons hl .nil⟩

variable {user : Timestamp} {bs : List (BitVec 8)} {ls : List AxisLine}

/-- Lines that show a frame carry its bytes. -/
theorem carries_of_shows (h0 : 0 < bs.length) (h : List.Forall₂ Shows ls (frameToks user bs)) :
    CarriesBytes ls bs.length ∧ (axisBytes ls).take bs.length = bs := by
  generalize hl : bs.length = m
  induction m using Nat.strongRecOn generalizing bs ls with
  | _ m ih =>
    subst hl
    by_cases hn : 64 < bs.length
    · rw [frameToks_full user hn] at h
      obtain ⟨l, t, hl, ht, rfl⟩ := List.forall₂_cons_right_iff.mp h
      obtain ⟨hc, hb⟩ := ih (bs.drop 64).length (by rw [List.length_drop]; omega)
        (by rw [List.length_drop]; omega) ht rfl
      rw [List.length_drop] at hc hb
      have hbytes : (lineBytes l.data).take 64 = bs.take 64 := hl.bytes
      rw [List.take_of_length_le (by rw [length_lineBytes])] at hbytes
      refine ⟨?_, ?_⟩
      · rw [CarriesBytes, if_neg (by omega)]
        exact ⟨hl.last, hc⟩
      · rw [take_axisBytes_cons (by omega), hb, hbytes, List.take_append_drop]
    · have hle := Nat.le_of_not_lt hn
      rw [frameToks_last user h0 hle] at h
      obtain ⟨l, t, hl, ht, rfl⟩ := List.forall₂_cons_right_iff.mp h
      obtain rfl := List.forall₂_nil_right_iff.mp ht
      refine ⟨?_, ?_⟩
      · rw [CarriesBytes, if_pos hle]
        exact ⟨rfl, hl.last, h0⟩
      · rw [axisBytes_cons, axisBytes_nil, List.append_nil, hl.last_bytes hle]

end AxisLine

/-! ### The first line of a frame -/

section

variable {x : RxSegment} {l : AxisLine} {t : List AxisLine}

theorem head_take (h : List.Forall₂ AxisLine.Shows (l :: t) (frameToks 0 x.frame)) {n : Nat}
    (hn : n ≤ 64) (hf : n ≤ x.frame.length) : (lineBytes l.data).take n = x.frame.take n := by
  have h0 : 0 < x.frame.length := by
    rw [x.length_frame]
    omega
  have hb := (AxisLine.carries_of_shows h0 h).2
  have hlen : (lineBytes l.data).length = 64 := length_lineBytes _
  have htake : (axisBytes (l :: t)).take n = x.frame.take n := by
    rw [← Nat.min_eq_left hf, ← List.take_take, hb, Nat.min_eq_left hf]
  rwa [axisBytes_cons, List.take_append_of_le_length (by omega)] at htake

theorem pseudoHdrCast_head (h : List.Forall₂ AxisLine.Shows (l :: t) (frameToks 0 x.frame)) :
    pseudoHdrCast l.data = x.pseudo := by
  have hlen : (lineBytes x.pseudo.bits).length = 12 := length_lineBytes _
  have hf := x.length_frame
  have hbits : l.data.extractLsb' (8 * 52) (8 * 12) = x.pseudo.bits := by
    apply lineBytes_inj
    have hcut := lineBytes_extract l.data (show 12 ≤ 64 by decide)
    rw [head_take h (by decide) (by omega), x.frame_eq, List.take_left' hlen] at hcut
    exact hcut
  rw [pseudoHdrCast, hbits, ChksumPseudoHdr.cast_bits]

theorem tcpHdrCast_head (h : List.Forall₂ AxisLine.Shows (l :: t) (frameToks 0 x.frame))
    (htwenty : 20 ≤ x.bytes.length) : tcpHdrCast l.data = x.tcpHdr := by
  have hlen : (lineBytes x.pseudo.bits).length = 12 := length_lineBytes _
  have hf := x.length_frame
  have hs := x.length_summed
  have hbits : l.data.extractLsb' (8 * 32) (8 * 20) = lineOf 20 fun i => x.summed.getD i 0 := by
    apply lineBytes_inj
    have hmid := lineBytes_middle l.data (show 32 + 20 ≤ 64 by decide)
    have htake := head_take h (n := 32) (by decide) (by omega)
    rw [x.frame_eq, List.take_append, hlen] at htake
    refine hmid.trans ?_
    show ((lineBytes l.data).take 32).drop 12 = _
    rw [htake, List.take_of_length_le (by omega), List.drop_left' hlen,
      lineBytes_lineOf (by omega)]
  rw [tcpHdrCast, hbits, RxSegment.tcpHdr]

end

/-! ### Segments as lines -/

/-- The lines are those of the frame of `x`. -/
def ChkSegment.Shown (y : ChkSegment) (x : RxSegment) : Prop :=
  List.Forall₂ AxisLine.Shows y.lines (frameToks 0 x.frame)

namespace ChkSegment

variable {y : ChkSegment} {x : RxSegment}

theorem Shown.tcpHdr (h : y.Shown x) (htwenty : 20 ≤ x.bytes.length) :
    tcpHdrCast y.head.data = x.tcpHdr := tcpHdrCast_head h htwenty

/-- What the output controller reads off the lines is what the segment says. -/
theorem Shown.reads (h : y.Shown x) (hx : x.Framed) : y.len = x.bytes.length ∧
    y.hdrLen = x.hdrLen ∧ y.hdr = x.hdrOut ∧ y.payload = x.payload := by
  have hpseudo : pseudoHdrCast y.head.data = x.pseudo := pseudoHdrCast_head h
  have htcp := h.tcpHdr hx.twenty
  have hlen : y.len = x.bytes.length := by
    rw [len, hpseudo]
    exact hx.len
  have hhdr : y.hdrLen = x.hdrLen := by rw [hdrLen, htcp, RxSegment.hdrLen]
  refine ⟨hlen, hhdr, ?_, ?_⟩
  · rw [hdr, hpseudo, htcp]
    rfl
  · have h12 : (lineBytes x.pseudo.bits).length = 12 := length_lineBytes _
    have hframe := x.length_frame
    have hall := (AxisLine.carries_of_shows (by omega) h).2
    rw [hframe] at hall
    rw [payload, hlen, hhdr, hall, x.frame_eq, RxSegment.payload, ← List.drop_drop,
      List.drop_left' h12]

end ChkSegment

end TcpHw
