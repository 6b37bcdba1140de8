import TcpHw.Common.CircBuf
import TcpHw.Lib.Framing

/-!
# IPv4 packets on the receive bus and what a formatter owes for them

A packet enters in lines of `MAC_INTERFACE_BYTES = 64` bytes, first byte on top. A formatter
checks the header checksum, gives the header out on one port and the payload, moved to the top
of its first line, on another. A packet with a bad header checksum leaves nothing.

`chksum_calc` is taken at its contract: it reports the one's-complement checksum of the bytes
kept of each frame in the checksum field of the frame's first line.
-/
namespace TcpHw

open Bytes Framing

set_option autoImplicit false

/-! ### Headers -/

/-- `ip_pkt_hdr` -/
structure IpPktHdr where
  ipVersion : BitVec 4
  ipHdrLen : BitVec 4
  tos : BitVec 8
  totLen : BitVec 16
  id : BitVec 16
  fragOffset : BitVec 16
  ttl : BitVec 8
  protocolNo : BitVec 8
  chksum : BitVec 16
  sourceAddr : BitVec 32
  destAddr : BitVec 32
  deriving DecidableEq, Inhabited

/-- `data[MAC_INTERFACE_W-1 -: IP_HDR_W]` -/
def ipHdrCast (data : Line) : IpPktHdr where
  ipVersion := data.extractLsb' 508 4
  ipHdrLen := data.extractLsb' 504 4
  tos := data.extractLsb' 496 8
  totLen := data.extractLsb' 480 16
  id := data.extractLsb' 464 16
  fragOffset := data.extractLsb' 448 16
  ttl := data.extractLsb' 440 8
  protocolNo := data.extractLsb' 432 8
  chksum := data.extractLsb' 416 16
  sourceAddr := data.extractLsb' 384 32
  destAddr := data.extractLsb' 352 32

namespace IpPktHdr

/-- `ip_hdr_len << 2` in `TOT_LEN_W` bits. -/
def hdrBytes (h : IpPktHdr) : BitVec 16 := h.ipHdrLen.setWidth 16 <<< 2

theorem toNat_hdrBytes (h : IpPktHdr) : h.hdrBytes.toNat = 4 * h.ipHdrLen.toNat := by
  have hl := h.ipHdrLen.isLt
  simp only [hdrBytes, BitVec.toNat_shiftLeft, BitVec.toNat_setWidth, Nat.shiftLeft_eq]
  omega

theorem toNat_hdrBytes_le (h : IpPktHdr) : h.hdrBytes.toNat ≤ 60 := by
  have hl := h.ipHdrLen.isLt
  rw [toNat_hdrBytes]
  omega

end IpPktHdr

/-- `logic [PKT_TIMESTAMP_W-1:0]` -/
abbrev Timestamp := BitVec 64

/-- One line on the receive bus, with the fields of `fifo_struct`. -/
structure RxLine where
  data : Line
  padbytes : BitVec 6
  last : Bool
  timestamp : Timestamp
  deriving DecidableEq, Inhabited

/-- A line that is offered is the next one. -/
theorem exists_tail_of_offered {src : List RxLine} {offer : Bool} {wires : RxLine}
    (h : (offer && !src.isEmpty) = true) :
    ∃ t, src = (if offer then src.headD wires else wires) :: t := by
  simp only [Bool.and_eq_true, Bool.not_eq_true', List.isEmpty_eq_false_iff] at h
  obtain ⟨l, t, hl⟩ := List.exists_cons_of_ne_nil h.2
  exact ⟨t, by simp [hl, h.1]⟩

/-- What the header port carries. -/
structure HdrOut where
  hdr : IpPktHdr
  timestamp : Timestamp
  deriving DecidableEq, Inhabited

/-- What the data port carries, as its receiver reads it: the padding of a last line is
skipped, and the other lines have none. -/
def readBeat (data : Line) (last : Bool) (padbytes : BitVec 6) : Beat (BitVec 8) :=
  if last then ⟨(lineBytes data).take (64 - padbytes.toNat), true, padbytes.toNat⟩
  else ⟨lineBytes data, false, 0⟩

/-! ### The header checksum -/

/-- Addition with the carry added back. -/
def onesAdd (a b : Nat) : Nat := if a + b < 2 ^ 16 then a + b else a + b - (2 ^ 16 - 1)

/-- One's-complement sum of the 16-bit words, onto `acc`. -/
def onesSum : Nat → List (BitVec 8) → Nat
  | acc, hi :: lo :: t => onesSum (onesAdd acc (hi.toNat * 256 + lo.toNat)) t
  | acc, [hi] => onesAdd acc (hi.toNat * 256)
  | acc, [] => acc

/-- The one's-complement checksum. -/
def onesChksum (bs : List (BitVec 8)) : BitVec 16 := ~~~ BitVec.ofNat 16 (onesSum 0 bs)

/-- The bytes of a line that `tkeep` marks. -/
def keptBytes (data : Line) (keep : BitVec 64) : List (BitVec 8) :=
  ((List.range 64).filter fun i => keep.getMsbD i).map (byte data)

/-- One line given to `chksum_calc`. -/
structure ChksumReq where
  data : Line
  keep : BitVec 64
  last : Bool

/-- One line from `chksum_calc`, of which the formatters read the checksum field and the mark. -/
structure ChksumResp where
  chksum : BitVec 16
  last : Bool
  deriving DecidableEq

/-- `chksum_calc`: `transfer_in_reg`, the lines of the open frame and the lines to come out. -/
structure ChksumCalc where
  transferIn : Bool
  frame : List ChksumReq
  out : List ChksumResp

namespace ChksumCalc

/-- The lines of a frame come out as they went in, with the checksum inserted in the first. -/
def echo : List ChksumReq → List ChksumResp
  | [] => []
  | r :: t => ⟨(ipHdrCast r.data).chksum, t.isEmpty⟩ :: echo t

def responses (frame : List ChksumReq) : List ChksumResp :=
  match echo frame with
  | [] => []
  | r :: t => { r with chksum := onesChksum (frame.flatMap fun q => keptBytes q.data q.keep) } :: t

def cmdRdy (c : ChksumCalc) : Bool := !c.transferIn

/-- One clock edge, with the command, the line and the response that are taken in it. -/
def step (c : ChksumCalc) (cmd : Bool) (req : Option ChksumReq) (take : Bool) : ChksumCalc :=
  let out := if take then c.out.tail else c.out
  match req with
  | none => ⟨c.transferIn || cmd, c.frame, out⟩
  | some r =>
    if r.last then ⟨cmd, [], out ++ responses (c.frame ++ [r])⟩
    else ⟨c.transferIn || cmd, c.frame ++ [r], out⟩

def reset : ChksumCalc := ⟨false, [], []⟩

end ChksumCalc

/-- Keeping the first `n` bytes. -/
theorem keptBytes_allOnes (data : Line) {n : Nat} (hn : n ≤ 64) :
    keptBytes data (BitVec.allOnes 64 <<< (64 - n)) = (lineBytes data).take n := by
  have hf : ((List.range 64).filter fun i => (BitVec.allOnes 64 <<< (64 - n)).getMsbD i) =
      (List.range 64).filter fun i => decide (i < n) := by
    refine List.filter_congr fun i hi => ?_
    have hlt := List.mem_range.mp hi
    have hiff : i + (64 - n) < 64 ↔ i < n := by omega
    rw [BitVec.getMsbD_shiftLeft, BitVec.getMsbD_allOnes, decide_eq_decide.mpr hiff]
  have hr : (List.range 64).filter (fun i => decide (i < n)) = (List.range 64).take n := by
    rw [List.take_range, Nat.min_eq_left hn]
    have hs : List.range 64 = List.range n ++ (List.range (64 - n)).map (n + ·) := by
      rw [← List.range_add, Nat.add_sub_cancel' hn]
    rw [hs, List.filter_append, List.filter_eq_self.mpr (by simp), List.filter_eq_nil_iff.mpr]
    · simp
    · simp
  rw [keptBytes, hf, hr, lineBytes, List.map_take]

/-! ### Packets -/

/-- The lines carry `k` bytes: all are full but the last, which is marked and padded. -/
def Framed : List RxLine → Nat → Prop
  | [], _ => False
  | l :: t, k =>
    if k ≤ 64 then t = [] ∧ l.last = true ∧ 0 < k ∧ l.padbytes.toNat = 64 - k
    else l.last = false ∧ Framed t (k - 64)

instance decidableFramed : (ls : List RxLine) → (k : Nat) → Decidable (Framed ls k)
  | [], _ => .isFalse id
  | _ :: t, k =>
    have := decidableFramed t (k - 64)
    have : Decidable (t = []) := decidable_of_iff (t.isEmpty = true) List.isEmpty_iff
    inferInstanceAs (Decidable (if k ≤ 64 then _ else _))

/-- All bytes of some lines. -/
def flatBytes (ls : List RxLine) : List (BitVec 8) := ls.flatMap fun l => lineBytes l.data

/-- An IPv4 packet of `tlen` bytes, whatever its `tot_len` says, with a header of 20 to 60 bytes
and some payload. -/
structure IpPacket where
  head : RxLine
  tail : List RxLine
  tlen : Nat
  hdrLen : 5 ≤ (ipHdrCast head.data).ipHdrLen.toNat
  hasPayload : (ipHdrCast head.data).hdrBytes.toNat < tlen
  framed : Framed (head :: tail) tlen

namespace IpPacket

def lines (p : IpPacket) : List RxLine := p.head :: p.tail

def hdr (p : IpPacket) : IpPktHdr := ipHdrCast p.head.data

/-- Bytes of the header. -/
def hlen (p : IpPacket) : Nat := p.hdr.hdrBytes.toNat

/-- `tot_len` is the number of bytes. -/
def Exact (p : IpPacket) : Prop := p.hdr.totLen.toNat = p.tlen

instance (p : IpPacket) : Decidable p.Exact := inferInstanceAs (Decidable (_ = _))

/-- The checksum over the header, its checksum field included. -/
def hdrChksum (p : IpPacket) : BitVec 16 := onesChksum ((lineBytes p.head.data).take p.hlen)

/-- The header checksum is right. -/
def good (p : IpPacket) : Bool := p.hdrChksum == 0

def payload (p : IpPacket) : List (BitVec 8) := ((flatBytes p.lines).take p.tlen).drop p.hlen

/-- What the header port owes. -/
def hdrOwed (p : IpPacket) : List HdrOut := if p.good then [⟨p.hdr, p.head.timestamp⟩] else []

/-- What the data port owes. -/
def dataOwed (p : IpPacket) : List (Beat (BitVec 8)) :=
  if p.good then beats 64 p.payload else []

end IpPacket

def linesOf (ps : List IpPacket) : List RxLine := ps.flatMap IpPacket.lines

def hdrsOf (ps : List IpPacket) : List HdrOut := ps.flatMap IpPacket.hdrOwed

def dataOf (ps : List IpPacket) : List (Beat (BitVec 8)) := ps.flatMap IpPacket.dataOwed

@[simp] theorem linesOf_nil : linesOf [] = [] := rfl

@[simp] theorem linesOf_cons (p : IpPacket) (ps : List IpPacket) :
    linesOf (p :: ps) = p.head :: (p.tail ++ linesOf ps) := rfl

@[simp] theorem hdrsOf_nil : hdrsOf [] = [] := rfl

@[simp] theorem hdrsOf_cons (p : IpPacket) (ps : List IpPacket) :
    hdrsOf (p :: ps) = p.hdrOwed ++ hdrsOf ps := rfl

@[simp] theorem dataOf_nil : dataOf [] = [] := rfl

@[simp] theorem dataOf_cons (p : IpPacket) (ps : List IpPacket) :
    dataOf (p :: ps) = p.dataOwed ++ dataOf ps := rfl

theorem linesOf_append (ps ps' : List IpPacket) : linesOf (ps ++ ps') = linesOf ps ++ linesOf ps' :=
  List.flatMap_append

theorem hdrsOf_append (ps ps' : List IpPacket) : hdrsOf (ps ++ ps') = hdrsOf ps ++ hdrsOf ps' :=
  List.flatMap_append

theorem dataOf_append (ps ps' : List IpPacket) : dataOf (ps ++ ps') = dataOf ps ++ dataOf ps' :=
  List.flatMap_append

@[simp] theorem flatBytes_cons (l : RxLine) (t : List RxLine) :
    flatBytes (l :: t) = lineBytes l.data ++ flatBytes t := rfl

@[simp] theorem length_flatBytes (ls : List RxLine) : (flatBytes ls).length = 64 * ls.length := by
  induction ls with
  | nil => rfl
  | cons l t ih =>
    rw [flatBytes_cons, List.length_append, ih, length_lineBytes, List.length_cons]
    omega

section Framed

variable {l : RxLine} {t ls : List RxLine} {k : Nat}

theorem Framed.ne_nil (h : Framed ls k) : ls ≠ [] := by
  rintro rfl
  exact h

theorem Framed.pos (h : Framed ls k) : 0 < k := by
  cases ls with
  | nil => exact absurd h id
  | cons l t =>
    unfold Framed at h
    split at h
    · exact h.2.2.1
    · omega

theorem Framed.bounds (h : Framed ls k) : k ≤ 64 * ls.length ∧ 64 * ls.length < k + 64 := by
  induction ls generalizing k with
  | nil => exact absurd h id
  | cons l t ih =>
    unfold Framed at h
    split at h
    · obtain ⟨rfl, -, hk, -⟩ := h
      simp only [List.length_cons, List.length_nil]
      omega
    · have hb := ih h.2
      rw [List.length_cons]
      omega

/-- The last line of a packet. -/
theorem Framed.of_last (h : Framed (l :: t) k) (hl : l.last = true) :
    t = [] ∧ k ≤ 64 ∧ l.padbytes.toNat = 64 - k := by
  unfold Framed at h
  split at h
  · rename_i hk
    exact ⟨h.1, hk, h.2.2.2⟩
  · rw [hl] at h
    cases h.1

/-- A line before the last. -/
theorem Framed.of_not_last (h : Framed (l :: t) k) (hl : l.last = false) :
    64 < k ∧ Framed t (k - 64) := by
  unfold Framed at h
  split at h
  · rw [hl] at h
    cases h.2.1
  · rename_i hk
    exact ⟨Nat.lt_of_not_le hk, h.2⟩

end Framed

namespace IpPacket

variable (p : IpPacket)

theorem hlen_le : p.hlen ≤ 60 := p.hdr.toNat_hdrBytes_le

theorem hlen_lt : p.hlen < p.tlen := p.hasPayload

/-- The header of a packet never needs a second line. -/
theorem hdr_fits : ¬ 64 / 4 < p.hdr.ipHdrLen.toNat := by
  have h := p.hdr.ipHdrLen.isLt
  omega

end IpPacket

end TcpHw
