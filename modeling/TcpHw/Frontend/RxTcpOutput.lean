import TcpHw.Frontend.TcpStream

/-!
# `rx_tcp_format_output_ctrl`

The controller behind the checksum engine on the receive side. The first line of a segment holds the
pseudo header and the TCP header; the data machine drops the headers, whatever their length, and
gives out the payload, each line from two neighbouring lines of the input. The header machine gives
out the header. The two leave a segment together.
-/
namespace TcpHw

open Bytes Framing

set_option autoImplicit false

namespace RxTcpOutput

/-- `parse_state_e` -/
inductive ParseState where
  | ready | tcpHdrDrain | firstData | dataOutput | dataOutputLast | drain | dataWaitTxFin
  deriving DecidableEq, Inhabited

end RxTcpOutput

/-- The registers of `rx_tcp_format_output_ctrl`. -/
structure RxTcpOutput where
  parseState : RxTcpOutput.ParseState
  hdrState : OutputHdrState
  tcpHdr : TcpPktHdr
  pseudoHdr : ChksumPseudoHdr
  hdrBytesRem : BitVec 16
  bytesLeft : BitVec 16
  realignUpper : Line
  realignLower : Line

/-- The header port. -/
structure RxTcpHdr where
  srcIp : BitVec 32
  dstIp : BitVec 32
  tcpTotLen : BitVec 16
  tcpHdr : TcpPktHdr
  deriving DecidableEq, Inhabited

/-! ### The first line of a segment -/

/-- `tcp_hdr_struct_cast` -/
def tcpHdrCast (x : Line) : TcpPktHdr := .cast (x.extractLsb' (8 * 32) (8 * 20))

/-- `chksum_pseudo_hdr_cast` -/
def pseudoHdrCast (x : Line) : ChksumPseudoHdr := .cast (x.extractLsb' (8 * 52) (8 * 12))

/-- `chksum_match` -/
def chksumMatch (x : Line) : Bool := (tcpHdrCast x).chksum == 0

/-- `payload_size_calc` -/
def payloadSizeCalc (x : Line) : BitVec 16 := (pseudoHdrCast x).length - (tcpHdrCast x).hdrBytes

/-- What the header port shows for a segment with this first line. -/
def RxTcpHdr.ofLine (x : Line) : RxTcpHdr where
  srcIp := (pseudoHdrCast x).sourceAddr
  dstIp := (pseudoHdrCast x).destAddr
  tcpTotLen := (pseudoHdrCast x).length
  tcpHdr := tcpHdrCast x

/-- The TCP header is not contained in the first line. -/
def hdrSpills (x : Line) : Bool := decide (64 - 12 < (tcpHdrCast x).hdrBytes.toNat)

/-! ### One cycle -/

namespace RxTcpOutput

variable (r : RxTcpOutput) (i : OutputWires)

/-- `resp_trdy` -/
def respRdy : Bool :=
  match r.parseState with
  | .ready | .tcpHdrDrain | .firstData | .drain => true
  | .dataOutput => i.dataRdy
  | .dataOutputLast | .dataWaitTxFin => false

/-- A line is taken. -/
def takes : Bool := i.respVal && r.respRdy i

/-- The first line of a segment with a good checksum is taken. -/
def begins : Bool := r.parseState == .ready && i.respVal && chksumMatch i.resp.data

/-- `tcp_format_dst_rx_data_val` -/
def dataVal : Bool :=
  match r.parseState with
  | .dataOutput => i.respVal
  | .dataOutputLast => true
  | _ => false

/-- A line is given out. -/
def gives : Bool := r.dataVal i && i.dataRdy

/-- `tcp_format_dst_rx_last` -/
def dataLast : Bool := r.parseState == .dataOutputLast && decide (r.bytesLeft.toNat ≤ 64)

/-- `realign_shift` -/
def realignShift : BitVec 16 := r.hdrBytesRem <<< 3

/-- The data port while it is valid. -/
def dataOut : DataLine where
  data := upperShl r.realignUpper r.realignLower r.realignShift.toNat
  padbytes := if r.dataLast then (64 - r.bytesLeft).setWidth 6 else 0
  last := r.dataLast

def hdrVal : Bool := r.hdrState == .output

/-- The header is given out. -/
def givesHdr : Bool := r.hdrVal && i.hdrRdy

/-- The header port while it is valid. -/
def hdrOut : RxTcpHdr where
  srcIp := r.pseudoHdr.sourceAddr
  dstIp := r.pseudoHdr.destAddr
  tcpTotLen := r.pseudoHdr.length
  tcpHdr := r.tcpHdr

/-- The bytes that are left need another line after this one. -/
def goesAround : Bool :=
  r.parseState == .dataOutputLast && i.dataRdy && decide (64 < r.bytesLeft.toNat)

def parseNext : ParseState :=
  match r.parseState with
  | .ready =>
    if i.respVal then
      if chksumMatch i.resp.data then
        if hdrSpills i.resp.data then .tcpHdrDrain
        else if i.resp.last then
          (if payloadSizeCalc i.resp.data = 0 then .dataWaitTxFin else .dataOutputLast)
        else .firstData
      -- the last mark of the line is not looked at
      else .drain
    else .ready
  | .tcpHdrDrain =>
    if i.respVal then
      if r.hdrBytesRem.toNat ≤ 64 then
        if i.resp.last then (if 0 < r.bytesLeft.toNat then .dataOutputLast else .dataWaitTxFin)
        else .firstData
      else .tcpHdrDrain
    else .tcpHdrDrain
  | .firstData =>
    if i.respVal then (if i.resp.last then .dataOutputLast else .dataOutput) else .firstData
  | .dataOutput => if r.gives i && i.resp.last then .dataOutputLast else .dataOutput
  | .dataOutputLast =>
    if i.dataRdy then (if 64 < r.bytesLeft.toNat then .dataOutputLast else .dataWaitTxFin)
    else .dataOutputLast
  | .drain => if i.respVal && i.resp.last then .dataWaitTxFin else .drain
  | .dataWaitTxFin => if r.hdrState = .waitTxFin then .ready else .dataWaitTxFin

def hdrNext : OutputHdrState :=
  match r.hdrState with
  | .waiting =>
    if r.parseState == .ready && i.respVal then
      (if chksumMatch i.resp.data then .output else .waitTxFin)
    else .waiting
  | .output => if i.hdrRdy then .waitTxFin else .output
  | .waitTxFin => if r.parseState = .dataWaitTxFin then .waiting else .waitTxFin

def hdrBytesRemNext : BitVec 16 :=
  match r.parseState with
  | .ready =>
    if r.begins i then
      (if hdrSpills i.resp.data then 12 + (tcpHdrCast i.resp.data).hdrBytes - 64
        else 12 + (tcpHdrCast i.resp.data).hdrBytes)
    else r.hdrBytesRem
  | .tcpHdrDrain =>
    if i.respVal && decide (64 < r.hdrBytesRem.toNat) then r.hdrBytesRem - 64 else r.hdrBytesRem
  | _ => r.hdrBytesRem

def bytesLeftNext : BitVec 16 :=
  match r.parseState with
  | .ready => if r.begins i then payloadSizeCalc i.resp.data else r.bytesLeft
  | .dataOutput => if r.gives i then r.bytesLeft - 64 else r.bytesLeft
  | .dataOutputLast =>
    if i.dataRdy then (if 64 < r.bytesLeft.toNat then r.bytesLeft - 64 else 0) else r.bytesLeft
  | _ => r.bytesLeft

def realignUpperNext : Line :=
  match r.parseState with
  | .ready => if r.begins i && !hdrSpills i.resp.data then i.resp.data else r.realignUpper
  | .tcpHdrDrain => if i.respVal then i.resp.data else r.realignUpper
  | .dataOutput => if r.gives i then r.realignLower else r.realignUpper
  | .dataOutputLast => if r.goesAround i then r.realignLower else r.realignUpper
  | _ => r.realignUpper

def realignLowerNext : Line :=
  match r.parseState with
  | .firstData => if i.respVal then i.resp.data else r.realignLower
  | .dataOutput => if r.gives i then i.resp.data else r.realignLower
  | .dataOutputLast => if r.goesAround i then 0 else r.realignLower
  | _ => r.realignLower

/-- One clock edge. -/
def next : RxTcpOutput where
  parseState := r.parseNext i
  hdrState := r.hdrNext i
  tcpHdr := if r.begins i then tcpHdrCast i.resp.data else r.tcpHdr
  pseudoHdr := if r.begins i then pseudoHdrCast i.resp.data else r.pseudoHdr
  hdrBytesRem := r.hdrBytesRemNext i
  bytesLeft := r.bytesLeftNext i
  realignUpper := r.realignUpperNext i
  realignLower := r.realignLowerNext i

end RxTcpOutput

/-! ### Segments -/

/-- The lines carry `k` bytes: all are full but the last, which is marked. -/
def CarriesBytes : List AxisLine → Nat → Prop
  | [], _ => False
  | l :: t, k =>
    if k ≤ 64 then t = [] ∧ l.last = true ∧ 0 < k else l.last = false ∧ CarriesBytes t (k - 64)

instance decidableCarriesBytes : (ls : List AxisLine) → (k : Nat) → Decidable (CarriesBytes ls k)
  | [], _ => .isFalse id
  | _ :: t, k =>
    have := decidableCarriesBytes t (k - 64)
    have : Decidable (t = []) := decidable_of_iff (t.isEmpty = true) List.isEmpty_iff
    inferInstanceAs (Decidable (if k ≤ 64 then _ else _))

/-- All bytes of some lines. -/
def axisBytes (ls : List AxisLine) : List (BitVec 8) := ls.flatMap fun l => lineBytes l.data

/-- A segment as the engine delivers it: the pseudo header and as many bytes as its length field
says. -/
structure ChkSegment where
  head : AxisLine
  tail : List AxisLine
  carries : CarriesBytes (head :: tail) (12 + (pseudoHdrCast head.data).length.toNat)

namespace ChkSegment

variable (x : ChkSegment)

def lines : List AxisLine := x.head :: x.tail

/-- Bytes of the segment. -/
def len : Nat := (pseudoHdrCast x.head.data).length.toNat

/-- Bytes of the TCP header with its options. -/
def hdrLen : Nat := 4 * (tcpHdrCast x.head.data).rawDataOffset.toNat

/-- The checksum is right. -/
def good : Bool := chksumMatch x.head.data

/-- The header is no longer than the segment. -/
def Fits : Prop := x.hdrLen ≤ x.len

instance : Decidable x.Fits := inferInstanceAs (Decidable (_ ≤ _))

def payload : List (BitVec 8) := ((axisBytes x.lines).take (12 + x.len)).drop (12 + x.hdrLen)

/-- The header of a good segment. -/
def hdr : RxTcpHdr where
  srcIp := (pseudoHdrCast x.head.data).sourceAddr
  dstIp := (pseudoHdrCast x.head.data).destAddr
  tcpTotLen := (pseudoHdrCast x.head.data).length
  tcpHdr := tcpHdrCast x.head.data

end ChkSegment

section CarriesBytes

variable {l : AxisLine} {t ls : List AxisLine} {k : Nat}

@[simp] theorem axisBytes_cons (l : AxisLine) (t : List AxisLine) :
    axisBytes (l :: t) = lineBytes l.data ++ axisBytes t := rfl

@[simp] theorem axisBytes_nil : axisBytes [] = [] := rfl

@[simp] theorem length_axisBytes (ls : List AxisLine) : (axisBytes ls).length = 64 * ls.length := by
  induction ls with
  | nil => rfl
  | cons l t ih =>
    rw [axisBytes_cons, List.length_append, ih, length_lineBytes, List.length_cons]
    omega

theorem CarriesBytes.ne_nil (h : CarriesBytes ls k) : ls ≠ [] := by
  rintro rfl
  exact h

theorem CarriesBytes.le (h : CarriesBytes ls k) : 0 < k ∧ k ≤ 64 * ls.length := by
  induction ls generalizing k with
  | nil => exact absurd h id
  | cons l t ih =>
    unfold CarriesBytes at h
    split at h
    · obtain ⟨rfl, -, hk⟩ := h
      simp only [List.length_cons, List.length_nil]
      omega
    · have hb := ih h.2
      rw [List.length_cons]
      omega

/-- The last line has some of the bytes. -/
theorem CarriesBytes.lt (h : CarriesBytes ls k) : 64 * ls.length < k + 64 := by
  induction ls generalizing k with
  | nil => exact absurd h id
  | cons l t ih =>
    unfold CarriesBytes at h
    split at h
    · obtain ⟨rfl, -, hk⟩ := h
      simp only [List.length_cons, List.length_nil]
      omega
    · have hb := ih h.2
      rw [List.length_cons]
      omega

/-- The last line of a segment. -/
theorem CarriesBytes.of_last (h : CarriesBytes (l :: t) k) (hl : l.last = true) :
    t = [] ∧ k ≤ 64 := by
  unfold CarriesBytes at h
  split at h
  · rename_i hk
    exact ⟨h.1, hk⟩
  · rw [hl] at h
    cases h.1

/-- A line before the last. -/
theorem CarriesBytes.of_not_last (h : CarriesBytes (l :: t) k) (hl : l.last = false) :
    64 < k ∧ CarriesBytes t (k - 64) := by
  unfold CarriesBytes at h
  split at h
  · rw [hl] at h
    cases h.2.1
  · rename_i hk
    exact ⟨Nat.lt_of_not_le hk, h.2⟩

/-- The bytes of a line and those behind it. -/
theorem take_axisBytes_cons (hk : 64 ≤ k) : (axisBytes (l :: t)).take k =
    lineBytes l.data ++ (axisBytes t).take (k - 64) := by
  have hlen : (lineBytes l.data).length = 64 := length_lineBytes _
  rw [axisBytes_cons, List.take_append, List.take_of_length_le (by omega), hlen]

theorem length_take_axisBytes (h : CarriesBytes ls k) : ((axisBytes ls).take k).length = k := by
  have hle := h.le.2
  rw [List.length_take, length_axisBytes]
  omega

end CarriesBytes

namespace ChkSegment

variable (x : ChkSegment)

theorem hdrLen_le : x.hdrLen ≤ 60 := by
  have hlt := (tcpHdrCast x.head.data).rawDataOffset.isLt
  unfold hdrLen
  omega

theorem hdrSpills_eq : hdrSpills x.head.data = decide (52 < x.hdrLen) := by
  rw [hdrSpills, TcpPktHdr.toNat_hdrBytes]
  rfl

/-- The subtraction does not wrap around when the header fits. -/
theorem toNat_payloadSize (h : x.Fits) :
    (payloadSizeCalc x.head.data).toNat = x.len - x.hdrLen := by
  have hb := TcpPktHdr.toNat_hdrBytes (tcpHdrCast x.head.data)
  have hle :
      (tcpHdrCast x.head.data).hdrBytes.toNat ≤ (pseudoHdrCast x.head.data).length.toNat := by
    rw [hb]
    exact h
  rw [payloadSizeCalc, BitVec.toNat_sub_of_le hle, hb]
  rfl

theorem carries_lines : CarriesBytes x.lines (12 + x.len) := x.carries

theorem length_payload (h : x.Fits) : x.payload.length = x.len - x.hdrLen := by
  have hfits : x.hdrLen ≤ x.len := h
  rw [payload, List.length_drop, length_take_axisBytes x.carries_lines]
  omega

end ChkSegment

end TcpHw
