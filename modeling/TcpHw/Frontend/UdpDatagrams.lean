import TcpHw.Frontend.UdpStream
import TcpHw.Lib.Machines

/-!
# Datagrams behind the checksum engine

`udp_rx_chksum_output_ctrl` takes the lines of a datagram by its length field at first and by the
last mark of its lines later. Where the two agree, what is given out for a datagram depends on its
own lines only, and the lines behind it are untouched. They disagree where a bad datagram has one
line, where the length field asks for fewer or more lines than the first while the datagram has more
or none, and where more bytes are left behind the last line than the controller has kept.
-/
namespace TcpHw

open Bytes Framing Machines Trace

set_option autoImplicit false

/-! ### Datagrams -/

/-- Only the last line is marked. -/
def MarkedLast : List AxisLine → Prop
  | [] => False
  | l :: t => l.last = true ∧ t = [] ∨ l.last = false ∧ MarkedLast t

/-- A datagram as the engine delivers it, with any length field and any number of lines. -/
structure UdpDatagram where
  head : AxisLine
  tail : List AxisLine
  framed : MarkedLast (head :: tail)

/-- `udp_hdr_struct_cast` -/
def udpHdrCast (x : Line) : UdpPktHdr := .cast (x.extractLsb' (8 * 44) (8 * 8))

/-- How many bytes a last line shows when `bytes_left` is `b`. -/
def shownBytes (b : BitVec 16) : Nat := 64 - ((64 - b).setWidth 6).toNat

/-- The line that shows what is kept of the line before it. -/
def keptBeat (hold : BitVec (8 * 44)) (b : BitVec 16) : Beat (BitVec 8) :=
  ⟨(lineBytes hold).take (shownBytes b), true, ((64 - b).setWidth 6).toNat⟩

/-- The lines that are given out for the lines behind the first one. -/
def followingBeats (hold : BitVec (8 * 44)) (b : BitVec 16) : List AxisLine → List (Beat (BitVec 8))
  | [] => []
  | l :: t =>
    if l.last then
      if b.toNat ≤ 64 then [readBeat (fill hold l.data) true ((64 - b).setWidth 6)]
      else [readBeat (fill hold l.data) false 0, keptBeat (l.data.setWidth (8 * 44)) (b - 64)]
    else readBeat (fill hold l.data) false 0 :: followingBeats (l.data.setWidth (8 * 44)) (b - 64) t

/-- `bytes_left` at the last of the lines. -/
def bytesAtLast (b : BitVec 16) (ls : List AxisLine) : BitVec 16 :=
  b - BitVec.ofNat 16 (64 * (ls.length - 1))

/-- No more bytes are shown behind the last line than were kept of it. -/
def ShowsOwn (b : BitVec 16) (ls : List AxisLine) : Prop :=
  (bytesAtLast b ls).toNat ≤ 64 ∨ shownBytes (bytesAtLast b ls - 64) ≤ 44

instance (b : BitVec 16) (ls : List AxisLine) : Decidable (ShowsOwn b ls) :=
  inferInstanceAs (Decidable (_ ∨ _))

namespace UdpDatagram

variable (x : UdpDatagram)

def lines : List AxisLine := x.head :: x.tail

/-- The checksum is right. -/
def good : Bool := (udpHdrCast x.head.data).chksum == 0

/-- `bytes_left` after the first line. -/
def bytes : BitVec 16 := (udpHdrCast x.head.data).length - 8

/-- What the header port gives out for the datagram. -/
def hdrs : List UdpReqHdr :=
  if x.good then [udpRxHdr (x.head.data.extractLsb' (8 * 44) (8 * 20)) x.head.user] else []

/-- What the data port gives out for the datagram. -/
def beats : List (Beat (BitVec 8)) :=
  if x.good then
    if x.bytes.toNat = 0 then []
    else if x.bytes.toNat ≤ 44 then [keptBeat (x.head.data.setWidth (8 * 44)) x.bytes]
    else followingBeats (x.head.data.setWidth (8 * 44)) x.bytes x.tail
  else []

/-- The length field and the number of lines agree. A bad datagram has more than one line. The bytes
of a good one are all kept of the first line and there is no other, or there are other lines and the
bytes that are left at the last one are shown with it or are kept of it. -/
def Handled : Prop :=
  (x.good = false → x.tail ≠ []) ∧
    (x.good = true → x.bytes.toNat ≤ 44 → x.tail = []) ∧
    (x.good = true → 44 < x.bytes.toNat → x.tail ≠ [] ∧ ShowsOwn x.bytes x.tail)

instance : Decidable x.Handled := inferInstanceAs (Decidable (_ ∧ _ ∧ _))

end UdpDatagram

/-- The controller behind the engine. -/
def udpRxLines :
    LineMachine (OutputCtrl 20) AxisLine OutputWires OutputEnv UdpReqHdr (Beat (BitVec 8)) where
  wires := OutputEnv.wires
  next := OutputCtrl.next udpRxOutput
  takes := OutputCtrl.takes
  hdrGiven r i := if r.givesHdr i then [udpRxHdr r.hdr r.timestamp] else []
  dataGiven r i := if r.gives i then [(r.dataOut i).read] else []

abbrev udpRxMachine := udpRxLines.machine

abbrev UdpRxSystem := System (OutputCtrl 20) (List AxisLine) UdpReqHdr (Beat (BitVec 8))

def datagramLines : LineKind UdpDatagram AxisLine UdpReqHdr (Beat (BitVec 8)) where
  lines := UdpDatagram.lines
  hdrs := UdpDatagram.hdrs
  data := UdpDatagram.beats

/-! ### Lines -/

section lines

variable {l : AxisLine} {t cur tail : List AxisLine} {i : OutputWires}

theorem MarkedLast.of_last (h : MarkedLast (l :: t))
    (hl : l.last = true) : t = [] := by
  rcases h with ⟨-, ht⟩ | ⟨hno, -⟩
  · exact ht
  · rw [hl] at hno
    cases hno

theorem MarkedLast.of_not_last (h : MarkedLast (l :: t))
    (hl : l.last = false) : MarkedLast t := by
  rcases h with ⟨hyes, -⟩ | ⟨-, ht⟩
  · rw [hl] at hyes
    cases hyes
  · exact ht

theorem MarkedLast.ne_nil (h : MarkedLast cur) : cur ≠ [] := by
  rintro rfl
  exact h

/-- The next line of the datagram is on the bus. -/
theorem MarkedLast.line_next (hf : MarkedLast cur) (hx : ∃ t, cur ++ tail = i.resp :: t) :
    ∃ t, cur = i.resp :: t := first_of_append hf.ne_nil hx

theorem bytesAtLast_single (b : BitVec 16) (l : AxisLine) : bytesAtLast b [l] = b := by
  simp [bytesAtLast]

theorem bytesAtLast_cons (b : BitVec 16) (l : AxisLine) (ht : t ≠ []) :
    bytesAtLast b (l :: t) = bytesAtLast (b - 64) t := by
  have hpos := List.length_pos_of_ne_nil ht
  have hsplit : 64 * ((l :: t).length - 1) = 64 + 64 * (t.length - 1) := by
    rw [List.length_cons]
    omega
  rw [bytesAtLast, bytesAtLast, hsplit, BitVec.ofNat_add]
  generalize BitVec.ofNat 16 (64 * (t.length - 1)) = k
  bv_omega

end lines

/-! ### Phases of a datagram -/

namespace UdpRx

variable {r : OutputCtrl 20} {i : OutputWires} {e : OutputEnv} {x : UdpDatagram}
  {cur tail : List AxisLine} {h : List UdpReqHdr} {d : List (Beat (BitVec 8))}

def Idle (r : OutputCtrl 20) : Prop := r.state = .ready ∧ r.hdrState = .waiting

/-- The header of the datagram in hand is still owed, or was given out. -/
def HdrOwes (r : OutputCtrl 20) (h : List UdpReqHdr) : Prop :=
  r.hdrState = .output ∧ h = [udpRxHdr r.hdr r.timestamp] ∨ r.hdrState = .waitTxFin ∧ h = []

/-- The lines `cur` of the datagram in hand are still to come, and `h` and `d` are owed for it. -/
inductive Phase (r : OutputCtrl 20) (cur : List AxisLine) (h : List UdpReqHdr)
    (d : List (Beat (BitVec 8))) : Prop
  | output (hs : r.state = .output) (hh : HdrOwes r h) (hf : MarkedLast cur)
      (ho : ShowsOwn r.bytesLeft cur) (hd : d = followingBeats r.hold r.bytesLeft cur)
  | outputLast (hs : r.state = .outputLast) (hh : HdrOwes r h) (hc : cur = [])
      (ho : shownBytes r.bytesLeft ≤ 44) (hd : d = [keptBeat r.hold r.bytesLeft])
  | drain (hs : r.state = .drain) (hm : r.hdrState = .waitTxFin) (hh : h = []) (hf : MarkedLast cur)
      (hd : d = [])
  | waitTxFin (hs : r.state = .waitTxFin) (hh : HdrOwes r h) (hc : cur = []) (hd : d = [])

def awaits (r : OutputCtrl 20) : OutputEvent :=
  match r.state with
  | .ready | .drain => .line
  | .output | .outputLast => .data
  | .waitTxFin => .hdr

def phases : LinePhases (OutputCtrl 20) AxisLine UdpReqHdr (Beat (BitVec 8)) OutputEvent where
  idle := Idle
  inside := Phase
  busy r := r.state != .ready
  awaits := awaits

/-! ### One cycle -/

theorem HdrOwes.step (hh : HdrOwes r h) (hne : r.state ≠ .ready)
    (hfin : ¬ (r.state = .waitTxFin ∧ r.hdrState = .waitTxFin)) :
    ∃ h', udpRxLines.hdrGiven r i ++ h' = h ∧ HdrOwes (r.next udpRxOutput i) h' := by
  have hregs : (r.next udpRxOutput i).hdr = r.hdr ∧
      (r.next udpRxOutput i).timestamp = r.timestamp := by
    simp [OutputCtrl.next, OutputCtrl.hdrNext, OutputCtrl.timestampNext, hne]
  rcases hh with ⟨hs, rfl⟩ | ⟨hs, rfl⟩
  · cases hr : i.hdrRdy with
    | true =>
      refine ⟨[], ?_, .inr ⟨?_, rfl⟩⟩
      · simp [udpRxLines, OutputCtrl.givesHdr, OutputCtrl.hdrVal, hs, hr]
      · simp [OutputCtrl.next, OutputCtrl.hdrStateNext, hs, hr]
    | false =>
      refine ⟨[udpRxHdr r.hdr r.timestamp], ?_, .inl ⟨?_, ?_⟩⟩
      · simp [udpRxLines, OutputCtrl.givesHdr, hr]
      · simp [OutputCtrl.next, OutputCtrl.hdrStateNext, hs, hr]
      · rw [hregs.1, hregs.2]
  · have hw : r.state ≠ .waitTxFin := fun hw => hfin ⟨hw, hs⟩
    refine ⟨[], ?_, .inr ⟨?_, rfl⟩⟩
    · simp [udpRxLines, OutputCtrl.givesHdr, OutputCtrl.hdrVal, hs]
    · simp [OutputCtrl.next, OutputCtrl.hdrStateNext, hs, hw]

/-- The data machine is in the middle of a datagram. -/
theorem advances_of (cur' : List AxisLine) (d' : List (Beat (BitVec 8))) (hh : HdrOwes r h)
    (hne : r.state ≠ .ready) (hw : r.state ≠ .waitTxFin)
    (hcur : (if r.takes i then (cur ++ tail).tail else cur ++ tail) = cur' ++ tail)
    (hd : udpRxLines.dataGiven r i ++ d' = d)
    (hph : ∀ h', HdrOwes (r.next udpRxOutput i) h' → Phase (r.next udpRxOutput i) cur' h' d') :
    udpRxLines.Advances phases r i cur tail h d := by
  obtain ⟨h', hh', hm⟩ := hh.step (i := i) hne (fun hf => hw hf.1)
  exact ⟨cur', h', d', hcur, hh', hd, .inl (hph h' hm)⟩

theorem output_advances (hs : r.state = .output) (hh : HdrOwes r h) (hf : MarkedLast cur)
    (ho : ShowsOwn r.bytesLeft cur) (hx : i.respVal = true → ∃ t, cur ++ tail = i.resp :: t) :
    udpRxLines.Advances phases r i cur tail h (followingBeats r.hold r.bytesLeft cur) := by
  have hne : r.state ≠ .ready := by simp [hs]
  have hw : r.state ≠ .waitTxFin := by simp [hs]
  have htg : r.takes i = r.gives i := by
    simp [OutputCtrl.takes, OutputCtrl.respRdy, OutputCtrl.gives, OutputCtrl.dataVal, hs]
  cases hg : r.gives i with
  | false =>
    have hgiven : udpRxLines.dataGiven r i = [] := by simp [udpRxLines, hg]
    refine advances_of cur _ hh hne hw (by simp [htg, hg]) (by rw [hgiven, List.nil_append])
      fun h' hm => ?_
    have hb : (r.next udpRxOutput i).bytesLeft = r.bytesLeft := by simp [OutputCtrl.next, hs, hg]
    have hhold : (r.next udpRxOutput i).hold = r.hold := by
      simp [OutputCtrl.next, OutputCtrl.storesHold, hs, hg]
    refine .output (by simp [OutputCtrl.next, OutputCtrl.stateNext, hs, hg]) hm hf ?_ ?_
    · rw [hb]
      exact ho
    · rw [hb, hhold]
  | true =>
    obtain ⟨hv, -⟩ : i.respVal = true ∧ i.dataRdy = true := by
      simpa [OutputCtrl.gives, OutputCtrl.dataVal, hs] using hg
    obtain ⟨t, rfl⟩ := hf.line_next (hx hv)
    have hhold : (r.next udpRxOutput i).hold = i.resp.data.setWidth (8 * 44) := by
      simp [OutputCtrl.next, OutputCtrl.storesHold, hs, hg]
    have hgiven : udpRxLines.dataGiven r i = [(r.dataOut i).read] := by simp [udpRxLines, hg]
    cases hl : i.resp.last with
    | false =>
      have ht := hf.of_not_last hl
      have hread : (r.dataOut i).read = readBeat (fill r.hold i.resp.data) false 0 := by
        simp [DataLine.read, OutputCtrl.dataOut, OutputCtrl.dataLast, hs, hl]
      have hb : (r.next udpRxOutput i).bytesLeft = r.bytesLeft - 64 := by
        simp [OutputCtrl.next, hs, hg, hl]
      refine advances_of t (followingBeats (i.resp.data.setWidth (8 * 44)) (r.bytesLeft - 64) t) hh
        hne hw (by simp [htg, hg]) ?_ fun h' hm => ?_
      · rw [hgiven, hread, followingBeats, if_neg (by simp [hl])]
        rfl
      · refine .output (by simp [OutputCtrl.next, OutputCtrl.stateNext, hs, hl]) hm ht ?_ ?_
        · rw [hb, ShowsOwn, ← bytesAtLast_cons _ i.resp ht.ne_nil]
          exact ho
        · rw [hb, hhold]
    | true =>
      obtain rfl := hf.of_last hl
      rw [ShowsOwn, bytesAtLast_single] at ho
      by_cases hfit : r.bytesLeft.toNat ≤ 64
      · have hread : (r.dataOut i).read =
            readBeat (fill r.hold i.resp.data) true ((64 - r.bytesLeft).setWidth 6) := by
          simp [DataLine.read, OutputCtrl.dataOut, OutputCtrl.dataLast, OutputCtrl.fits, hs, hg, hl,
            hfit]
        refine advances_of [] [] hh hne hw (by simp [htg, hg]) ?_ fun h' hm => ?_
        · rw [hgiven, hread, followingBeats, if_pos hl, if_pos hfit]
          rfl
        · have hst : (r.next udpRxOutput i).state = .waitTxFin := by
            simp [OutputCtrl.next, OutputCtrl.stateNext, OutputCtrl.fits, hs, hg, hl, hfit]
          exact .waitTxFin hst hm rfl rfl
      · have hread : (r.dataOut i).read = readBeat (fill r.hold i.resp.data) false 0 := by
          simp [DataLine.read, OutputCtrl.dataOut, OutputCtrl.dataLast, OutputCtrl.fits, hs, hfit]
        have hb : (r.next udpRxOutput i).bytesLeft = r.bytesLeft - 64 := by
          simp [OutputCtrl.next, OutputCtrl.fits, hs, hg, hfit]
        refine advances_of [] [keptBeat (i.resp.data.setWidth (8 * 44)) (r.bytesLeft - 64)] hh hne hw
          (by simp [htg, hg]) ?_ fun h' hm => ?_
        · rw [hgiven, hread, followingBeats, if_pos hl, if_neg hfit]
          rfl
        · have hst : (r.next udpRxOutput i).state = .outputLast := by
            simp [OutputCtrl.next, OutputCtrl.stateNext, OutputCtrl.fits, hs, hg, hl, hfit]
          refine .outputLast hst hm rfl ?_ ?_
          · rw [hb]
            exact ho.resolve_left hfit
          · rw [hb, hhold]

/-- The bytes that were kept are shown whatever is on the bus. -/
theorem outputLast_advances (hs : r.state = .outputLast) (hh : HdrOwes r h)
    (ho : shownBytes r.bytesLeft ≤ 44) :
    udpRxLines.Advances phases r i [] tail h [keptBeat r.hold r.bytesLeft] := by
  have hne : r.state ≠ .ready := by simp [hs]
  have hw : r.state ≠ .waitTxFin := by simp [hs]
  have htakes : r.takes i = false := by simp [OutputCtrl.takes, OutputCtrl.respRdy, hs]
  cases hr : i.dataRdy with
  | false =>
    have hgiven : udpRxLines.dataGiven r i = [] := by simp [udpRxLines, OutputCtrl.gives, hr]
    refine advances_of [] _ hh hne hw (by simp [htakes]) (by rw [hgiven, List.nil_append])
      fun h' hm => ?_
    have hb : (r.next udpRxOutput i).bytesLeft = r.bytesLeft := by simp [OutputCtrl.next, hs]
    have hhold : (r.next udpRxOutput i).hold = r.hold := by
      simp [OutputCtrl.next, OutputCtrl.storesHold, hs]
    refine .outputLast (by simp [OutputCtrl.next, OutputCtrl.stateNext, hs, hr]) hm rfl ?_ ?_
    · rw [hb]
      exact ho
    · rw [hb, hhold]
  | true =>
    have hgives : r.gives i = true := by simp [OutputCtrl.gives, OutputCtrl.dataVal, hs, hr]
    have hgiven : udpRxLines.dataGiven r i = [(r.dataOut i).read] := by
      simp [udpRxLines, hgives]
    have hread : (r.dataOut i).read = keptBeat r.hold r.bytesLeft := by
      have hlast : r.dataLast i = true := by simp [OutputCtrl.dataLast, hs]
      have hlen : (lineBytes r.hold).length = 44 := length_lineBytes _
      have hcut : (lineBytes (fill r.hold i.resp.data)).take (shownBytes r.bytesLeft) =
          (lineBytes r.hold).take (shownBytes r.bytesLeft) := by
        rw [OutputCtrl.lineBytes_shifted (by decide), List.take_append_of_le_length (by omega)]
      simp only [DataLine.read, OutputCtrl.dataOut, hlast, if_true, readBeat, keptBeat]
      rw [← hcut]
      rfl
    refine advances_of [] [] hh hne hw (by simp [htakes]) (by rw [hgiven, hread]; rfl)
      fun h' hm => ?_
    exact .waitTxFin (by simp [OutputCtrl.next, OutputCtrl.stateNext, hs, hr]) hm rfl rfl

theorem drain_advances (hs : r.state = .drain) (hm : r.hdrState = .waitTxFin)
    (hf : MarkedLast cur) (hx : i.respVal = true → ∃ t, cur ++ tail = i.resp :: t) :
    udpRxLines.Advances phases r i cur tail [] [] := by
  have hgiven : udpRxLines.dataGiven r i = [] := by
    simp [udpRxLines, OutputCtrl.gives, OutputCtrl.dataVal, hs]
  have hghdr : udpRxLines.hdrGiven r i = [] := by
    simp [udpRxLines, OutputCtrl.givesHdr, OutputCtrl.hdrVal, hm]
  have hm' : (r.next udpRxOutput i).hdrState = .waitTxFin := by
    simp [OutputCtrl.next, OutputCtrl.hdrStateNext, hm, hs]
  cases hv : i.respVal with
  | false =>
    have htakes : udpRxLines.takes r i = false := by simp [udpRxLines, OutputCtrl.takes, hv]
    refine ⟨cur, [], [], by simp [htakes], by simp [hghdr], by simp [hgiven], .inl ?_⟩
    exact .drain (by simp [udpRxLines, OutputCtrl.next, OutputCtrl.stateNext, hs, hv]) hm' rfl hf
      rfl
  | true =>
    have htakes : udpRxLines.takes r i = true := by
      simp [udpRxLines, OutputCtrl.takes, OutputCtrl.respRdy, hs, hv]
    obtain ⟨t, rfl⟩ := hf.line_next (hx hv)
    cases hl : i.resp.last with
    | true =>
      obtain rfl := hf.of_last hl
      refine ⟨[], [], [], by simp [htakes], by simp [hghdr], by simp [hgiven], .inl ?_⟩
      exact .waitTxFin (by simp [udpRxLines, OutputCtrl.next, OutputCtrl.stateNext, hs, hv, hl])
        (.inr ⟨hm', rfl⟩) rfl rfl
    | false =>
      refine ⟨t, [], [], by simp [htakes], by simp [hghdr], by simp [hgiven], .inl ?_⟩
      exact .drain (by simp [udpRxLines, OutputCtrl.next, OutputCtrl.stateNext, hs, hl]) hm' rfl
        (hf.of_not_last hl) rfl

theorem waitTxFin_advances (hs : r.state = .waitTxFin) (hh : HdrOwes r h) :
    udpRxLines.Advances phases r i [] tail h [] := by
  have htakes : udpRxLines.takes r i = false := by
    simp [udpRxLines, OutputCtrl.takes, OutputCtrl.respRdy, hs]
  have hgiven : udpRxLines.dataGiven r i = [] := by
    simp [udpRxLines, OutputCtrl.gives, OutputCtrl.dataVal, hs]
  by_cases hfin : r.hdrState = .waitTxFin
  · have hnil : h = [] := by
      rcases hh with ⟨ho, -⟩ | ⟨-, hnil⟩
      · rw [hfin] at ho
        cases ho
      · exact hnil
    subst hnil
    refine ⟨[], [], [], by simp [htakes], ?_, by simp [hgiven], .inr ⟨⟨?_, ?_⟩, rfl, rfl, rfl⟩⟩
    · simp [udpRxLines, OutputCtrl.givesHdr, OutputCtrl.hdrVal, hfin]
    · simp [udpRxLines, OutputCtrl.next, OutputCtrl.stateNext, hs, hfin]
    · simp [udpRxLines, OutputCtrl.next, OutputCtrl.hdrStateNext, hs, hfin]
  · obtain ⟨h', hh', hm⟩ := hh.step (i := i) (by simp [hs]) fun hf => hfin hf.2
    refine ⟨[], h', [], by simp [htakes], hh', by simp [hgiven], .inl ?_⟩
    exact .waitTxFin (by simp [udpRxLines, OutputCtrl.next, OutputCtrl.stateNext, hs, hfin]) hm
      rfl rfl

theorem Phase.advances (hp : Phase r cur h d)
    (hx : i.respVal = true → ∃ t, cur ++ tail = i.resp :: t) :
    udpRxLines.Advances phases r i cur tail h d := by
  cases hp with
  | output hs hh hf ho hd =>
    subst hd
    exact output_advances hs hh hf ho hx
  | outputLast hs hh hc ho hd =>
    subst hc hd
    exact outputLast_advances hs hh ho
  | drain hs hm hh hf hd =>
    subst hh hd
    exact drain_advances hs hm hf hx
  | waitTxFin hs hh hc hd =>
    subst hc hd
    exact waitTxFin_advances hs hh

/-! ### The controller handles datagrams -/

theorem first_good (hg : x.good = true) : udpRxOutput.first x.head =
    some (x.bytes, if x.bytes = 0 then .waitTxFin
      else if x.bytes.toNat ≤ 44 then .outputLast else .output) := by
  have hz : (udpHdrCast x.head.data).chksum = 0 := beq_iff_eq.mp hg
  exact if_pos hz

theorem first_bad (hg : x.good = false) : udpRxOutput.first x.head = none := by
  have hz : ¬ (udpHdrCast x.head.data).chksum = 0 := beq_eq_false_iff_ne.mp hg
  exact if_neg hz

/-- The controller has taken the first line of a good datagram. -/
theorem begins_good (hr : Idle r) (hv : i.respVal = true) (hl : i.resp = x.head)
    (hg : x.good = true) (hx : x.Handled) :
    Phase (r.next udpRxOutput i) x.tail x.hdrs x.beats := by
  obtain ⟨hs, hm⟩ := hr
  have hfirst := first_good hg
  have hhdr : HdrOwes (r.next udpRxOutput i) x.hdrs := by
    refine .inl ⟨?_, ?_⟩
    · simp [OutputCtrl.next, OutputCtrl.hdrStateNext, OutputCtrl.begins, hm, hs, hv, hl, hfirst]
    · simp [UdpDatagram.hdrs, hg, OutputCtrl.next, OutputCtrl.hdrNext, OutputCtrl.timestampNext, hs,
        hv, hl, hfirst]
  have hb : (r.next udpRxOutput i).bytesLeft = x.bytes := by
    simp [OutputCtrl.next, hs, hv, hl, hfirst]
  have hhold : (r.next udpRxOutput i).hold = x.head.data.setWidth (8 * 44) := by
    simp [OutputCtrl.next, OutputCtrl.storesHold, hs, hv, hl, hfirst]
  have hst : (r.next udpRxOutput i).state =
      if x.bytes = 0 then .waitTxFin else if x.bytes.toNat ≤ 44 then .outputLast else .output := by
    simp [OutputCtrl.next, OutputCtrl.stateNext, hs, hv, hl, hfirst]
  by_cases hz : x.bytes.toNat = 0
  · have hzero : x.bytes = 0 := BitVec.eq_of_toNat_eq hz
    rw [if_pos hzero] at hst
    refine .waitTxFin hst hhdr (hx.2.1 hg (by omega)) ?_
    rw [UdpDatagram.beats, if_pos hg, if_pos hz]
  · have hne : ¬ x.bytes = 0 := fun h0 => hz (by rw [h0]; rfl)
    rw [if_neg hne] at hst
    by_cases hshort : x.bytes.toNat ≤ 44
    · rw [if_pos hshort] at hst
      refine .outputLast hst hhdr (hx.2.1 hg hshort) ?_ ?_
      · have hpad : ((64 - x.bytes).setWidth 6).toNat = 64 - x.bytes.toNat := by
          rw [BitVec.toNat_setWidth]
          have hsub : (64 - x.bytes).toNat = 64 - x.bytes.toNat := by bv_omega
          rw [hsub]
          omega
        rw [hb, shownBytes, hpad]
        omega
      · rw [UdpDatagram.beats, if_pos hg, if_neg hz, if_pos hshort, hb, hhold]
    · rw [if_neg hshort] at hst
      obtain ⟨hne', ho⟩ := hx.2.2 hg (Nat.lt_of_not_le hshort)
      have hnot : x.head.last = false := by
        cases hlast : x.head.last with
        | false => rfl
        | true => exact absurd (x.framed.of_last hlast) hne'
      refine .output hst hhdr (x.framed.of_not_last hnot) ?_ ?_
      · rw [hb]
        exact ho
      · rw [UdpDatagram.beats, if_pos hg, if_neg hz, if_neg hshort, hb, hhold]

theorem begins_bad (hr : Idle r) (hv : i.respVal = true) (hl : i.resp = x.head)
    (hg : x.good = false) (hx : x.Handled) :
    Phase (r.next udpRxOutput i) x.tail x.hdrs x.beats := by
  obtain ⟨hs, hm⟩ := hr
  have hfirst := first_bad hg
  have hnot : x.head.last = false := by
    cases hlast : x.head.last with
    | false => rfl
    | true => exact absurd (x.framed.of_last hlast) (hx.1 hg)
  refine .drain ?_ ?_ (by simp [UdpDatagram.hdrs, hg]) (x.framed.of_not_last hnot)
    (by simp [UdpDatagram.beats, hg])
  · simp [OutputCtrl.next, OutputCtrl.stateNext, hs, hv, hl, hfirst]
  · simp [OutputCtrl.next, OutputCtrl.hdrStateNext, OutputCtrl.begins, hm, hs, hv, hl, hfirst]

theorem Phase.not_ready (hp : Phase r cur h d) : r.state ≠ .ready := by
  cases hp with
  | output hs | outputLast hs | drain hs | waitTxFin hs =>
    rw [hs]
    decide

/-- Where nothing moves, the data machine stays in its state. -/
theorem awaits_still (hm : udpRxLines.moves phases r i = false) :
    awaits (r.next udpRxOutput i) = awaits r := by
  obtain ⟨⟨⟨ht, -⟩, hgives⟩, hl⟩ : ((r.takes i = false ∧ r.givesHdr i = false) ∧
      r.gives i = false) ∧ (r.state ≠ .ready → (r.next udpRxOutput i).state ≠ .ready) := by
    simpa [LineMachine.moves, udpRxLines, phases] using hm
  have hst : (r.next udpRxOutput i).state = r.state := by
    show r.stateNext udpRxOutput i = _
    cases hst : r.state with
    | ready | drain =>
      have hv : i.respVal = false := by
        simpa [OutputCtrl.takes, OutputCtrl.respRdy, hst] using ht
      simp [OutputCtrl.stateNext, hst, hv]
    | output => simp [OutputCtrl.stateNext, hst, hgives]
    | outputLast =>
      have hr : i.dataRdy = false := by
        simpa [OutputCtrl.gives, OutputCtrl.dataVal, hst] using hgives
      simp [OutputCtrl.stateNext, hst, hr]
    | waitTxFin =>
      have hh : r.hdrState ≠ .waitTxFin := by
        intro hh
        exact hl (by simp [hst]) (by simp [OutputCtrl.next, OutputCtrl.stateNext, hst, hh])
      simp [OutputCtrl.stateNext, hst, hh]
  rw [awaits, hst]
  rfl

/-- Inside a datagram something moves when the awaited event comes. -/
theorem Phase.stirs (hp : Phase r cur h d) (hg : e.Given (awaits r)) :
    udpRxLines.moves phases r (e.wires (cur ++ tail)) = true := by
  have hval : e.offer = true → MarkedLast cur → (e.wires (cur ++ tail)).respVal = true :=
    fun ho hf => OutputEnv.val_of_offer ho
      fun hnil => hf.ne_nil (List.append_eq_nil_iff.mp hnil).1
  cases hp with
  | output hst _ hf =>
    obtain ⟨ho, hr⟩ : e.offer = true ∧ e.dataRdy = true := by
      simpa [awaits, hst, OutputEnv.Given] using hg
    have hr' : (e.wires (cur ++ tail)).dataRdy = true := hr
    simp [LineMachine.moves, udpRxLines, OutputCtrl.takes, OutputCtrl.respRdy, hst, hval ho hf, hr']
  | drain hst _ _ hf =>
    have ho : e.offer = true := by simpa [awaits, hst, OutputEnv.Given] using hg
    simp [LineMachine.moves, udpRxLines, OutputCtrl.takes, OutputCtrl.respRdy, hst, hval ho hf]
  | outputLast hst =>
    obtain ⟨-, hr⟩ : e.offer = true ∧ e.dataRdy = true := by
      simpa [awaits, hst, OutputEnv.Given] using hg
    simp [LineMachine.moves, udpRxLines, OutputCtrl.gives, OutputCtrl.dataVal, hst, OutputEnv.wires, hr]
  | waitTxFin hst hm =>
    have hr : e.hdrRdy = true := by simpa [awaits, hst, OutputEnv.Given] using hg
    rcases hm with ⟨ho, -⟩ | ⟨hw, -⟩
    · simp [LineMachine.moves, udpRxLines, OutputCtrl.givesHdr, OutputCtrl.hdrVal, ho,
        OutputEnv.wires, hr]
    · simp [LineMachine.moves, udpRxLines, phases, OutputCtrl.next, OutputCtrl.stateNext, hst, hw]

theorem handles :
    LineHandles udpRxLines datagramLines phases OutputEnv.Given UdpDatagram.Handled where
  lines_ne x := List.cons_ne_nil _ _
  idle_busy r hr := by simp [phases, hr.1]
  inside_busy r cur h d hp := by simp [phases, hp.not_ready]
  takes_ne r e src ht := by
    obtain ⟨t, ht⟩ := OutputEnv.resp_of_val (Bool.and_eq_true_iff.mp ht).1
    rw [ht]
    exact List.cons_ne_nil _ _
  idle_gives r i hr := by
    simp [udpRxLines, OutputCtrl.givesHdr, OutputCtrl.hdrVal, OutputCtrl.gives, OutputCtrl.dataVal,
      hr.1, hr.2]
  idle_still r e src hr ht := by
    have hv : (e.wires src).respVal = false := by
      simpa [udpRxLines, OutputCtrl.takes, OutputCtrl.respRdy, hr.1] using ht
    refine ⟨?_, ?_⟩
    · simp [udpRxLines, OutputCtrl.next, OutputCtrl.stateNext, hr.1, hv]
    · simp [udpRxLines, OutputCtrl.next, OutputCtrl.hdrStateNext, OutputCtrl.begins, hr.2, hv]
  idle_stirs r e src hr hne hg := by
    have ho : e.offer = true := by simpa [phases, awaits, hr.1, OutputEnv.Given] using hg
    show ((e.wires src).respVal && r.respRdy (e.wires src)) = true
    rw [OutputEnv.val_of_offer ho hne, OutputCtrl.respRdy, hr.1]
    rfl
  begins x tail r e hx hr ht := by
    have hv : (e.wires (x.lines ++ tail)).respVal = true := (Bool.and_eq_true_iff.mp ht).1
    obtain ⟨t, hsrc⟩ := OutputEnv.resp_of_val hv
    have hl : (e.wires (x.lines ++ tail)).resp = x.head := by
      rw [UdpDatagram.lines, List.cons_append, List.cons.injEq] at hsrc
      exact hsrc.1.symm
    cases hg : x.good with
    | true => exact begins_good hr hv hl hg hx
    | false => exact begins_bad hr hv hl hg hx
  advances r cur h d e tail hp := hp.advances fun hv => OutputEnv.resp_of_val hv
  stirs r cur h d e tail hp hg := hp.stirs hg
  awaits_still r i hm := awaits_still hm

end UdpRx

namespace UdpRxSystem

/-- Nothing is in the controller, and the engine has the datagrams. -/
def Init (xs : List UdpDatagram) (s : UdpRxSystem) : Prop :=
  UdpRx.Idle s.ctrl ∧ s.src = xs.flatMap UdpDatagram.lines ∧ s.hdrs = [] ∧ s.data = []

/-- The headers and the data lines are those that `f` and `g` say for each datagram, in order; in
the end all are given out, and the controller has taken all lines and is back in `READY`. -/
structure Isolates (f : UdpDatagram → List UdpReqHdr) (g : UdpDatagram → List (Beat (BitVec 8)))
    (xs : List UdpDatagram) (s : UdpRxSystem) : Prop where
  hdrs : s.hdrs <+: xs.flatMap f
  data : s.data <+: xs.flatMap g
  ends : ∀ sched, Fair OutputEnv.Given sched → ∃ n,
    UdpRx.Idle (exec udpRxMachine.cycle s sched n).ctrl ∧
      (exec udpRxMachine.cycle s sched n).src = [] ∧
      (exec udpRxMachine.cycle s sched n).hdrs = xs.flatMap f ∧
      (exec udpRxMachine.cycle s sched n).data = xs.flatMap g

end UdpRxSystem

/-- Where the length field and the number of lines of every datagram agree, what is given out for a
datagram does not depend on the others. -/
theorem udp_rx_isolates (xs : List UdpDatagram) (hx : ∀ x ∈ xs, x.Handled) {s : UdpRxSystem}
    (h : Reach (UdpRxSystem.Init xs) udpRxMachine.step Free s) :
    UdpRxSystem.Isolates UdpDatagram.hdrs UdpDatagram.beats xs s := by
  have hinit : ∀ s, UdpRxSystem.Init xs s →
      Between datagramLines.kind UdpRx.phases.phases [] xs s := by
    rintro s ⟨hr, hsrc, hh, hd⟩
    exact ⟨hr, hsrc.trans (loadAll_lines datagramLines xs).symm, hh, hd⟩
  have hrun := inRun_of_reach UdpRx.handles.handles hx (h.of_init hinit)
  obtain ⟨hhdrs, hdata⟩ := hrun.beginning
  refine ⟨hhdrs, hdata, fun sched hf => ?_⟩
  obtain ⟨n, hr, hsrc, hh, hd⟩ := hrun.ends UdpRx.handles.handles hx hf
  exact ⟨n, hr, hsrc, hh, hd⟩

/-! ### Fixed datagrams -/

/-- A first line with the given fields of the UDP header. -/
def udpLine (srcPort length chksum : BitVec 16) (last : Bool) : AxisLine where
  data := (0 : BitVec (8 * 12)) ++ ((UdpPktHdr.mk srcPort 2 length chksum).bits ++
    (0xab : BitVec (8 * 44)))
  keep := 0
  last := last
  user := 0

/-- Four bytes of payload. -/
def shortDatagram (srcPort chksum : BitVec 16) : UdpDatagram :=
  ⟨udpLine srcPort 12 chksum true, [], .inl ⟨rfl, rfl⟩⟩

/-- 60 bytes of payload. -/
def longDatagram (srcPort chksum : BitVec 16) : UdpDatagram :=
  ⟨udpLine srcPort 68 chksum false, [⟨BitVec.ofNat 512 (0x1234 * 2 ^ 400), 0, true, 0⟩],
    .inr ⟨rfl, .inl ⟨rfl, rfl⟩⟩⟩

namespace UdpRxSystem

def reset (xs : List UdpDatagram) : UdpRxSystem where
  ctrl := ⟨.ready, .waiting, 0, 0, 0, 0⟩
  src := xs.flatMap UdpDatagram.lines
  hdrs := []
  data := []

theorem init_reset (xs : List UdpDatagram) : Init xs (reset xs) := ⟨⟨rfl, rfl⟩, rfl, rfl, rfl⟩

/-- The only header that is given out in a run in which everything happens. -/
theorem first_port {f : UdpDatagram → List UdpReqHdr} {g : UdpDatagram → List (Beat (BitVec 8))}
    {xs : List UdpDatagram} (port : BitVec 16)
    (h : ∀ s, Reach (Init xs) udpRxMachine.step Free s → Isolates f g xs s) (n : Nat)
    (hp : (run udpRxMachine.step Free (reset xs) (List.replicate n .calm)).any
      (fun s => decide (s.hdrs.map (fun h => h.udpHdr.srcPort) = [port])) = true) :
    [port] <+: xs.flatMap fun x => (f x).map fun h => h.udpHdr.srcPort := by
  obtain ⟨s, hs, hp⟩ := Reach.exists_of_run _ (init_reset xs) hp
  have hpre := (h s hs).hdrs.map (fun h => h.udpHdr.srcPort)
  rw [of_decide_eq_true hp, List.map_flatMap] at hpre
  exact hpre

end UdpRxSystem

/-- A bad datagram of two lines between two good ones is dropped. -/
theorem udp_rx_isolates_three :
    ∃ s, Reach (UdpRxSystem.Init [shortDatagram 1 0, longDatagram 2 1, longDatagram 3 0])
        udpRxMachine.step Free s ∧
      s.hdrs.map (fun h => h.udpHdr.srcPort) = [1, 3] ∧
      s.data.map (fun b => (b.bytes.length, b.last, b.padbytes)) = [(4, true, 60), (60, true, 4)] ∧
      UdpRxSystem.Isolates UdpDatagram.hdrs UdpDatagram.beats
        [shortDatagram 1 0, longDatagram 2 1, longDatagram 3 0] s := by
  have hs : ∃ s, Reach (UdpRxSystem.Init [shortDatagram 1 0, longDatagram 2 1, longDatagram 3 0])
      udpRxMachine.step Free s ∧
        decide (s.hdrs.map (fun h => h.udpHdr.srcPort) = [1, 3] ∧
          s.data.map (fun b => (b.bytes.length, b.last, b.padbytes)) =
            [(4, true, 60), (60, true, 4)]) = true :=
    Reach.exists_of_run (List.replicate 16 .calm) (UdpRxSystem.init_reset _) (by decide +kernel)
  obtain ⟨s, hs, hp⟩ := hs
  obtain ⟨hh, hd⟩ := of_decide_eq_true hp
  exact ⟨s, hs, hh, hd, udp_rx_isolates _ (by decide +kernel) hs⟩

/-- A bad datagram of one line takes the next datagram with it, whichever that is. -/
theorem udp_rx_drops_next : ¬ ∃ f g, ∀ xs s, Reach (UdpRxSystem.Init xs) udpRxMachine.step Free s →
    UdpRxSystem.Isolates f g xs s := by
  rintro ⟨f, g, h⟩
  have hone := UdpRxSystem.first_port 1 (h [shortDatagram 1 0]) 4 (by decide +kernel)
  have htwo := UdpRxSystem.first_port 2
    (h [shortDatagram 9 1, shortDatagram 1 0, shortDatagram 2 0]) 8 (by decide +kernel)
  have hother := UdpRxSystem.first_port 1
    (h [shortDatagram 9 1, shortDatagram 2 0, shortDatagram 1 0]) 8 (by decide +kernel)
  simp only [List.flatMap_cons, List.flatMap_nil, List.append_nil] at hone htwo hother
  cases hbad : (f (shortDatagram 9 1)).map (fun h => h.udpHdr.srcPort) with
  | nil =>
    obtain ⟨t, ht⟩ := hone
    rw [hbad, ← ht] at htwo
    simp at htwo
  | cons y ys =>
    rw [hbad] at htwo hother
    rw [List.cons_append, List.cons_prefix_cons] at htwo hother
    exact absurd (htwo.1.trans hother.1.symm) (by decide)

end TcpHw
