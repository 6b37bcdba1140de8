import TcpHw.Frontend.RxTcpOutput

/-!
# One segment in `rx_tcp_format_output_ctrl`

Between the first line of a segment and the return to `READY` the controller is in a phase: some
lines of the segment are still to come, and its header and some lines of payload are still owed.
Every cycle takes lines of this segment only and pays what is owed, until nothing is left.
-/
namespace TcpHw

open Bytes Framing

set_option autoImplicit false

namespace RxTcpOutput

variable {r : RxTcpOutput} {i : OutputWires} {cur tail : List AxisLine} {h : List RxTcpHdr}
  {d : List (Beat (BitVec 8))} {x : AxisLine} {t : List AxisLine} {k : Nat}

/-- Between two segments. -/
def Idle (r : RxTcpOutput) : Prop := r.parseState = .ready ∧ r.hdrState = .waiting

/-- The header of the segment in hand is still owed, or was given out. -/
def HdrOwes (r : RxTcpOutput) (h : List RxTcpHdr) : Prop :=
  r.hdrState = .output ∧ h = [r.hdrOut] ∨ r.hdrState = .waitTxFin ∧ h = []

/-- The bytes of the two realign registers behind the headers. -/
def held (r : RxTcpOutput) : List (BitVec 8) :=
  (lineBytes r.realignUpper).drop r.hdrBytesRem.toNat ++ lineBytes r.realignLower

/-- The lines `cur` of the segment in hand are still to come, and `h` and `d` are owed for it. -/
inductive Phase (r : RxTcpOutput) (cur : List AxisLine) (h : List RxTcpHdr)
    (d : List (Beat (BitVec 8))) : Prop
  | hdrDrain (k : Nat) (hs : r.parseState = .tcpHdrDrain) (hh : HdrOwes r h)
      (hc : CarriesBytes cur k) (hrem : r.hdrBytesRem.toNat ≤ 64) (hk : r.hdrBytesRem.toNat ≤ k)
      (hb : r.bytesLeft.toNat = k - r.hdrBytesRem.toNat)
      (hd : d = beats 64 (((axisBytes cur).take k).drop r.hdrBytesRem.toNat))
  | firstData (k : Nat) (hs : r.parseState = .firstData) (hh : HdrOwes r h)
      (hc : CarriesBytes cur k) (hrem : r.hdrBytesRem.toNat ≤ 64)
      (hb : r.bytesLeft.toNat = 64 - r.hdrBytesRem.toNat + k)
      (hd : d = beats 64 ((lineBytes r.realignUpper).drop r.hdrBytesRem.toNat ++
        (axisBytes cur).take k))
  | dataOutput (k : Nat) (hs : r.parseState = .dataOutput) (hh : HdrOwes r h)
      (hc : CarriesBytes cur k) (hrem : r.hdrBytesRem.toNat ≤ 64)
      (hb : r.bytesLeft.toNat = 128 - r.hdrBytesRem.toNat + k)
      (hd : d = beats 64 (r.held ++ (axisBytes cur).take k))
  | dataOutputLast (hs : r.parseState = .dataOutputLast) (hh : HdrOwes r h) (hc : cur = [])
      (hrem : r.hdrBytesRem.toNat ≤ 64) (h0 : 0 < r.bytesLeft.toNat)
      (hb : r.bytesLeft.toNat ≤ 128 - r.hdrBytesRem.toNat)
      (hd : d = beats 64 (r.held.take r.bytesLeft.toNat))
  | drain (k : Nat) (hs : r.parseState = .drain) (hm : r.hdrState = .waitTxFin) (hh : h = [])
      (hc : CarriesBytes cur k) (hd : d = [])
  | waitTxFin (hs : r.parseState = .dataWaitTxFin) (hh : HdrOwes r h) (hc : cur = []) (hd : d = [])

/-- What the header port and the data port give out in this cycle. -/
def hdrGiven (r : RxTcpOutput) (i : OutputWires) : List RxTcpHdr :=
  if r.givesHdr i then [r.hdrOut] else []

def dataGiven (r : RxTcpOutput) (i : OutputWires) : List (Beat (BitVec 8)) :=
  if r.gives i then [(r.dataOut).read] else []

/-- One cycle leaves the lines behind the segment alone and pays what is owed. It leaves the
segment when nothing is to come and nothing is owed. -/
def Advances (r : RxTcpOutput) (i : OutputWires) (cur tail : List AxisLine) (h : List RxTcpHdr)
    (d : List (Beat (BitVec 8))) : Prop :=
  ∃ cur' h' d', (if r.takes i then (cur ++ tail).tail else cur ++ tail) = cur' ++ tail ∧
    hdrGiven r i ++ h' = h ∧ dataGiven r i ++ d' = d ∧
    (Phase (r.next i) cur' h' d' ∨ Idle (r.next i) ∧ cur' = [] ∧ h' = [] ∧ d' = [])

/-! ### The header machine -/

theorem not_begins (hne : r.parseState ≠ .ready) : r.begins i = false := by simp [begins, hne]

theorem hdrOut_next (hne : r.parseState ≠ .ready) : (r.next i).hdrOut = r.hdrOut := by
  simp [hdrOut, next, not_begins hne]

theorem HdrOwes.step (hh : HdrOwes r h) (hne : r.parseState ≠ .ready)
    (hfin : ¬ (r.parseState = .dataWaitTxFin ∧ r.hdrState = .waitTxFin)) :
    ∃ h', hdrGiven r i ++ h' = h ∧ HdrOwes (r.next i) h' := by
  rcases hh with ⟨hs, rfl⟩ | ⟨hs, rfl⟩
  · cases hr : i.hdrRdy with
    | true =>
      refine ⟨[], by simp [hdrGiven, givesHdr, hdrVal, hs, hr], .inr ⟨?_, rfl⟩⟩
      simp [next, hdrNext, hs, hr]
    | false =>
      refine ⟨[r.hdrOut], by simp [hdrGiven, givesHdr, hr], .inl ⟨?_, ?_⟩⟩
      · simp [next, hdrNext, hs, hr]
      · rw [hdrOut_next hne]
  · have hw : r.parseState ≠ .dataWaitTxFin := fun hw => hfin ⟨hw, hs⟩
    refine ⟨[], by simp [hdrGiven, givesHdr, hdrVal, hs], .inr ⟨?_, rfl⟩⟩
    simp [next, hdrNext, hs, hw]

/-- The data machine is in the middle of a segment. -/
theorem advances_of (cur' : List AxisLine) (d' : List (Beat (BitVec 8))) (hh : HdrOwes r h)
    (hne : r.parseState ≠ .ready) (hw : r.parseState ≠ .dataWaitTxFin)
    (hcur : (if r.takes i then (cur ++ tail).tail else cur ++ tail) = cur' ++ tail)
    (hd : dataGiven r i ++ d' = d)
    (hph : ∀ h', HdrOwes (r.next i) h' → Phase (r.next i) cur' h' d') :
    Advances r i cur tail h d := by
  obtain ⟨h', hh', hm⟩ := hh.step (i := i) hne (fun hf => hw hf.1)
  exact ⟨cur', h', d', hcur, hh', hd, .inl (hph h' hm)⟩

/-- The next line of the segment is on the bus. -/
theorem line_next (hc : CarriesBytes cur k) (hx : ∃ t, cur ++ tail = i.resp :: t) :
    ∃ t, cur = i.resp :: t := first_of_append hc.ne_nil hx

/-! ### The lines of payload -/

theorem length_held (hrem : r.hdrBytesRem.toNat ≤ 64) :
    r.held.length = 128 - r.hdrBytesRem.toNat := by
  have hu : (lineBytes r.realignUpper).length = 64 := length_lineBytes _
  have hl : (lineBytes r.realignLower).length = 64 := length_lineBytes _
  rw [held, List.length_append, List.length_drop, hu, hl]
  omega

/-- The line on the data port. -/
theorem lineBytes_dataOut (hrem : r.hdrBytesRem.toNat ≤ 64) :
    lineBytes r.dataOut.data = r.held.take 64 := by
  have hu : (lineBytes r.realignUpper).length = 64 := length_lineBytes _
  have hshift : r.realignShift.toNat = 8 * r.hdrBytesRem.toNat := by
    rw [realignShift, BitVec.toNat_shiftLeft, Nat.shiftLeft_eq]
    omega
  show lineBytes (upperShl r.realignUpper r.realignLower r.realignShift.toNat) = _
  rw [hshift, lineBytes_upperShl _ _ hrem, held, List.drop_append_of_le_length (by omega)]

/-- What stays after a full line. -/
theorem drop_held (hrem : r.hdrBytesRem.toNat ≤ 64) :
    r.held.drop 64 = (lineBytes r.realignLower).drop r.hdrBytesRem.toNat := by
  have hu : ((lineBytes r.realignUpper).drop r.hdrBytesRem.toNat).length =
      64 - r.hdrBytesRem.toNat := by rw [List.length_drop, length_lineBytes]
  have hk : 64 - (64 - r.hdrBytesRem.toNat) = r.hdrBytesRem.toNat := by omega
  rw [held, List.drop_append, hu, hk, List.drop_of_length_le (by omega), List.nil_append]

/-- A line that is not the last one. -/
theorem read_full (hl : r.dataLast = false) (hrem : r.hdrBytesRem.toNat ≤ 64) :
    r.dataOut.read = ⟨r.held.take 64, false, 0⟩ := by
  have hlast : r.dataOut.last = false := hl
  rw [DataLine.read, readBeat, hlast, if_neg Bool.false_ne_true, lineBytes_dataOut hrem]

theorem read_last (hs : r.parseState = .dataOutputLast) (hb : r.bytesLeft.toNat ≤ 64)
    (h0 : 0 < r.bytesLeft.toNat) (hrem : r.hdrBytesRem.toNat ≤ 64) :
    r.dataOut.read = ⟨r.held.take r.bytesLeft.toNat, true, 64 - r.bytesLeft.toNat⟩ := by
  have hlast : r.dataLast = true := by simp [dataLast, hs, hb]
  have hpad : ((64 - r.bytesLeft).setWidth 6).toNat = 64 - r.bytesLeft.toNat := by
    have hsub : (64 - r.bytesLeft).toNat = 64 - r.bytesLeft.toNat := by bv_omega
    rw [BitVec.toNat_setWidth, hsub]
    omega
  have hk : 64 - (64 - r.bytesLeft.toNat) = r.bytesLeft.toNat := by omega
  have hl : r.dataOut.last = true := hlast
  have hp : r.dataOut.padbytes = (64 - r.bytesLeft).setWidth 6 := by simp [dataOut, hlast]
  rw [DataLine.read, readBeat, hl, if_pos rfl, hp, hpad, hk, lineBytes_dataOut hrem,
    List.take_take, Nat.min_eq_left hb]

/-! ### The data machine -/

theorem hdrDrain_advances (hs : r.parseState = .tcpHdrDrain) (hh : HdrOwes r h)
    (hc : CarriesBytes cur k) (hrem : r.hdrBytesRem.toNat ≤ 64) (hk : r.hdrBytesRem.toNat ≤ k)
    (hb : r.bytesLeft.toNat = k - r.hdrBytesRem.toNat)
    (hx : i.respVal = true → ∃ t, cur ++ tail = i.resp :: t) :
    Advances r i cur tail h (beats 64 (((axisBytes cur).take k).drop r.hdrBytesRem.toNat)) := by
  have hne : r.parseState ≠ .ready := by simp [hs]
  have hgives : dataGiven r i = [] := by simp [dataGiven, gives, dataVal, hs]
  have hrem' : (r.next i).hdrBytesRem = r.hdrBytesRem := by
    have hno : ¬ 64 < r.hdrBytesRem.toNat := by omega
    simp [next, hdrBytesRemNext, hs, hno]
  have hleft : (r.next i).bytesLeft = r.bytesLeft := by simp [next, bytesLeftNext, hs]
  cases hv : i.respVal with
  | false =>
    have htakes : r.takes i = false := by simp [takes, hv]
    refine advances_of cur _ hh hne (by simp [hs]) (by simp [htakes])
      (by rw [hgives, List.nil_append]) fun h' hm => ?_
    refine .hdrDrain k (by simp [next, parseNext, hs, hv]) hm hc (by rw [hrem']; exact hrem)
      (by rw [hrem']; exact hk) (by rw [hrem', hleft]; exact hb) (by rw [hrem'])
  | true =>
    have htakes : r.takes i = true := by simp [takes, respRdy, hs, hv]
    obtain ⟨t, rfl⟩ := line_next hc (hx hv)
    have hup : (r.next i).realignUpper = i.resp.data := by
      simp [next, realignUpperNext, hs, hv]
    have hlen : (lineBytes i.resp.data).length = 64 := length_lineBytes _
    cases hl : i.resp.last with
    | true =>
      obtain ⟨rfl, hk64⟩ := hc.of_last hl
      have hall : ((axisBytes [i.resp]).take k).drop r.hdrBytesRem.toNat =
          ((lineBytes i.resp.data).take k).drop r.hdrBytesRem.toNat := by
        rw [axisBytes_cons, axisBytes_nil, List.append_nil]
      rw [hall]
      by_cases hz : 0 < r.bytesLeft.toNat
      · refine advances_of [] _ hh hne (by simp [hs]) (by simp [htakes])
          (by rw [hgives, List.nil_append]) fun h' hm => ?_
        refine .dataOutputLast (by simp [next, parseNext, hs, hv, hrem, hl, hz]) hm rfl
          (by rw [hrem']; exact hrem) (by rw [hleft]; exact hz)
          (by rw [hleft, hrem', hb]; omega) ?_
        have hcut : ((r.next i).held).take r.bytesLeft.toNat =
            ((lineBytes i.resp.data).take k).drop r.hdrBytesRem.toNat := by
          rw [held, hup, hrem', List.take_append_of_le_length
            (by rw [List.length_drop, hlen, hb]; omega), hb, List.drop_take]
        rw [hleft, hcut]
      · have hnil : ((lineBytes i.resp.data).take k).drop r.hdrBytesRem.toNat = [] := by
          refine List.drop_of_length_le ?_
          rw [List.length_take, hlen]
          omega
        refine advances_of [] [] hh hne (by simp [hs]) (by simp [htakes])
          (by rw [hgives, hnil]; rfl) fun h' hm => ?_
        exact .waitTxFin (by simp [next, parseNext, hs, hv, hrem, hl, hz]) hm rfl rfl
    | false =>
      obtain ⟨hk64, hc'⟩ := hc.of_not_last hl
      refine advances_of t _ hh hne (by simp [hs]) (by simp [htakes])
        (by rw [hgives, List.nil_append]) fun h' hm => ?_
      refine .firstData (k - 64) (by simp [next, parseNext, hs, hv, hrem, hl]) hm hc'
        (by rw [hrem']; exact hrem) (by rw [hleft, hrem', hb]; omega) ?_
      rw [take_axisBytes_cons (by omega), hup, hrem', List.drop_append_of_le_length (by omega)]

theorem firstData_advances (hs : r.parseState = .firstData) (hh : HdrOwes r h)
    (hc : CarriesBytes cur k) (hrem : r.hdrBytesRem.toNat ≤ 64)
    (hb : r.bytesLeft.toNat = 64 - r.hdrBytesRem.toNat + k)
    (hx : i.respVal = true → ∃ t, cur ++ tail = i.resp :: t) :
    Advances r i cur tail h (beats 64 ((lineBytes r.realignUpper).drop r.hdrBytesRem.toNat ++
      (axisBytes cur).take k)) := by
  have hne : r.parseState ≠ .ready := by simp [hs]
  have hgives : dataGiven r i = [] := by simp [dataGiven, gives, dataVal, hs]
  have hrem' : (r.next i).hdrBytesRem = r.hdrBytesRem := by simp [next, hdrBytesRemNext, hs]
  have hleft : (r.next i).bytesLeft = r.bytesLeft := by simp [next, bytesLeftNext, hs]
  have hup : (r.next i).realignUpper = r.realignUpper := by simp [next, realignUpperNext, hs]
  cases hv : i.respVal with
  | false =>
    have htakes : r.takes i = false := by simp [takes, hv]
    refine advances_of cur _ hh hne (by simp [hs]) (by simp [htakes])
      (by rw [hgives, List.nil_append]) fun h' hm => ?_
    exact .firstData k (by simp [next, parseNext, hs, hv]) hm hc (by rw [hrem']; exact hrem)
      (by rw [hrem', hleft]; exact hb) (by rw [hrem', hup])
  | true =>
    have htakes : r.takes i = true := by simp [takes, respRdy, hs, hv]
    obtain ⟨t, rfl⟩ := line_next hc (hx hv)
    have hlow : (r.next i).realignLower = i.resp.data := by
      simp [next, realignLowerNext, hs, hv]
    have hheld : (r.next i).held =
        (lineBytes r.realignUpper).drop r.hdrBytesRem.toNat ++ lineBytes i.resp.data := by
      rw [held, hup, hlow, hrem']
    have hpos := hc.le.1
    cases hl : i.resp.last with
    | true =>
      obtain ⟨rfl, hk64⟩ := hc.of_last hl
      refine advances_of [] _ hh hne (by simp [hs]) (by simp [htakes])
        (by rw [hgives, List.nil_append]) fun h' hm => ?_
      refine .dataOutputLast (by simp [next, parseNext, hs, hv, hl]) hm rfl
        (by rw [hrem']; exact hrem) (by rw [hleft, hb]; omega)
        (by rw [hleft, hrem', hb]; omega) ?_
      have hup' : ((lineBytes r.realignUpper).drop r.hdrBytesRem.toNat).length =
          64 - r.hdrBytesRem.toNat := by rw [List.length_drop, length_lineBytes]
      rw [hheld, hleft, hb, ← hup', List.take_length_add_append, axisBytes_cons, axisBytes_nil,
        List.append_nil]
    | false =>
      obtain ⟨hk64, hc'⟩ := hc.of_not_last hl
      refine advances_of t _ hh hne (by simp [hs]) (by simp [htakes])
        (by rw [hgives, List.nil_append]) fun h' hm => ?_
      refine .dataOutput (k - 64) (by simp [next, parseNext, hs, hv, hl]) hm hc'
        (by rw [hrem']; exact hrem) (by rw [hleft, hrem', hb]; omega) ?_
      rw [hheld, take_axisBytes_cons (by omega), List.append_assoc]

theorem dataOutput_advances (hs : r.parseState = .dataOutput) (hh : HdrOwes r h)
    (hc : CarriesBytes cur k) (hrem : r.hdrBytesRem.toNat ≤ 64)
    (hb : r.bytesLeft.toNat = 128 - r.hdrBytesRem.toNat + k)
    (hx : i.respVal = true → ∃ t, cur ++ tail = i.resp :: t) :
    Advances r i cur tail h (beats 64 (r.held ++ (axisBytes cur).take k)) := by
  have hne : r.parseState ≠ .ready := by simp [hs]
  have hrem' : (r.next i).hdrBytesRem = r.hdrBytesRem := by simp [next, hdrBytesRemNext, hs]
  cases hg : r.gives i with
  | false =>
    have htakes : r.takes i = false := by
      have hg' : (i.respVal && i.dataRdy) = false := by simpa [gives, dataVal, hs] using hg
      simpa [takes, respRdy, hs] using hg'
    have hup : (r.next i).realignUpper = r.realignUpper := by simp [next, realignUpperNext, hs, hg]
    have hlow : (r.next i).realignLower = r.realignLower := by simp [next, realignLowerNext, hs, hg]
    have hheld : (r.next i).held = r.held := by rw [held, held, hup, hlow, hrem']
    have hnone : dataGiven r i = [] := by simp [dataGiven, hg]
    refine advances_of cur _ hh hne (by simp [hs]) (by simp [htakes])
      (by rw [hnone, List.nil_append]) fun h' hm => ?_
    refine .dataOutput k (by simp [next, parseNext, hs, hg]) hm hc (by rw [hrem']; exact hrem) ?_
      (by rw [hheld])
    rw [hrem', ← hb]
    simp [next, bytesLeftNext, hs, hg]
  | true =>
    obtain ⟨hval, hrdy⟩ := Bool.and_eq_true_iff.mp hg
    have hv : i.respVal = true := by simpa [dataVal, hs] using hval
    have htakes : r.takes i = true := by simp [takes, respRdy, hs, hv, hrdy]
    obtain ⟨t, rfl⟩ := line_next hc (hx hv)
    have hpos := hc.le.1
    have hlast : r.dataLast = false := by simp [dataLast, hs]
    have hlen := length_held hrem
    have hleft : (r.next i).bytesLeft.toNat = r.bytesLeft.toNat - 64 := by
      have hnext : (r.next i).bytesLeft = r.bytesLeft - 64 := by
        simp [next, bytesLeftNext, hs, hg]
      rw [hnext]
      bv_omega
    have hup : (r.next i).realignUpper = r.realignLower := by simp [next, realignUpperNext, hs, hg]
    have hlow : (r.next i).realignLower = i.resp.data := by simp [next, realignLowerNext, hs, hg]
    have hheld : (r.next i).held = r.held.drop 64 ++ lineBytes i.resp.data := by
      rw [drop_held hrem, held, hrem', hup, hlow]
    -- one full line goes out, and the line that was taken stands behind the rest
    have hgiven : dataGiven r i ++ beats 64 (r.held.drop 64 ++ (axisBytes (i.resp :: t)).take k) =
        beats 64 (r.held ++ (axisBytes (i.resp :: t)).take k) := by
      have hlong : 64 < (r.held ++ (axisBytes (i.resp :: t)).take k).length := by
        rw [List.length_append, length_take_axisBytes hc, hlen]
        omega
      rw [beats_full (by decide) hlong, List.take_append_of_le_length (by omega),
        List.drop_append_of_le_length (by omega), dataGiven, if_pos hg, read_full hlast hrem]
      rfl
    cases hl : i.resp.last with
    | true =>
      obtain ⟨rfl, hk64⟩ := hc.of_last hl
      refine advances_of [] _ hh hne (by simp [hs]) (by simp [htakes]) hgiven
        fun h' hm => ?_
      refine .dataOutputLast (by simp [next, parseNext, hs, hg, hl]) hm rfl
        (by rw [hrem']; exact hrem) (by omega) (by rw [hrem', hleft, hb]; omega) ?_
      have hcut : r.bytesLeft.toNat - 64 = (r.held.drop 64).length + k := by
        rw [List.length_drop, hlen, hb]
        omega
      rw [hheld, hleft, hcut, List.take_length_add_append, axisBytes_cons, axisBytes_nil,
        List.append_nil]
    | false =>
      obtain ⟨hk64, hc'⟩ := hc.of_not_last hl
      refine advances_of t _ hh hne (by simp [hs]) (by simp [htakes]) hgiven
        fun h' hm => ?_
      refine .dataOutput (k - 64) (by simp [next, parseNext, hs, hl]) hm hc'
        (by rw [hrem']; exact hrem) (by rw [hrem', hleft, hb]; omega) ?_
      rw [hheld, take_axisBytes_cons (by omega), List.append_assoc]

theorem dataOutputLast_advances (hs : r.parseState = .dataOutputLast) (hh : HdrOwes r h)
    (hrem : r.hdrBytesRem.toNat ≤ 64) (h0 : 0 < r.bytesLeft.toNat)
    (hb : r.bytesLeft.toNat ≤ 128 - r.hdrBytesRem.toNat) :
    Advances r i [] tail h (beats 64 (r.held.take r.bytesLeft.toNat)) := by
  have hne : r.parseState ≠ .ready := by simp [hs]
  have htakes : r.takes i = false := by simp [takes, respRdy, hs]
  have hrem' : (r.next i).hdrBytesRem = r.hdrBytesRem := by simp [next, hdrBytesRemNext, hs]
  have hlen := length_held hrem
  have hcut : (r.held.take r.bytesLeft.toNat).length = r.bytesLeft.toNat := by
    rw [List.length_take]
    omega
  cases hr : i.dataRdy with
  | false =>
    have hg : r.gives i = false := by simp [gives, hr]
    have hleft : (r.next i).bytesLeft = r.bytesLeft := by simp [next, bytesLeftNext, hs, hr]
    have hup : (r.next i).realignUpper = r.realignUpper := by
      simp [next, realignUpperNext, goesAround, hs, hr]
    have hlow : (r.next i).realignLower = r.realignLower := by
      simp [next, realignLowerNext, goesAround, hs, hr]
    have hheld : (r.next i).held = r.held := by rw [held, held, hup, hlow, hrem']
    have hnone : dataGiven r i = [] := by simp [dataGiven, hg]
    refine advances_of [] _ hh hne (by simp [hs]) (by simp [htakes])
      (by rw [hnone, List.nil_append]) fun h' hm => ?_
    exact .dataOutputLast (by simp [next, parseNext, hs, hr]) hm rfl (by rw [hrem']; exact hrem)
      (by rw [hleft]; exact h0) (by rw [hrem', hleft]; exact hb) (by rw [hheld, hleft])
  | true =>
    have hg : r.gives i = true := by simp [gives, dataVal, hs, hr]
    by_cases hlong : 64 < r.bytesLeft.toNat
    · have hlast : r.dataLast = false := by simp [dataLast, hs, hlong]
      have hleft : (r.next i).bytesLeft.toNat = r.bytesLeft.toNat - 64 := by
        have hnext : (r.next i).bytesLeft = r.bytesLeft - 64 := by
          simp [next, bytesLeftNext, hs, hr, hlong]
        rw [hnext]
        bv_omega
      have hup : (r.next i).realignUpper = r.realignLower := by
        simp [next, realignUpperNext, goesAround, hs, hr, hlong]
      have hlow : (r.next i).realignLower = 0 := by
        simp [next, realignLowerNext, goesAround, hs, hr, hlong]
      have hheld : (r.next i).held = r.held.drop 64 ++ lineBytes (0 : Line) := by
        rw [drop_held hrem, held, hrem', hup, hlow]
      have hgiven : dataGiven r i ++ beats 64 ((r.held.drop 64).take (r.bytesLeft.toNat - 64)) =
          beats 64 (r.held.take r.bytesLeft.toNat) := by
        have hmore : 64 < (r.held.take r.bytesLeft.toNat).length := by rw [hcut]; exact hlong
        have hsplit := beats_full (by decide) hmore
        rw [hsplit, dataGiven, if_pos hg, read_full hlast hrem, List.take_take,
          Nat.min_eq_left (by omega), List.drop_take]
        rfl
      refine advances_of [] _ hh hne (by simp [hs]) (by simp [htakes]) hgiven
        fun h' hm => ?_
      refine .dataOutputLast (by simp [next, parseNext, hs, hr, hlong]) hm rfl
        (by rw [hrem']; exact hrem) (by omega) (by rw [hrem', hleft]; omega) ?_
      rw [hheld, hleft, List.take_append_of_le_length]
      rw [List.length_drop, hlen]
      omega
    · have hgiven : dataGiven r i ++ [] = beats 64 (r.held.take r.bytesLeft.toNat) := by
        rw [beats_last (by omega) (by omega), dataGiven, if_pos hg,
          read_last hs (by omega) h0 hrem, hcut]
        rfl
      refine advances_of [] _ hh hne (by simp [hs]) (by simp [htakes]) hgiven
        fun h' hm => ?_
      exact .waitTxFin (by simp [next, parseNext, hs, hr, hlong]) hm rfl rfl

theorem drain_advances (hs : r.parseState = .drain) (hm : r.hdrState = .waitTxFin)
    (hc : CarriesBytes cur k) (hx : i.respVal = true → ∃ t, cur ++ tail = i.resp :: t) :
    Advances r i cur tail [] [] := by
  have hne : r.parseState ≠ .ready := by simp [hs]
  have hgives : dataGiven r i = [] := by simp [dataGiven, gives, dataVal, hs]
  have hghdr : hdrGiven r i = [] := by simp [hdrGiven, givesHdr, hdrVal, hm]
  have hm' : (r.next i).hdrState = .waitTxFin := by simp [next, hdrNext, hm, hs]
  cases hv : i.respVal with
  | false =>
    have htakes : r.takes i = false := by simp [takes, hv]
    refine ⟨cur, [], [], by simp [htakes], by simp [hghdr], by simp [hgives], .inl ?_⟩
    exact .drain k (by simp [next, parseNext, hs, hv]) hm' rfl hc rfl
  | true =>
    have htakes : r.takes i = true := by simp [takes, respRdy, hs, hv]
    obtain ⟨t, rfl⟩ := line_next hc (hx hv)
    cases hl : i.resp.last with
    | true =>
      obtain ⟨rfl, -⟩ := hc.of_last hl
      refine ⟨[], [], [], by simp [htakes], by simp [hghdr], by simp [hgives], .inl ?_⟩
      exact .waitTxFin (by simp [next, parseNext, hs, hv, hl]) (.inr ⟨hm', rfl⟩) rfl rfl
    | false =>
      refine ⟨t, [], [], by simp [htakes], by simp [hghdr], by simp [hgives], .inl ?_⟩
      exact .drain (k - 64) (by simp [next, parseNext, hs, hl]) hm' rfl (hc.of_not_last hl).2 rfl

/-- The controller waits for the header machine, and then the two leave the segment. -/
theorem waitTxFin_next (hs : r.parseState = .dataWaitTxFin) (hh : HdrOwes r h) :
    (∃ h', hdrGiven r i ++ h' = h ∧ (r.next i).parseState = .dataWaitTxFin ∧
      HdrOwes (r.next i) h') ∨ hdrGiven r i = h ∧ Idle (r.next i) := by
  have hne : r.parseState ≠ .ready := by simp [hs]
  by_cases hfin : r.hdrState = .waitTxFin
  · have hnil : h = [] := by
      rcases hh with ⟨ho, -⟩ | ⟨-, hnil⟩
      · rw [hfin] at ho
        cases ho
      · exact hnil
    subst hnil
    refine .inr ⟨by simp [hdrGiven, givesHdr, hdrVal, hfin], ?_, ?_⟩
    · simp [next, parseNext, hs, hfin]
    · simp [next, hdrNext, hs, hfin]
  · obtain ⟨h', hh', hm⟩ := hh.step (i := i) hne fun hf => hfin hf.2
    exact .inl ⟨h', hh', by simp [next, parseNext, hs, hfin], hm⟩

theorem waitTxFin_advances (hs : r.parseState = .dataWaitTxFin) (hh : HdrOwes r h) :
    Advances r i [] tail h [] := by
  have htakes : r.takes i = false := by simp [takes, respRdy, hs]
  have hgives : dataGiven r i = [] := by simp [dataGiven, gives, dataVal, hs]
  rcases waitTxFin_next (i := i) hs hh with ⟨h', hh', hs', hm⟩ | ⟨hh', hidle⟩
  · exact ⟨[], h', [], by simp [htakes], hh', by simp [hgives], .inl (.waitTxFin hs' hm rfl rfl)⟩
  · exact ⟨[], [], [], by simp [htakes], by rw [hh', List.append_nil], by simp [hgives],
      .inr ⟨hidle, rfl, rfl, rfl⟩⟩

/-- One cycle in the middle of a segment. -/
theorem Phase.advances (hp : Phase r cur h d)
    (hx : i.respVal = true → ∃ t, cur ++ tail = i.resp :: t) : Advances r i cur tail h d := by
  cases hp with
  | hdrDrain k hs hh hc hrem hk hb hd =>
    subst hd
    exact hdrDrain_advances hs hh hc hrem hk hb hx
  | firstData k hs hh hc hrem hb hd =>
    subst hd
    exact firstData_advances hs hh hc hrem hb hx
  | dataOutput k hs hh hc hrem hb hd =>
    subst hd
    exact dataOutput_advances hs hh hc hrem hb hx
  | dataOutputLast hs hh hc hrem h0 hb hd =>
    subst hc hd
    exact dataOutputLast_advances hs hh hrem h0 hb
  | drain k hs hm hh hc hd =>
    subst hh hd
    exact drain_advances hs hm hc hx
  | waitTxFin hs hh hc hd =>
    subst hc hd
    exact waitTxFin_advances hs hh

end RxTcpOutput

end TcpHw
