import TcpHw.Frontend.EthFrameFormat
import TcpHw.Lib.Machines

/-!
# Frames in `eth_frame_format`

The formatter gives out for every frame the bytes behind its header, its type and its size, whatever
came before. The addresses are another matter: the register of the header is written whole by a plain
frame, and a tagged frame writes the type only. What the header port shows for a tagged frame are the
addresses of the last plain frame before it. The formatter strips a list of frames correctly exactly
if every tagged frame has just these addresses.
-/
namespace TcpHw

open Bytes Framing Machines Trace

set_option autoImplicit false

/-! ### The surroundings -/

/-- What the surroundings do in one cycle; `bus` is what the MAC drives when no line is valid. -/
structure EthFormatEnv where
  offer : Bool
  hdrRdy : Bool
  dataRdy : Bool
  bus : EthLine

namespace EthFormatEnv

/-- The MAC has the lines `src`. -/
def wires (e : EthFormatEnv) (src : List EthLine) : EthFormatWires where
  srcVal := e.offer && !src.isEmpty
  src := if e.offer then src.headD e.bus else e.bus
  hdrRdy := e.hdrRdy
  dataRdy := e.dataRdy

/-- Everything happens in every cycle. -/
def calm : EthFormatEnv := ⟨true, true, true, default⟩

def Given (e : EthFormatEnv) : OutputEvent → Prop
  | .line => e.offer = true
  | .data => e.offer = true ∧ e.dataRdy = true
  | .hdr => e.hdrRdy = true

variable {e : EthFormatEnv} {src : List EthLine}

theorem src_of_val (hv : (e.wires src).srcVal = true) : ∃ t, src = (e.wires src).src :: t := by
  obtain ⟨ho, hne⟩ := Bool.and_eq_true_iff.mp hv
  cases src with
  | nil => simp at hne
  | cons l t => exact ⟨t, by simp [wires, ho]⟩

theorem val_of_offer (ho : e.offer = true) (hne : src ≠ []) : (e.wires src).srcVal = true := by
  simp [wires, ho, hne]

theorem fair_calm : Fair Given fun _ => calm := by
  intro k n
  refine ⟨n, Nat.le_refl n, ?_⟩
  cases k <;> simp [Given, calm]

end EthFormatEnv

/-! ### What a frame tells of its header -/

/-- The addresses of a plain frame, the type and the size. -/
structure EthNews where
  addrs : Option (BitVec 48 × BitVec 48)
  ethType : BitVec 16
  dataSize : BitVec 14

/-- The header register after a frame. -/
def EthNews.hdr (n : EthNews) (kept : EthHdr) : EthHdr :=
  n.addrs.elim ⟨kept.dst, kept.src, n.ethType⟩ fun a => ⟨a.1, a.2, n.ethType⟩

/-- The header register after some frames. -/
def lastHdr (kept : EthHdr) (ns : List EthNews) : EthHdr := ns.foldl (fun k n => n.hdr k) kept

/-- What the header port gives out for some frames. -/
def shownHdrs (kept : EthHdr) : List EthNews → List EthFormatHdr
  | [] => []
  | n :: ns => ⟨n.hdr kept, n.dataSize⟩ :: shownHdrs (n.hdr kept) ns

theorem shownHdrs_append (kept : EthHdr) (ns : List EthNews) (n : EthNews) :
    shownHdrs kept (ns ++ [n]) = shownHdrs kept ns ++ [⟨n.hdr (lastHdr kept ns), n.dataSize⟩] := by
  induction ns generalizing kept with
  | nil => rfl
  | cons m ns ih =>
    rw [List.cons_append, shownHdrs, ih, shownHdrs]
    rfl

theorem length_shownHdrs (kept : EthHdr) (ns : List EthNews) :
    (shownHdrs kept ns).length = ns.length := by
  induction ns generalizing kept with
  | nil => rfl
  | cons n ns ih => rw [shownHdrs, List.length_cons, ih, List.length_cons]

theorem lastHdr_append (kept : EthHdr) (ns : List EthNews) (n : EthNews) :
    lastHdr kept (ns ++ [n]) = n.hdr (lastHdr kept ns) := by
  rw [lastHdr, List.foldl_append]
  rfl

theorem shownHdrs_isPrefix {kept : EthHdr} {ns ms : List EthNews} (h : ns <+: ms) :
    shownHdrs kept ns <+: shownHdrs kept ms := by
  obtain ⟨t, rfl⟩ := h
  induction ns generalizing kept with
  | nil => exact List.nil_prefix
  | cons n ns ih => exact List.cons_prefix_cons.mpr ⟨rfl, ih⟩

/-- What a frame tells of its header. -/
def EthFrame.news (x : EthFrame) : EthNews where
  addrs := if x.tagged then none else some (x.hdr.dst, x.hdr.src)
  ethType := x.hdr.ethType
  dataSize := BitVec.ofNat 14 (x.bytes.length - x.hdrLen)

/-- What the registers tell of the header of the frame in hand. -/
def EthFrameFormat.news (r : EthFrameFormat) : EthNews where
  addrs := if r.realignShift = 144 then none else some (r.ethHdr.dst, r.ethHdr.src)
  ethType := r.ethHdr.ethType
  dataSize := r.dataSize

/-! ### The phases of a frame -/

namespace EthFrameFormat

variable {r : EthFrameFormat} {i : EthFormatWires} {cur tail : List EthLine} {h : List EthNews}
  {d : List (Beat (BitVec 8))} {bs : List (BitVec 8)} {n : Nat}

/-- Between two frames. -/
def Idle (r : EthFrameFormat) : Prop := r.dataState = .ready ∧ r.hdrState = .waiting

/-- The header of the frame in hand is still owed, or was given out. -/
def HdrOwes (r : EthFrameFormat) (h : List EthNews) : Prop :=
  r.hdrState = .output ∧ h = [r.news] ∨ r.hdrState = .waitTxFin ∧ h = []

/-- Bytes of the header of the frame in hand. -/
def shiftBytes (r : EthFrameFormat) : Nat := r.realignShift.toNat / 8

/-- The shift is by whole bytes, and by less than a line. -/
structure Shifts (r : EthFrameFormat) : Prop where
  whole : r.realignShift.toNat = 8 * r.shiftBytes
  pos : 0 < r.shiftBytes
  lt : r.shiftBytes < 64

/-- The bytes of the two realign registers behind the header. -/
def held (r : EthFrameFormat) : List (BitVec 8) :=
  (lineBytes r.realignUpper).drop r.shiftBytes ++ lineBytes r.realignLower

/-- The lines `cur` of the frame in hand are still to come, and `h` and `d` are owed for it. At the
end `n` bytes are left; `bytes_left` tells their number only while there is another line. -/
inductive Phase (r : EthFrameFormat) (cur : List EthLine) (h : List EthNews)
    (d : List (Beat (BitVec 8))) : Prop
  | firstData (bs : List (BitVec 8)) (hs : r.dataState = .firstData) (hh : HdrOwes r h)
      (hc : Carries (cur.map EthLine.line) bs) (hk : Shifts r)
      (hd : d = beats 64 ((lineBytes r.realignUpper).drop r.shiftBytes ++ bs))
  | dataOutput (bs : List (BitVec 8)) (hs : r.dataState = .dataOutput) (hh : HdrOwes r h)
      (hc : Carries (cur.map EthLine.line) bs) (hk : Shifts r) (hd : d = beats 64 (r.held ++ bs))
  | dataOutputLast (n : Nat) (hs : r.dataState = .dataOutputLast) (hh : HdrOwes r h) (hc : cur = [])
      (hk : Shifts r) (h0 : 0 < n) (hn : n ≤ 128 - r.shiftBytes)
      (hpad : (r.shiftBytes + r.dataPadbytes.toNat + n) % 64 = 0)
      (hb : r.bytesLeft.toNat = n ∨ r.bytesLeft.toNat ≤ 64 ∧ n ≤ 64)
      (hd : d = beats 64 (r.held.take n))
  | waitTxFin (hs : r.dataState = .dataWaitTxFin) (hh : HdrOwes r h) (hc : cur = []) (hd : d = [])

/-- What is told of a header when it is given out. -/
def newsGiven (r : EthFrameFormat) (i : EthFormatWires) : List EthNews :=
  if r.givesHdr i then [r.news] else []

def hdrGiven (r : EthFrameFormat) (i : EthFormatWires) : List EthFormatHdr :=
  if r.givesHdr i then [r.hdrOut] else []

def dataGiven (r : EthFrameFormat) (i : EthFormatWires) : List (Beat (BitVec 8)) :=
  if r.gives i then [(r.dataOut).read] else []

/-- One cycle leaves the lines behind the frame alone and pays what is owed. It leaves the frame when
nothing is to come and nothing is owed. -/
def Advances (r : EthFrameFormat) (i : EthFormatWires) (cur tail : List EthLine)
    (h : List EthNews) (d : List (Beat (BitVec 8))) : Prop :=
  ∃ cur' h' d', (if r.takes i then (cur ++ tail).tail else cur ++ tail) = cur' ++ tail ∧
    newsGiven r i ++ h' = h ∧ dataGiven r i ++ d' = d ∧
    (Phase (r.next i) cur' h' d' ∨ Idle (r.next i) ∧ cur' = [] ∧ h' = [] ∧ d' = [])

/-! ### The header machine -/

theorem not_outputHdr (hne : r.dataState ≠ .ready) : r.outputHdr i = false := by
  simp [outputHdr, hne]

/-- The registers that only the first line of a frame writes. -/
theorem next_kept (hne : r.dataState ≠ .ready) : (r.next i).ethHdr = r.ethHdr ∧
    (r.next i).dataSize = r.dataSize ∧ (r.next i).realignShift = r.realignShift := by
  simp [next, ethHdrNext, dataSizeNext, realignShiftNext, not_outputHdr hne]

theorem news_next (hne : r.dataState ≠ .ready) : (r.next i).news = r.news := by
  obtain ⟨hhdr, hsize, hshift⟩ := next_kept (i := i) hne
  rw [news, news, hhdr, hsize, hshift]

theorem shiftBytes_next (hne : r.dataState ≠ .ready) : (r.next i).shiftBytes = r.shiftBytes := by
  rw [shiftBytes, shiftBytes, (next_kept hne).2.2]

theorem Shifts.step (hk : Shifts r) (hne : r.dataState ≠ .ready) : Shifts (r.next i) := by
  have hsb := shiftBytes_next (i := i) hne
  refine ⟨?_, by rw [hsb]; exact hk.pos, by rw [hsb]; exact hk.lt⟩
  rw [hsb, (next_kept hne).2.2]
  exact hk.whole

theorem HdrOwes.step (hh : HdrOwes r h) (hne : r.dataState ≠ .ready)
    (hfin : ¬ (r.dataState = .dataWaitTxFin ∧ r.hdrState = .waitTxFin)) :
    ∃ h', newsGiven r i ++ h' = h ∧ HdrOwes (r.next i) h' := by
  rcases hh with ⟨hs, rfl⟩ | ⟨hs, rfl⟩
  · cases hr : i.hdrRdy with
    | true =>
      refine ⟨[], by simp [newsGiven, givesHdr, hdrVal, hs, hr], .inr ⟨?_, rfl⟩⟩
      simp [next, hdrStateNext, hs, hr]
    | false =>
      refine ⟨[r.news], by simp [newsGiven, givesHdr, hr], .inl ⟨?_, ?_⟩⟩
      · simp [next, hdrStateNext, hs, hr]
      · rw [news_next hne]
  · have hw : r.dataState ≠ .dataWaitTxFin := fun hw => hfin ⟨hw, hs⟩
    refine ⟨[], by simp [newsGiven, givesHdr, hdrVal, hs], .inr ⟨?_, rfl⟩⟩
    simp [next, hdrStateNext, hs, hw]

/-- The data machine is in the middle of a frame. -/
theorem advances_of (cur' : List EthLine) (d' : List (Beat (BitVec 8))) (hh : HdrOwes r h)
    (hne : r.dataState ≠ .ready) (hw : r.dataState ≠ .dataWaitTxFin)
    (hcur : (if r.takes i then (cur ++ tail).tail else cur ++ tail) = cur' ++ tail)
    (hd : dataGiven r i ++ d' = d)
    (hph : ∀ h', HdrOwes (r.next i) h' → Phase (r.next i) cur' h' d') :
    Advances r i cur tail h d := by
  obtain ⟨h', hh', hm⟩ := hh.step (i := i) hne (fun hf => hw hf.1)
  exact ⟨cur', h', d', hcur, hh', hd, .inl (hph h' hm)⟩

/-- The next line of the frame is on the bus. -/
theorem line_next (hc : Carries (cur.map EthLine.line) bs) (hx : ∃ t, cur ++ tail = i.src :: t) :
    ∃ t, cur = i.src :: t := by
  refine first_of_append ?_ hx
  rintro rfl
  exact hc.ne_nil rfl

/-! ### The lines that are given out -/

theorem length_upper : ((lineBytes r.realignUpper).drop r.shiftBytes).length = 64 - r.shiftBytes := by
  rw [List.length_drop, length_lineBytes]

theorem length_held (hk : Shifts r) : r.held.length = 128 - r.shiftBytes := by
  have hlt := hk.lt
  rw [held, List.length_append, length_upper, length_lineBytes]
  omega

theorem lineBytes_dataOut (hk : Shifts r) : lineBytes r.dataOut.data = r.held.take 64 := by
  have hlt := hk.lt
  have hu : (lineBytes r.realignUpper).length = 64 := length_lineBytes _
  show lineBytes (upperShl r.realignUpper r.realignLower r.realignShift.toNat) = _
  rw [hk.whole, lineBytes_upperShl _ _ (Nat.le_of_lt hlt), held,
    List.drop_append_of_le_length (by omega)]

/-- What stays after a full line. -/
theorem drop_held (hk : Shifts r) :
    r.held.drop 64 = (lineBytes r.realignLower).drop r.shiftBytes := by
  have hlt := hk.lt
  have hu := length_upper (r := r)
  have hcut : 64 - (64 - r.shiftBytes) = r.shiftBytes := by omega
  rw [held, List.drop_append, hu, hcut, List.drop_of_length_le (by omega), List.nil_append]

/-- A line that is not the last one. -/
theorem read_full (hl : r.dataLast = false) (hk : Shifts r) :
    r.dataOut.read = ⟨r.held.take 64, false, 0⟩ := by
  have hlast : r.dataOut.last = false := hl
  rw [DataLine.read, readBeat, hlast, if_neg Bool.false_ne_true, lineBytes_dataOut hk]

theorem read_last (hs : r.dataState = .dataOutputLast) (hb : r.bytesLeft.toNat ≤ 64) (hk : Shifts r)
    (h0 : 0 < n) (hn : n ≤ 64) (hpad : (r.shiftBytes + r.dataPadbytes.toNat + n) % 64 = 0) :
    r.dataOut.read = ⟨r.held.take n, true, 64 - n⟩ := by
  have hlast : r.dataLast = true := by simp [dataLast, hs, hb]
  have hl : r.dataOut.last = true := hlast
  have hp : r.dataOut.padbytes = r.padbytesTemp := by simp [dataOut, hlast]
  have hval : r.padbytesTemp.toNat = 64 - n := by
    rw [padbytesTemp, BitVec.toNat_ofNat]
    show (r.shiftBytes + r.dataPadbytes.toNat) % 2 ^ 6 = 64 - n
    omega
  have hcut : 64 - (64 - n) = n := by omega
  rw [DataLine.read, readBeat, hl, if_pos rfl, hp, hval, hcut, lineBytes_dataOut hk, List.take_take,
    Nat.min_eq_left hn]

/-! ### The data machine -/

/-- `bytes_left` and the padding after the last line of a frame was taken behind another one. -/
theorem endsFrame_next (hne : r.dataState ≠ .ready) (he : r.endsFrame i = true) (hk : Shifts r) :
    (r.next i).dataPadbytes = i.src.line.padbytes ∧
      (r.next i).bytesLeft.toNat = 128 - r.shiftBytes - i.src.line.padbytes.toNat := by
  have hnot := not_outputHdr (i := i) hne
  have hpos := hk.pos
  have hlt := hk.lt
  have hpad := i.src.line.padbytes.isLt
  refine ⟨by simp [next, dataPadbytesNext, hnot, he], ?_⟩
  have hnext : (r.next i).bytesLeft =
      64 - (r.realignShift >>> 3).setWidth 7 + 64 - i.src.line.padbytes.setWidth 7 := by
    simp [next, bytesLeftNext, realignShiftNext, hnot, he]
  have hshift : ((r.realignShift >>> 3).setWidth 7).toNat = r.shiftBytes := by
    rw [BitVec.toNat_setWidth, BitVec.toNat_ushiftRight, Nat.shiftRight_eq_div_pow]
    exact Nat.mod_eq_of_lt (Nat.lt_trans hlt (by decide))
  have hwide : (i.src.line.padbytes.setWidth 7).toNat = i.src.line.padbytes.toNat := by
    rw [BitVec.toNat_setWidth]
    omega
  rw [hnext, BitVec.toNat_sub, BitVec.toNat_add, BitVec.toNat_sub, hshift, hwide]
  show (2 ^ 7 - i.src.line.padbytes.toNat + ((2 ^ 7 - r.shiftBytes + 64) % 2 ^ 7 + 64) % 2 ^ 7) %
    2 ^ 7 = _
  omega

/-- The last line was taken behind another one, and the registers hold what is left. -/
theorem phase_last {pre : List (BitVec 8)} (hs : (r.next i).dataState = .dataOutputLast)
    (hne : r.dataState ≠ .ready) (he : r.endsFrame i = true) (hh : HdrOwes (r.next i) h)
    (hk : Shifts r) (h0 : 0 < bs.length) (hle : bs.length ≤ 64)
    (hpad : i.src.line.padbytes.toNat = 64 - bs.length)
    (hbytes : (lineBytes i.src.line.data).take bs.length = bs)
    (hpre : pre.length = 64 - r.shiftBytes)
    (hheld : (r.next i).held = pre ++ lineBytes i.src.line.data) :
    Phase (r.next i) [] h (beats 64 (pre ++ bs)) := by
  have hlt := hk.lt
  obtain ⟨hp, hb⟩ := endsFrame_next hne he hk
  have hsb := shiftBytes_next (i := i) hne
  refine .dataOutputLast (pre.length + bs.length) hs hh rfl (hk.step hne) (by omega)
    (by rw [hsb]; omega) (by rw [hsb, hp, hpad]; omega) (.inl (by rw [hb, hpad]; omega)) ?_
  rw [hheld, List.take_length_add_append, hbytes]

theorem firstData_advances (hs : r.dataState = .firstData) (hh : HdrOwes r h)
    (hc : Carries (cur.map EthLine.line) bs) (hk : Shifts r)
    (hx : i.srcVal = true → ∃ t, cur ++ tail = i.src :: t) :
    Advances r i cur tail h
      (beats 64 ((lineBytes r.realignUpper).drop r.shiftBytes ++ bs)) := by
  have hne : r.dataState ≠ .ready := by simp [hs]
  have hgives : dataGiven r i = [] := by simp [dataGiven, gives, dataVal, hs]
  have hsb := shiftBytes_next (i := i) hne
  have hup : (r.next i).realignUpper = r.realignUpper := by simp [next, realignUpperNext, hs]
  cases hv : i.srcVal with
  | false =>
    have htakes : r.takes i = false := by simp [takes, hv]
    refine advances_of cur _ hh hne (by simp [hs]) (by simp [htakes])
      (by rw [hgives, List.nil_append]) fun h' hm => ?_
    exact .firstData bs (by simp [next, dataStateNext, hs, hv]) hm hc (hk.step hne)
      (by rw [hsb, hup])
  | true =>
    have htakes : r.takes i = true := by simp [takes, srcRdy, hs, hv]
    obtain ⟨t, rfl⟩ := line_next hc (hx hv)
    have hlow : (r.next i).realignLower = i.src.line.data := by
      simp [next, realignLowerNext, hs, hv]
    have hheld : (r.next i).held =
        (lineBytes r.realignUpper).drop r.shiftBytes ++ lineBytes i.src.line.data := by
      rw [held, hup, hlow, hsb]
    rcases Carries.cons hc with ⟨hle, ht, hlast, hpad, hbytes⟩ | ⟨hlong, hc', hlast, hbytes⟩
    · have hnil : t = [] := List.map_eq_nil_iff.mp ht
      subst hnil
      refine advances_of [] _ hh hne (by simp [hs]) (by simp [htakes])
        (by rw [hgives, List.nil_append]) fun h' hm => ?_
      exact phase_last (by simp [next, dataStateNext, hs, hv, hlast]) hne
        (by simp [endsFrame, hs, hv, hlast]) hm hk hc.1 hle hpad hbytes length_upper hheld
    · refine advances_of t _ hh hne (by simp [hs]) (by simp [htakes])
        (by rw [hgives, List.nil_append]) fun h' hm => ?_
      refine .dataOutput (bs.drop 64) (by simp [next, dataStateNext, hs, hv, hlast]) hm hc'
        (hk.step hne) ?_
      rw [hheld, hbytes, List.append_assoc, List.take_append_drop]

theorem dataOutput_advances (hs : r.dataState = .dataOutput) (hh : HdrOwes r h)
    (hc : Carries (cur.map EthLine.line) bs) (hk : Shifts r)
    (hx : i.srcVal = true → ∃ t, cur ++ tail = i.src :: t) :
    Advances r i cur tail h (beats 64 (r.held ++ bs)) := by
  have hne : r.dataState ≠ .ready := by simp [hs]
  have hsb := shiftBytes_next (i := i) hne
  cases hg : r.gives i with
  | false =>
    have htakes : r.takes i = false := by
      have hg' : (i.srcVal && i.dataRdy) = false := by simpa [gives, dataVal, hs] using hg
      simpa [takes, srcRdy, hs] using hg'
    have hup : (r.next i).realignUpper = r.realignUpper := by simp [next, realignUpperNext, hs, hg]
    have hlow : (r.next i).realignLower = r.realignLower := by simp [next, realignLowerNext, hs, hg]
    have hheld : (r.next i).held = r.held := by rw [held, held, hup, hlow, hsb]
    have hnone : dataGiven r i = [] := by simp [dataGiven, hg]
    refine advances_of cur _ hh hne (by simp [hs]) (by simp [htakes])
      (by rw [hnone, List.nil_append]) fun h' hm => ?_
    exact .dataOutput bs (by simp [next, dataStateNext, hs, hg]) hm hc (hk.step hne) (by rw [hheld])
  | true =>
    obtain ⟨hval, hrdy⟩ := Bool.and_eq_true_iff.mp hg
    have hv : i.srcVal = true := by simpa [dataVal, hs] using hval
    have htakes : r.takes i = true := by simp [takes, srcRdy, hs, hv, hrdy]
    obtain ⟨t, rfl⟩ := line_next hc (hx hv)
    have hlt := hk.lt
    have hlen := length_held hk
    have h0 := hc.1
    have hup : (r.next i).realignUpper = r.realignLower := by simp [next, realignUpperNext, hs, hg]
    have hlow : (r.next i).realignLower = i.src.line.data := by
      simp [next, realignLowerNext, hs, hg]
    have hheld : (r.next i).held = r.held.drop 64 ++ lineBytes i.src.line.data := by
      rw [drop_held hk, held, hsb, hup, hlow]
    -- one full line goes out, and the line that was taken stands behind the rest
    have hgiven : dataGiven r i ++ beats 64 (r.held.drop 64 ++ bs) = beats 64 (r.held ++ bs) := by
      have hlast : r.dataLast = false := by simp [dataLast, hs]
      have hlong : 64 < (r.held ++ bs).length := by
        rw [List.length_append, hlen]
        omega
      rw [beats_full (by decide) hlong, List.take_append_of_le_length (by omega),
        List.drop_append_of_le_length (by omega), dataGiven, if_pos hg, read_full hlast hk]
      rfl
    rcases Carries.cons hc with ⟨hle, ht, hlast, hpad, hbytes⟩ | ⟨hlong, hc', hlast, hbytes⟩
    · have hnil : t = [] := List.map_eq_nil_iff.mp ht
      subst hnil
      refine advances_of [] _ hh hne (by simp [hs]) (by simp [htakes]) hgiven fun h' hm => ?_
      exact phase_last (by simp [next, dataStateNext, hs, hg, hlast]) hne
        (by simp [endsFrame, hs, hg, hlast]) hm hk h0 hle hpad hbytes
        (by rw [List.length_drop, hlen]; omega) hheld
    · refine advances_of t _ hh hne (by simp [hs]) (by simp [htakes]) hgiven fun h' hm => ?_
      refine .dataOutput (bs.drop 64) (by simp [next, dataStateNext, hs, hlast]) hm hc'
        (hk.step hne) ?_
      rw [hheld, hbytes, List.append_assoc, List.take_append_drop]

theorem dataOutputLast_advances (hs : r.dataState = .dataOutputLast) (hh : HdrOwes r h)
    (hk : Shifts r) (h0 : 0 < n) (hn : n ≤ 128 - r.shiftBytes)
    (hpad : (r.shiftBytes + r.dataPadbytes.toNat + n) % 64 = 0)
    (hb : r.bytesLeft.toNat = n ∨ r.bytesLeft.toNat ≤ 64 ∧ n ≤ 64) :
    Advances r i [] tail h (beats 64 (r.held.take n)) := by
  have hne : r.dataState ≠ .ready := by simp [hs]
  have hnot := not_outputHdr (i := i) hne
  have hend : r.endsFrame i = false := by simp [endsFrame, hs]
  have htakes : r.takes i = false := by simp [takes, srcRdy, hs]
  have hsb := shiftBytes_next (i := i) hne
  have hp : (r.next i).dataPadbytes = r.dataPadbytes := by simp [next, dataPadbytesNext, hnot, hend]
  have hlen := length_held hk
  have hcut : (r.held.take n).length = n := by
    rw [List.length_take]
    omega
  cases hr : i.dataRdy with
  | false =>
    have haround : r.goesAround i = false := by simp [goesAround, hr]
    have hleft : (r.next i).bytesLeft = r.bytesLeft := by
      simp [next, bytesLeftNext, hnot, hend, haround]
    have hheld : (r.next i).held = r.held := by
      have hup : (r.next i).realignUpper = r.realignUpper := by
        simp [next, realignUpperNext, hs, haround]
      have hlow : (r.next i).realignLower = r.realignLower := by
        simp [next, realignLowerNext, hs, haround]
      rw [held, held, hup, hlow, hsb]
    have hnone : dataGiven r i = [] := by simp [dataGiven, gives, hr]
    refine advances_of [] _ hh hne (by simp [hs]) (by simp [htakes])
      (by rw [hnone, List.nil_append]) fun h' hm => ?_
    exact .dataOutputLast n (by simp [next, dataStateNext, hs, hr]) hm rfl (hk.step hne) h0
      (by rw [hsb]; exact hn) (by rw [hsb, hp]; exact hpad) (by rw [hleft]; exact hb) (by rw [hheld])
  | true =>
    have hg : r.gives i = true := by simp [gives, dataVal, hs, hr]
    by_cases hlong : 64 < r.bytesLeft.toNat
    · have hbn : r.bytesLeft.toNat = n := by
        rcases hb with hb | ⟨hle, -⟩
        · exact hb
        · exact absurd hlong (Nat.not_lt.mpr hle)
      have haround : r.goesAround i = true := by simp [goesAround, hs, hr, hlong]
      have hleft : (r.next i).bytesLeft.toNat = n - 64 := by
        have hnext : (r.next i).bytesLeft = r.bytesLeft - 64 := by
          simp [next, bytesLeftNext, hnot, hend, haround]
        rw [hnext]
        bv_omega
      have hheld : (r.next i).held = r.held.drop 64 ++ lineBytes (0 : Line) := by
        have hup : (r.next i).realignUpper = r.realignLower := by
          simp [next, realignUpperNext, hs, haround]
        have hlow : (r.next i).realignLower = 0 := by simp [next, realignLowerNext, hs, haround]
        rw [drop_held hk, held, hsb, hup, hlow]
      have hgiven : dataGiven r i ++ beats 64 ((r.held.drop 64).take (n - 64)) =
          beats 64 (r.held.take n) := by
        have hlast : r.dataLast = false := by simp [dataLast, hs, hlong]
        have hmore : 64 < (r.held.take n).length := by omega
        rw [beats_full (by decide) hmore, dataGiven, if_pos hg, read_full hlast hk, List.take_take,
          Nat.min_eq_left (by omega), List.drop_take]
        rfl
      refine advances_of [] _ hh hne (by simp [hs]) (by simp [htakes]) hgiven fun h' hm => ?_
      refine .dataOutputLast (n - 64) (by simp [next, dataStateNext, hs, hr, hlong]) hm rfl
        (hk.step hne) (by omega) (by rw [hsb]; omega) (by rw [hsb, hp]; omega) (.inl hleft) ?_
      rw [hheld, List.take_append_of_le_length]
      rw [List.length_drop, hlen]
      omega
    · have hgiven : dataGiven r i ++ [] = beats 64 (r.held.take n) := by
        rw [beats_last (by omega) (by omega), dataGiven, if_pos hg,
          read_last hs (by omega) hk h0 (by omega) hpad, hcut]
        rfl
      refine advances_of [] _ hh hne (by simp [hs]) (by simp [htakes]) hgiven fun h' hm => ?_
      exact .waitTxFin (by simp [next, dataStateNext, hs, hr, hlong]) hm rfl rfl

theorem waitTxFin_advances (hs : r.dataState = .dataWaitTxFin) (hh : HdrOwes r h) :
    Advances r i [] tail h [] := by
  have hne : r.dataState ≠ .ready := by simp [hs]
  have htakes : r.takes i = false := by simp [takes, srcRdy, hs]
  have hgives : dataGiven r i = [] := by simp [dataGiven, gives, dataVal, hs]
  by_cases hfin : r.hdrState = .waitTxFin
  · have hnil : h = [] := by
      rcases hh with ⟨ho, -⟩ | ⟨-, hnil⟩
      · rw [hfin] at ho
        cases ho
      · exact hnil
    subst hnil
    refine ⟨[], [], [], by simp [htakes], by simp [newsGiven, givesHdr, hdrVal, hfin],
      by simp [hgives], .inr ⟨⟨?_, ?_⟩, rfl, rfl, rfl⟩⟩
    · simp [next, dataStateNext, hs, hfin]
    · simp [next, hdrStateNext, hs, hfin]
  · obtain ⟨h', hh', hm⟩ := hh.step (i := i) hne fun hf => hfin hf.2
    refine ⟨[], h', [], by simp [htakes], hh', by simp [hgives], .inl ?_⟩
    exact .waitTxFin (by simp [next, dataStateNext, hs, hfin]) hm rfl rfl

/-- One cycle in the middle of a frame. -/
theorem Phase.advances (hp : Phase r cur h d)
    (hx : i.srcVal = true → ∃ t, cur ++ tail = i.src :: t) : Advances r i cur tail h d := by
  cases hp with
  | firstData bs hs hh hc hk hd =>
    subst hd
    exact firstData_advances hs hh hc hk hx
  | dataOutput bs hs hh hc hk hd =>
    subst hd
    exact dataOutput_advances hs hh hc hk hx
  | dataOutputLast n hs hh hc hk h0 hn hpad hb hd =>
    subst hc hd
    exact dataOutputLast_advances hs hh hk h0 hn hpad hb
  | waitTxFin hs hh hc hd =>
    subst hc hd
    exact waitTxFin_advances hs hh

/-! ### The first line -/

variable {x : EthFrame}

/-- The registers after the first line of a frame. -/
theorem begins_regs (hr : r.Idle) (hv : i.srcVal = true) (hl : i.src = x.head) :
    HdrOwes (r.next i) [x.news] ∧ Shifts (r.next i) ∧ (r.next i).shiftBytes = x.hdrLen ∧
      (r.next i).realignUpper = x.head.line.data := by
  obtain ⟨hs, hm⟩ := hr
  have hout : r.outputHdr i = true := by simp [outputHdr, hs, hv]
  have hshift : (r.next i).realignShift = if x.tagged then 144 else 112 := by
    show r.realignShiftNext i = _
    rw [realignShiftNext, if_pos hout, hl]
    rfl
  have hsb : (r.next i).shiftBytes = x.hdrLen := by
    rw [shiftBytes, hshift, EthFrame.hdrLen, ethHdrBytes, EthFrame.tagged]
    split <;> rfl
  have hfit : x.hdrLen ≤ x.bytes.length := Nat.le_of_lt x.behind
  have hsize : (r.next i).dataSize = BitVec.ofNat 14 (x.bytes.length - x.hdrLen) := by
    have hnext : (r.next i).dataSize = x.head.frameSize - BitVec.ofNat 14 x.hdrLen := by
      simp only [next, dataSizeNext, hout, hl, if_true, EthFrame.hdrLen, ethHdrBytes]
      split <;> rfl
    have hlt := x.length_bytes_lt
    apply BitVec.eq_of_toNat_eq
    rw [hnext, BitVec.toNat_sub, BitVec.toNat_ofNat, BitVec.toNat_ofNat, x.frameSize]
    omega
  have hnews : (r.next i).news = x.news := by
    have hhdr : (r.next i).ethHdr = if x.tagged then
        { r.ethHdr with ethType := (ethHdrVlanCast x.head.line.data).ethType }
        else ethHdrCast x.head.line.data := by
      show r.ethHdrNext i = _
      rw [ethHdrNext, if_pos hout, hl]
      rfl
    rw [news, EthFrame.news, hshift, hsize, hhdr, EthFrame.hdr]
    cases x.tagged <;> simp
  refine ⟨.inl ⟨?_, by rw [hnews]⟩, ⟨?_, ?_, ?_⟩, hsb, ?_⟩
  · simp [next, hdrStateNext, hm, hout]
  · rw [hsb, hshift, EthFrame.hdrLen, ethHdrBytes, EthFrame.tagged]
    split <;> rfl
  · rw [hsb, EthFrame.hdrLen, ethHdrBytes]
    split <;> decide
  · have hle := x.hdrLen_le
    omega
  · simp [next, realignUpperNext, hs, hv, hl]

/-- The formatter has taken the first line of the frame. -/
theorem begins_phase (hr : r.Idle) (hv : i.srcVal = true) (hl : i.src = x.head) :
    (r.next i).Phase x.tail [x.news] (beats 64 x.payload) := by
  obtain ⟨hh, hk, hsb, hup⟩ := begins_regs hr hv hl
  have hs := hr.1
  have hsome : x.hdrLen < x.bytes.length := x.behind
  have hle := x.hdrLen_le
  rcases Carries.cons x.carries with ⟨hshort, ht, hlast, hpad, hbytes⟩ | ⟨hlong, hc, hlast, hbytes⟩
  · have hnil : x.tail = [] := List.map_eq_nil_iff.mp ht
    have hend : (r.next i).dataPadbytes = x.head.line.padbytes := by
      simp [next, dataPadbytesNext, outputHdr, hs, hv, hl, hlast]
    have hleft : (r.next i).bytesLeft.toNat ≤ 64 := by
      have hnext : (r.next i).bytesLeft = 64 - ((r.next i).realignShift >>> 3).setWidth 7 := by
        simp [next, bytesLeftNext, outputHdr, hs, hv, hl, hlast]
      have hshift : (((r.next i).realignShift >>> 3).setWidth 7).toNat = x.hdrLen := by
        rw [BitVec.toNat_setWidth, BitVec.toNat_ushiftRight, Nat.shiftRight_eq_div_pow]
        show (r.next i).shiftBytes % 2 ^ 7 = _
        rw [hsb]
        omega
      rw [hnext, BitVec.toNat_sub, hshift]
      show (2 ^ 7 - x.hdrLen + 64) % 2 ^ 7 ≤ 64
      omega
    rw [hnil]
    refine .dataOutputLast (x.bytes.length - x.hdrLen) ?_ hh rfl hk (by omega) (by omega)
      (by rw [hsb, hend, hpad]; omega) (.inr ⟨hleft, by omega⟩) ?_
    · simp [next, dataStateNext, hs, hv, hl, hlast]
    · have hall : x.payload = ((lineBytes x.head.line.data).take x.bytes.length).drop x.hdrLen := by
        rw [hbytes]
        rfl
      rw [hall, held, hup, hsb, List.drop_take, List.take_append_of_le_length]
      rw [List.length_drop, length_lineBytes]
      omega
  · refine .firstData (x.bytes.drop 64) (by simp [next, dataStateNext, hs, hv, hl, hlast]) hh hc hk ?_
    have hall : x.payload = (x.bytes.take 64 ++ x.bytes.drop 64).drop x.hdrLen := by
      rw [List.take_append_drop]
      rfl
    rw [hall, hup, hsb, hbytes, List.drop_append_of_le_length]
    rw [List.length_take]
    omega

/-! ### The formatter handles frames -/

def awaits (r : EthFrameFormat) : OutputEvent :=
  match r.dataState with
  | .ready | .firstData => .line
  | .dataOutput | .dataOutputLast => .data
  | .dataWaitTxFin => .hdr

def phases : LinePhases EthFrameFormat EthLine EthNews (Beat (BitVec 8)) OutputEvent where
  idle := Idle
  inside := Phase
  busy r := r.dataState != .ready
  awaits := awaits

/-- The formatter, with what is told of a header in place of the header. -/
def newsLines :
    LineMachine EthFrameFormat EthLine EthFormatWires EthFormatEnv EthNews (Beat (BitVec 8)) where
  wires := EthFormatEnv.wires
  next := next
  takes := takes
  hdrGiven := newsGiven
  dataGiven := dataGiven

def frameNews : LineKind EthFrame EthLine EthNews (Beat (BitVec 8)) where
  lines := EthFrame.lines
  hdrs x := [x.news]
  data x := beats 64 x.payload

theorem Phase.not_ready (hp : r.Phase cur h d) : r.dataState ≠ .ready := by
  cases hp with
  | firstData _ hs | dataOutput _ hs | dataOutputLast _ hs | waitTxFin hs =>
    rw [hs]
    decide

/-- Where nothing moves, the data machine stays in its state. -/
theorem awaits_still (hm : newsLines.moves phases r i = false) : (r.next i).awaits = r.awaits := by
  obtain ⟨⟨⟨ht, -⟩, hg⟩, hl⟩ : ((r.takes i = false ∧ r.newsGiven i = []) ∧ r.dataGiven i = []) ∧
      (r.dataState ≠ .ready → (r.next i).dataState ≠ .ready) := by
    simpa [LineMachine.moves, newsLines, phases] using hm
  have hgives : r.gives i = false := by simpa [dataGiven] using hg
  have hst : (r.next i).dataState = r.dataState := by
    show r.dataStateNext i = _
    cases hst : r.dataState with
    | ready | firstData =>
      have hv : i.srcVal = false := by simpa [takes, srcRdy, hst] using ht
      simp [dataStateNext, hst, hv]
    | dataOutput => simp [dataStateNext, hst, hgives]
    | dataOutputLast =>
      have hr : i.dataRdy = false := by simpa [gives, dataVal, hst] using hgives
      simp [dataStateNext, hst, hr]
    | dataWaitTxFin =>
      have hh : r.hdrState ≠ .waitTxFin := by
        intro hh
        exact hl (by simp [hst]) (by simp [next, dataStateNext, hst, hh])
      simp [dataStateNext, hst, hh]
  rw [awaits, hst]
  rfl

/-- Inside a frame something moves when the awaited event comes. -/
theorem Phase.stirs {e : EthFormatEnv} (hp : r.Phase cur h d) (hg : e.Given r.awaits) :
    newsLines.moves phases r (e.wires (cur ++ tail)) = true := by
  have htakes : ∀ {bs}, e.offer = true → Carries (cur.map EthLine.line) bs →
      r.srcRdy (e.wires (cur ++ tail)) = true →
      newsLines.moves phases r (e.wires (cur ++ tail)) = true := by
    intro bs ho hc hr
    have hne : cur ++ tail ≠ [] := by
      intro hnil
      apply hc.ne_nil
      rw [(List.append_eq_nil_iff.mp hnil).1]
      rfl
    have ht : newsLines.takes r (e.wires (cur ++ tail)) = true := by
      show ((e.wires (cur ++ tail)).srcVal && r.srcRdy (e.wires (cur ++ tail))) = true
      rw [EthFormatEnv.val_of_offer ho hne, hr]
      rfl
    rw [LineMachine.moves, ht]
    rfl
  cases hp with
  | firstData bs hst _ hc =>
    have ho : e.offer = true := by simpa [awaits, hst, EthFormatEnv.Given] using hg
    exact htakes ho hc (by simp [srcRdy, hst])
  | dataOutput bs hst _ hc =>
    obtain ⟨ho, hr⟩ : e.offer = true ∧ e.dataRdy = true := by
      simpa [awaits, hst, EthFormatEnv.Given] using hg
    exact htakes ho hc (by simp [srcRdy, hst, EthFormatEnv.wires, hr])
  | dataOutputLast n hst =>
    obtain ⟨-, hr⟩ : e.offer = true ∧ e.dataRdy = true := by
      simpa [awaits, hst, EthFormatEnv.Given] using hg
    simp [LineMachine.moves, newsLines, dataGiven, gives, dataVal, hst, EthFormatEnv.wires, hr]
  | waitTxFin hst hm =>
    have hr : e.hdrRdy = true := by simpa [awaits, hst, EthFormatEnv.Given] using hg
    rcases hm with ⟨ho, -⟩ | ⟨hw, -⟩
    · simp [LineMachine.moves, newsLines, newsGiven, givesHdr, hdrVal, ho, EthFormatEnv.wires, hr]
    · simp [LineMachine.moves, newsLines, phases, next, dataStateNext, hst, hw]

theorem idle_still (hr : r.Idle) (ht : r.takes i = false) : (r.next i).Idle := by
  obtain ⟨hs, hm⟩ := hr
  have hv : i.srcVal = false := by simpa [takes, srcRdy, hs] using ht
  refine ⟨?_, ?_⟩
  · simp [next, dataStateNext, hs, hv]
  · simp [next, hdrStateNext, hm, outputHdr, hv]

theorem handles : LineHandles newsLines frameNews phases EthFormatEnv.Given fun _ => True where
  lines_ne x := List.cons_ne_nil _ _
  idle_busy r hr := by simp [phases, hr.1]
  inside_busy r cur h d hp := by simp [phases, hp.not_ready]
  takes_ne r e src ht := by
    obtain ⟨t, ht⟩ := EthFormatEnv.src_of_val (Bool.and_eq_true_iff.mp ht).1
    rw [ht]
    exact List.cons_ne_nil _ _
  idle_gives r i hr := by
    refine ⟨?_, ?_⟩
    · simp [newsLines, newsGiven, givesHdr, hdrVal, hr.2]
    · simp [newsLines, dataGiven, gives, dataVal, hr.1]
  idle_still r e src hr ht := idle_still hr ht
  idle_stirs r e src hr hne hg := by
    have ho : e.offer = true := by simpa [phases, awaits, hr.1, EthFormatEnv.Given] using hg
    show ((e.wires src).srcVal && r.srcRdy (e.wires src)) = true
    rw [EthFormatEnv.val_of_offer ho hne, srcRdy, hr.1]
    rfl
  begins x tail r e _ hr ht := by
    have hv : (e.wires (x.lines ++ tail)).srcVal = true := (Bool.and_eq_true_iff.mp ht).1
    obtain ⟨t, hsrc⟩ := EthFormatEnv.src_of_val hv
    have hl : (e.wires (x.lines ++ tail)).src = x.head := by
      rw [EthFrame.lines, List.cons_append, List.cons.injEq] at hsrc
      exact hsrc.1.symm
    exact begins_phase hr hv hl
  advances r cur h d e tail hp := hp.advances fun hv => EthFormatEnv.src_of_val hv
  stirs r cur h d e tail hp hg := hp.stirs hg
  awaits_still r i hm := awaits_still hm

end EthFrameFormat

/-! ### The header register -/

namespace EthFrameFormat

variable {r : EthFrameFormat} {i : EthFormatWires} {kept : EthHdr} {ns : List EthNews}

/-- The register holds the last header of the frames `ns`, or the one behind them, which is on the
port. -/
def HdrAfter (r : EthFrameFormat) (kept : EthHdr) (ns : List EthNews) : Prop :=
  r.ethHdr = if r.hdrState = .output then r.news.hdr (lastHdr kept ns) else lastHdr kept ns

/-- The register after the first line of a frame. -/
theorem ethHdr_begins (ho : r.outputHdr i = true) :
    (r.next i).ethHdr = (r.next i).news.hdr r.ethHdr := by
  have hhdr : (r.next i).ethHdr = r.ethHdrNext i := rfl
  have hshift : (r.next i).realignShift = r.realignShiftNext i := rfl
  rw [news, hhdr, hshift, ethHdrNext, realignShiftNext, if_pos ho, if_pos ho]
  cases isVlan i.src.line.data <;> rfl

/-- A frame is begun only when the header machine has left the one before. -/
theorem ready_waiting (hi : r.dataState = .ready → r.hdrState = .waiting)
    (h : (r.next i).dataState = .ready) : (r.next i).hdrState = .waiting := by
  have hst : r.dataStateNext i = .ready := h
  cases hs : r.dataState with
  | ready =>
    have hv : i.srcVal = false := by
      cases hv : i.srcVal with
      | false => rfl
      | true => cases hl : i.src.line.last <;> simp [dataStateNext, hs, hv, hl] at hst
    simp [next, hdrStateNext, hi hs, outputHdr, hv]
  | dataWaitTxFin =>
    have hw : r.hdrState = .waitTxFin := by
      apply Decidable.of_not_not
      intro hw
      simp [dataStateNext, hs, hw] at hst
    simp [next, hdrStateNext, hw, hs]
  | firstData | dataOutput | dataOutputLast =>
    simp only [dataStateNext, hs] at hst
    split at hst <;> try split at hst
    all_goals cases hst

theorem HdrAfter.waiting (hreg : r.HdrAfter kept ns) (hm : r.hdrState = .waiting) :
    (r.next i).HdrAfter kept (ns ++ r.newsGiven i) := by
  have hnone : r.newsGiven i = [] := by simp [newsGiven, givesHdr, hdrVal, hm]
  rw [HdrAfter, hm, if_neg (by decide)] at hreg
  rw [HdrAfter, hnone, List.append_nil, ← hreg]
  cases ho : r.outputHdr i with
  | true =>
    have hst : (r.next i).hdrState = .output := by simp [next, hdrStateNext, hm, ho]
    rw [if_pos hst]
    exact ethHdr_begins ho
  | false =>
    have hst : (r.next i).hdrState = .waiting := by simp [next, hdrStateNext, hm, ho]
    rw [hst, if_neg (by decide)]
    simp [next, ethHdrNext, ho]

theorem HdrAfter.output (hreg : r.HdrAfter kept ns) (hm : r.hdrState = .output)
    (hne : r.dataState ≠ .ready) : (r.next i).HdrAfter kept (ns ++ r.newsGiven i) := by
  rw [HdrAfter, if_pos hm] at hreg
  rw [HdrAfter, news_next hne, (next_kept hne).1]
  cases hr : i.hdrRdy with
  | true =>
    have hg : r.newsGiven i = [r.news] := by simp [newsGiven, givesHdr, hdrVal, hm, hr]
    have hst : (r.next i).hdrState = .waitTxFin := by simp [next, hdrStateNext, hm, hr]
    rw [hst, if_neg (by decide), hg, lastHdr_append]
    exact hreg
  | false =>
    have hg : r.newsGiven i = [] := by simp [newsGiven, givesHdr, hr]
    have hst : (r.next i).hdrState = .output := by simp [next, hdrStateNext, hm, hr]
    rw [if_pos hst, hg, List.append_nil]
    exact hreg

theorem HdrAfter.waitTxFin (hreg : r.HdrAfter kept ns) (hm : r.hdrState = .waitTxFin)
    (hne : r.dataState ≠ .ready) : (r.next i).HdrAfter kept (ns ++ r.newsGiven i) := by
  have hnone : r.newsGiven i = [] := by simp [newsGiven, givesHdr, hdrVal, hm]
  have hst : (r.next i).hdrState ≠ .output := by
    simp only [next, hdrStateNext, hm]
    split <;> decide
  rw [HdrAfter, hm, if_neg (by decide)] at hreg
  rw [HdrAfter, if_neg hst, hnone, List.append_nil, (next_kept hne).1]
  exact hreg

/-- The header machine moves on, and the register follows. -/
theorem HdrAfter.step (hreg : r.HdrAfter kept ns)
    (hi : r.dataState = .ready → r.hdrState = .waiting) :
    (r.next i).HdrAfter kept (ns ++ r.newsGiven i) := by
  have hbusy : r.hdrState ≠ .waiting → r.dataState ≠ .ready := fun hm hs => hm (hi hs)
  cases hm : r.hdrState with
  | waiting => exact hreg.waiting hm
  | output => exact hreg.output hm (hbusy (by simp [hm]))
  | waitTxFin => exact hreg.waitTxFin hm (hbusy (by simp [hm]))

/-- The header port shows what the register holds. -/
theorem HdrAfter.shown (hreg : r.HdrAfter kept ns) :
    shownHdrs kept (ns ++ r.newsGiven i) = shownHdrs kept ns ++ r.hdrGiven i := by
  by_cases hg : r.givesHdr i = true
  · have hout : r.hdrState = .output := by simpa [hdrVal] using (Bool.and_eq_true_iff.mp hg).1
    rw [HdrAfter, if_pos hout] at hreg
    rw [hdrGiven, newsGiven, if_pos hg, if_pos hg, shownHdrs_append, ← hreg]
    rfl
  · rw [hdrGiven, newsGiven, if_neg hg, if_neg hg, List.append_nil, List.append_nil]

end EthFrameFormat

/-! ### All frames -/

/-- The formatter behind the MAC. -/
def ethFormatLines :
    LineMachine EthFrameFormat EthLine EthFormatWires EthFormatEnv EthFormatHdr
      (Beat (BitVec 8)) where
  wires := EthFormatEnv.wires
  next := EthFrameFormat.next
  takes := EthFrameFormat.takes
  hdrGiven := EthFrameFormat.hdrGiven
  dataGiven := EthFrameFormat.dataGiven

abbrev ethFormatMachine := ethFormatLines.machine

/-- The formatter, the lines the MAC still has and what was given out. -/
abbrev EthFormatSystem := System EthFrameFormat (List EthLine) EthFormatHdr (Beat (BitVec 8))

namespace EthFormatSystem

open EthFrameFormat (newsLines frameNews phases handles)

abbrev NewsSystem := System EthFrameFormat (List EthLine) EthNews (Beat (BitVec 8))

/-- The same cycles with what is told of the headers in place of the headers. -/
structure Tells (s : EthFormatSystem) (t : NewsSystem) : Prop where
  ctrl : t.ctrl = s.ctrl
  src : t.src = s.src
  data : t.data = s.data
  hdrs : s.hdrs = shownHdrs EthFrameFormat.reset.ethHdr t.hdrs
  reg : s.ctrl.HdrAfter EthFrameFormat.reset.ethHdr t.hdrs
  idle : s.ctrl.dataState = .ready → s.ctrl.hdrState = .waiting

variable {s : EthFormatSystem} {t : NewsSystem} {e : EthFormatEnv}

theorem Tells.step (h : Tells s t) (e : EthFormatEnv) :
    Tells (ethFormatMachine.cycle s e) (newsLines.machine.cycle t e) := by
  have hnews : (newsLines.machine.cycle t e).hdrs = t.hdrs ++ s.ctrl.newsGiven (e.wires s.src) := by
    show t.hdrs ++ t.ctrl.newsGiven (e.wires t.src) = _
    rw [h.ctrl, h.src]
  refine ⟨?_, ?_, ?_, ?_, ?_, EthFrameFormat.ready_waiting h.idle⟩
  · show t.ctrl.next (e.wires t.src) = s.ctrl.next (e.wires s.src)
    rw [h.ctrl, h.src]
  · show (if t.ctrl.takes (e.wires t.src) then t.src.tail else t.src) =
      if s.ctrl.takes (e.wires s.src) then s.src.tail else s.src
    rw [h.ctrl, h.src]
  · show t.data ++ t.ctrl.dataGiven (e.wires t.src) = s.data ++ s.ctrl.dataGiven (e.wires s.src)
    rw [h.ctrl, h.data, h.src]
  · show s.hdrs ++ s.ctrl.hdrGiven (e.wires s.src) = _
    rw [hnews, h.reg.shown, h.hdrs]
  · rw [hnews]
    exact h.reg.step h.idle

theorem Tells.exec (h : Tells s t) (sched : Nat → EthFormatEnv) (n : Nat) :
    Tells (Trace.exec ethFormatMachine.cycle s sched n)
      (Trace.exec newsLines.machine.cycle t sched n) := by
  induction n with
  | zero => exact h
  | succ n ih => exact ih.step (sched n)

/-- After a reset, with the frames at the MAC. -/
def start (frames : List EthFrame) : EthFormatSystem where
  ctrl := .reset
  src := frames.flatMap EthFrame.lines
  hdrs := []
  data := []

def Init (frames : List EthFrame) (s : EthFormatSystem) : Prop := s = start frames

theorem exists_tells {frames : List EthFrame}
    (h : Reach (Init frames) ethFormatMachine.step Free s) :
    ∃ t, Tells s t ∧ Reach (Between frameNews.kind phases.phases [] frames)
      newsLines.machine.step Free t := by
  induction h with
  | start h0 =>
    subst h0
    refine ⟨⟨.reset, frames.flatMap EthFrame.lines, [], []⟩, ⟨rfl, rfl, rfl, rfl, rfl, fun _ => rfl⟩,
      .start ⟨⟨rfl, rfl⟩, ?_, rfl, rfl⟩⟩
    exact (loadAll_lines frameNews frames).symm
  | next e _ _ hs ih =>
    obtain ⟨t, ht, hr⟩ := ih
    cases hs
    exact ⟨_, ht.step e, hr.next e trivial rfl⟩

/-! ### What is given out for the frames -/

/-- What the data port should give out. -/
def dataOf (frames : List EthFrame) : List (Beat (BitVec 8)) :=
  frames.flatMap fun x => beats 64 x.payload

/-- All frames were given out, each with its own header. -/
def Delivered (frames : List EthFrame) (s : EthFormatSystem) : Prop :=
  s.ctrl.Idle ∧ s.src = [] ∧ s.hdrs = frames.map EthFrame.hdrOut ∧ s.data = dataOf frames

/-- In every run the headers and the bytes behind the headers are given out in order, and in the end
all of them are. -/
structure Strips (frames : List EthFrame) : Prop where
  hdrs : ∀ s, Reach (Init frames) ethFormatMachine.step Free s →
    s.hdrs <+: frames.map EthFrame.hdrOut
  data : ∀ s, Reach (Init frames) ethFormatMachine.step Free s → s.data <+: dataOf frames
  ends : ∀ s, Reach (Init frames) ethFormatMachine.step Free s →
    ∀ sched, Fair EthFormatEnv.Given sched →
      ∃ n, Delivered frames (exec ethFormatMachine.cycle s sched n)

/-- Every tagged frame has the addresses of the last plain frame before it, and the addresses `dst`
and `src` if there is none. -/
def TagsKeepAddrs (dst src : BitVec 48) : List EthFrame → Prop
  | [] => True
  | x :: xs =>
    if x.tagged then x.hdr.dst = dst ∧ x.hdr.src = src ∧ TagsKeepAddrs dst src xs
    else TagsKeepAddrs x.hdr.dst x.hdr.src xs

/-- What is given out in the end is right exactly if the tagged frames have these addresses. -/
theorem shownHdrs_eq_iff (kept : EthHdr) (frames : List EthFrame) :
    shownHdrs kept (frames.map EthFrame.news) = frames.map EthFrame.hdrOut ↔
      TagsKeepAddrs kept.dst kept.src frames := by
  induction frames generalizing kept with
  | nil => exact ⟨fun _ => trivial, fun _ => rfl⟩
  | cons x xs ih =>
    rw [List.map_cons, List.map_cons, shownHdrs, List.cons.injEq, ih, TagsKeepAddrs]
    cases ht : x.tagged with
    | false =>
      have hhdr : x.news.hdr kept = x.hdr := by simp [EthFrame.news, EthNews.hdr, ht]
      rw [hhdr, if_neg Bool.false_ne_true]
      exact ⟨fun h => h.2, fun h => ⟨rfl, h⟩⟩
    | true =>
      have hhdr : x.news.hdr kept = ⟨kept.dst, kept.src, x.hdr.ethType⟩ := by
        simp [EthFrame.news, EthNews.hdr, ht]
      rw [hhdr, if_pos rfl]
      constructor
      · rintro ⟨heq, hrest⟩
        have hown : (⟨kept.dst, kept.src, x.hdr.ethType⟩ : EthHdr) = x.hdr :=
          congrArg EthFormatHdr.ethHdr heq
        exact ⟨(congrArg EthHdr.dst hown).symm, (congrArg EthHdr.src hown).symm, hrest⟩
      · rintro ⟨hdst, hsrc, hrest⟩
        refine ⟨?_, hrest⟩
        rw [← hdst, ← hsrc]
        rfl

theorem flatMap_news (frames : List EthFrame) :
    frames.flatMap frameNews.kind.hdrs = frames.map EthFrame.news := List.flatMap_pure_eq_map ..

/-- In every run the headers are those of the register, and in the end all of them are given out. -/
theorem delivers_shown {frames : List EthFrame}
    (h : Reach (Init frames) ethFormatMachine.step Free s) :
    s.hdrs <+: shownHdrs EthFrameFormat.reset.ethHdr (frames.map EthFrame.news) ∧
      s.data <+: dataOf frames ∧
      ∀ sched, Fair EthFormatEnv.Given sched → ∃ n,
        (exec ethFormatMachine.cycle s sched n).ctrl.Idle ∧
        (exec ethFormatMachine.cycle s sched n).src = [] ∧
        (exec ethFormatMachine.cycle s sched n).hdrs =
          shownHdrs EthFrameFormat.reset.ethHdr (frames.map EthFrame.news) ∧
        (exec ethFormatMachine.cycle s sched n).data = dataOf frames := by
  obtain ⟨t, ht, hr⟩ := exists_tells h
  have hrun := inRun_of_reach handles.handles (fun _ _ => trivial) hr
  obtain ⟨hhdrs, hdata⟩ := hrun.beginning
  rw [flatMap_news] at hhdrs
  refine ⟨?_, ?_, fun sched hf => ?_⟩
  · rw [ht.hdrs]
    exact shownHdrs_isPrefix hhdrs
  · rw [← ht.data]
    exact hdata
  · obtain ⟨n, hidle, hsrc, hh, hd⟩ := hrun.ends handles.handles (fun _ _ => trivial) hf
    have hn := ht.exec sched n
    refine ⟨n, by rw [← hn.ctrl]; exact hidle, by rw [← hn.src]; exact hsrc, ?_, ?_⟩
    · rw [hn.hdrs, hh, flatMap_news]
    · rw [← hn.data, hd]
      rfl

end EthFormatSystem

/-- The formatter gives out for every frame its own header and the bytes behind it exactly if every
tagged frame has the addresses of the last plain frame before it, or zeros if no plain frame came
since the reset. -/
theorem eth_frame_format_strips (frames : List EthFrame) :
    EthFormatSystem.Strips frames ↔ EthFormatSystem.TagsKeepAddrs 0 0 frames := by
  have hiff := EthFormatSystem.shownHdrs_eq_iff EthFrameFormat.reset.ethHdr frames
  constructor
  · intro h
    obtain ⟨n, -, -, hall, -⟩ := h.ends _ (.start rfl) _ EthFormatEnv.fair_calm
    have hstart : Reach (EthFormatSystem.Init frames) ethFormatMachine.step Free
        (EthFormatSystem.start frames) := .start rfl
    have hreach : Reach _ _ _ (exec ethFormatMachine.cycle _ (fun _ => EthFormatEnv.calm) n) :=
      hstart.of_exec (fun _ _ => rfl) (fun _ => trivial) n
    have hpre := (EthFormatSystem.delivers_shown hreach).1
    rw [hall] at hpre
    refine hiff.mp (hpre.eq_of_length ?_).symm
    rw [length_shownHdrs, List.length_map, List.length_map]
  · intro h
    have heq := hiff.mpr h
    refine ⟨fun s hs => ?_, fun s hs => (EthFormatSystem.delivers_shown hs).2.1,
      fun s hs sched hf => ?_⟩
    · rw [← heq]
      exact (EthFormatSystem.delivers_shown hs).1
    · obtain ⟨n, hidle, hsrc, hh, hd⟩ := (EthFormatSystem.delivers_shown hs).2.2 sched hf
      exact ⟨n, hidle, hsrc, hh.trans heq, hd⟩

/-! ### Fixed frames -/

/-- A tagged frame with one byte behind its header. -/
def taggedLine : EthLine where
  line.data := (0xb8599fb7bd6c000a350e14d281000001080055 : BitVec 152) ++ (0 : BitVec 360)
  line.padbytes := 45
  line.last := true
  frameSize := 19

def taggedFrame : EthFrame where
  head := taggedLine
  tail := []
  bytes := (lineBytes taggedLine.line.data).take 19
  carries := ⟨by decide, by decide +kernel⟩
  frameSize := by decide
  behind := by decide +kernel

/-- After a reset a tagged frame is given out with zeros for its addresses. -/
theorem eth_frame_format_stale_addrs : ¬ ∀ frames : List EthFrame, EthFormatSystem.Strips frames := by
  intro h
  have hs : ∃ s, Reach (EthFormatSystem.Init [taggedFrame]) ethFormatMachine.step Free s ∧
      decide (s.hdrs.map (fun h => h.ethHdr) = [⟨0, 0, 0x0800⟩]) = true :=
    Reach.exists_of_run (List.replicate 4 .calm) rfl (by decide +kernel)
  obtain ⟨s, hs, hp⟩ := hs
  have hpre := ((h [taggedFrame]).hdrs s hs).map EthFormatHdr.ethHdr
  rw [of_decide_eq_true hp] at hpre
  have hno : ¬ [⟨0, 0, 0x0800⟩] <+: ([taggedFrame].map EthFrame.hdrOut).map EthFormatHdr.ethHdr := by
    decide +kernel
  exact hno hpre

end TcpHw
