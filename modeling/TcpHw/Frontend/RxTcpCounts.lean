import TcpHw.Frontend.RxTcpSegments

/-!
# How many bytes are given out for a segment

The length of the payload is computed from the length in the pseudo header, and the lines end with
the bytes that came. Where the two do not agree the controller gives out lines of its own count: one
full line for each line that comes behind the first two, and then what is left of the length, in 16
bits. The bytes are forgotten here and their number is kept.
-/
namespace TcpHw

open Bytes Framing Machines Trace

set_option autoImplicit false

/-! ### Segments of any length -/

/-- A segment as it comes: `len` bytes behind the pseudo header, whatever the length in it says. -/
structure LooseSegment where
  head : AxisLine
  tail : List AxisLine
  len : Nat
  carries : CarriesBytes (head :: tail) (12 + len)

namespace LooseSegment

variable (x : LooseSegment)

def lines : List AxisLine := x.head :: x.tail

/-- The length in the pseudo header. -/
def lenField : Nat := (pseudoHdrCast x.head.data).length.toNat

/-- Bytes of the TCP header with its options. -/
def hdrLen : Nat := 4 * (tcpHdrCast x.head.data).rawDataOffset.toNat

/-- The checksum is right. -/
def good : Bool := chksumMatch x.head.data

def hdr : RxTcpHdr := .ofLine x.head.data

/-- The lines that the two headers reach into. -/
def hdrLines : Nat := if 52 < x.hdrLen then 2 else 1

variable {x}

theorem toNat_hdrBytes : (tcpHdrCast x.head.data).hdrBytes.toNat = x.hdrLen :=
  TcpPktHdr.toNat_hdrBytes _

theorem hdrLen_le : x.hdrLen ≤ 60 := by
  have hlt := (tcpHdrCast x.head.data).rawDataOffset.isLt
  unfold hdrLen
  omega

end LooseSegment

/-! ### Counts -/

/-- The bytes given out with `n` lines to come in `DATA_OUTPUT` and `b` bytes left. Where none are
left the last line goes out full. -/
def spent : Nat → BitVec 16 → Nat
  | 0, b => if b = 0 then 64 else b.toNat
  | n + 1, b => 64 + spent n (b - 64)

/-- The bytes given out for `b` bytes of payload, with `n` lines behind those of the headers. -/
def spentBehind : Nat → BitVec 16 → Nat
  | 0, b => b.toNat
  | n + 1, b => spent n b

/-- Modulo 2^16 the bytes given out are those left, at least a full line for each line to come, and
another full line if that leaves none. -/
theorem spent_le_iff {n : Nat} {b : BitVec 16} {k : Nat} : spent n b ≤ k ↔
    ∃ t, t % 2 ^ 16 = b.toNat ∧ 64 * n ≤ t ∧ t ≤ k ∧ (t = 64 * n → 64 * (n + 1) ≤ k) := by
  induction n generalizing b k with
  | zero =>
    have hlt := b.isLt
    rw [spent]
    split
    · rename_i hz
      have hb : b.toNat = 0 := by rw [hz]; rfl
      refine ⟨fun h => ⟨0, by omega, by omega, by omega, fun _ => by omega⟩, ?_⟩
      rintro ⟨t, ht, -, hle, hfull⟩
      by_cases h0 : t = 0
      · have hk := hfull (by omega)
        omega
      · omega
    · rename_i hz
      have hb : b.toNat ≠ 0 := fun h => hz (BitVec.eq_of_toNat_eq h)
      refine ⟨fun h => ⟨b.toNat, by omega, by omega, h, fun h0 => by omega⟩, ?_⟩
      rintro ⟨t, ht, -, hle, -⟩
      omega
  | succ n ih =>
    have hlt := b.isLt
    have hsub : (b - 64).toNat = (b.toNat + 65472) % 65536 := by bv_omega
    rw [spent]
    constructor
    · intro h
      obtain ⟨t, ht, hn, hle, hfull⟩ := (ih (b := b - 64) (k := k - 64)).mp (by omega)
      refine ⟨t + 64, by omega, by omega, by omega, fun heq => ?_⟩
      have hk := hfull (by omega)
      omega
    · rintro ⟨t, ht, hn, hle, hfull⟩
      have hrest : spent n (b - 64) ≤ k - 64 := by
        refine ih.mpr ⟨t - 64, by omega, by omega, by omega, fun heq => ?_⟩
        have hk := hfull (by omega)
        omega
      omega

/-! ### The machine that counts -/

namespace RxTcpOutput

variable {r : RxTcpOutput} {i : OutputWires} {cur tail : List AxisLine} {h : List RxTcpHdr}
  {d : List Unit} {k : Nat}

/-- One for each byte that the data port gives out in this cycle. -/
def bytesGiven (r : RxTcpOutput) (i : OutputWires) : List Unit :=
  List.replicate ((r.dataGiven i).flatMap Beat.bytes).length ()

theorem bytesGiven_none (hg : r.gives i = false) : r.bytesGiven i = [] := by
  simp [bytesGiven, dataGiven, hg]

/-- A line has a byte. -/
theorem bytesGiven_ne_nil (hg : r.gives i = true) : r.bytesGiven i ≠ [] := by
  intro hnil
  have hpad := (r.dataOut).padbytes.isLt
  have hlen := congrArg List.length hnil
  cases hl : r.dataOut.last with
  | true =>
    simp [bytesGiven, dataGiven, hg, DataLine.read, readBeat, hl] at hlen
    omega
  | false => simp [bytesGiven, dataGiven, hg, DataLine.read, readBeat, hl] at hlen

/-- A line that is not marked as the last is full. -/
theorem length_bytesGiven_full (hg : r.gives i = true) (hl : r.dataLast = false) :
    (r.bytesGiven i).length = 64 := by
  simp [bytesGiven, dataGiven, hg, DataLine.read, readBeat, dataOut, hl]

/-- The marked line has what is left, or 64 bytes. -/
theorem length_bytesGiven_last (hg : r.gives i = true) (hs : r.parseState = .dataOutputLast)
    (hb : r.bytesLeft.toNat ≤ 64) : (r.bytesGiven i).length = spent 0 r.bytesLeft := by
  have hl : r.dataLast = true := by simp [dataLast, hs, hb]
  have hlen : (r.bytesGiven i).length = 64 - (64 - r.bytesLeft.toNat) % 64 := by
    simp only [bytesGiven, dataGiven, hg, if_true, DataLine.read, readBeat, dataOut, hl,
      List.length_replicate, List.flatMap_cons, List.flatMap_nil, List.append_nil,
      List.length_take, length_lineBytes, BitVec.toNat_setWidth]
    bv_omega
  rw [hlen, spent]
  split
  · rename_i hz
    rw [hz]
    rfl
  · rename_i hz
    have h0 : r.bytesLeft.toNat ≠ 0 := fun h => hz (BitVec.eq_of_toNat_eq h)
    omega

/-- As `Phase`, with the number of bytes in the place of the bytes, and with the bytes left free of
the lines that are to come. -/
inductive Counts (r : RxTcpOutput) (cur : List AxisLine) (h : List RxTcpHdr) (d : List Unit) : Prop
  | hdrDrain (k : Nat) (hs : r.parseState = .tcpHdrDrain) (hh : HdrOwes r h)
      (hc : CarriesBytes cur k) (hrem : r.hdrBytesRem.toNat ≤ 64)
      (hd : d.length = spentBehind (cur.length - 1) r.bytesLeft)
  | firstData (k : Nat) (hs : r.parseState = .firstData) (hh : HdrOwes r h)
      (hc : CarriesBytes cur k) (hd : d.length = spentBehind cur.length r.bytesLeft)
  | dataOutput (k : Nat) (hs : r.parseState = .dataOutput) (hh : HdrOwes r h)
      (hc : CarriesBytes cur k) (hd : d.length = spent cur.length r.bytesLeft)
  | dataOutputLast (hs : r.parseState = .dataOutputLast) (hh : HdrOwes r h) (hc : cur = [])
      (hd : d.length = spent 0 r.bytesLeft)
  | waitTxFin (hs : r.parseState = .dataWaitTxFin) (hh : HdrOwes r h) (hc : cur = []) (hd : d = [])

end RxTcpOutput

def rxTcpCounts : LineMachine RxTcpOutput AxisLine OutputWires OutputEnv RxTcpHdr Unit where
  wires := OutputEnv.wires
  next := RxTcpOutput.next
  takes := RxTcpOutput.takes
  hdrGiven := RxTcpOutput.hdrGiven
  dataGiven := RxTcpOutput.bytesGiven

namespace LooseSegment

variable (x : LooseSegment)

/-- The bytes given out for the segment. -/
def given : Nat := spentBehind (x.lines.length - x.hdrLines) (payloadSizeCalc x.head.data)

/-- A good segment with the lines that its header reaches into. -/
def Counted : Prop := x.good = true ∧ x.hdrLines ≤ x.lines.length

end LooseSegment

/-- What the ports owe for a good segment. -/
def looseLines : LineKind LooseSegment AxisLine RxTcpHdr Unit where
  lines := LooseSegment.lines
  hdrs x := [x.hdr]
  data x := List.replicate x.given ()

namespace RxTcpOutput

variable {r : RxTcpOutput} {i : OutputWires} {cur tail : List AxisLine} {h : List RxTcpHdr}
  {d : List Unit} {k : Nat}

def countPhases : LinePhases RxTcpOutput AxisLine RxTcpHdr Unit OutputEvent where
  idle := Idle
  inside := Counts
  busy r := r.parseState != .ready
  awaits := awaits

/-- What is owed after `g` was given out. -/
theorem pay {g d : List Unit} {n : Nat} (hd : d.length = g.length + n) :
    ∃ d', g ++ d' = d ∧ d'.length = n := by
  have hone : ∀ l : List Unit, l = List.replicate l.length () := fun l =>
    List.eq_replicate_iff.mpr ⟨rfl, fun _ _ => rfl⟩
  refine ⟨List.replicate n (), ?_, List.length_replicate⟩
  rw [hone g, List.replicate_append_replicate, ← hd, ← hone d]

/-- The data machine is in the middle of a segment. -/
theorem counts_of (cur' : List AxisLine) {n : Nat} (hh : HdrOwes r h) (hne : r.parseState ≠ .ready)
    (hw : r.parseState ≠ .dataWaitTxFin)
    (hcur : (if r.takes i then (cur ++ tail).tail else cur ++ tail) = cur' ++ tail)
    (hd : d.length = (r.bytesGiven i).length + n)
    (hph : ∀ h' d', HdrOwes (r.next i) h' → d'.length = n → Counts (r.next i) cur' h' d') :
    rxTcpCounts.Advances countPhases r i cur tail h d := by
  obtain ⟨h', hh', hm⟩ := hh.step (i := i) hne (fun hf => hw hf.1)
  obtain ⟨d', hd', hn⟩ := pay hd
  exact ⟨cur', h', d', hcur, hh', hd', .inl (hph h' d' hm hn)⟩

theorem hdrDrain_counts (hs : r.parseState = .tcpHdrDrain) (hh : HdrOwes r h)
    (hc : CarriesBytes cur k) (hrem : r.hdrBytesRem.toNat ≤ 64)
    (hd : d.length = spentBehind (cur.length - 1) r.bytesLeft)
    (hx : i.respVal = true → ∃ t, cur ++ tail = i.resp :: t) :
    rxTcpCounts.Advances countPhases r i cur tail h d := by
  have hne : r.parseState ≠ .ready := by simp [hs]
  have hnone : (r.bytesGiven i).length = 0 := by
    rw [bytesGiven_none (by simp [gives, dataVal, hs]), List.length_nil]
  have hleft : (r.next i).bytesLeft = r.bytesLeft := by simp [next, bytesLeftNext, hs]
  cases hv : i.respVal with
  | false =>
    refine counts_of cur hh hne (by simp [hs]) (by simp [takes, hv])
      (by rw [hnone, Nat.zero_add]) fun h' d' hm hn => ?_
    have hrem' : (r.next i).hdrBytesRem = r.hdrBytesRem := by simp [next, hdrBytesRemNext, hs, hv]
    exact .hdrDrain k (by simp [next, parseNext, hs, hv]) hm hc (by rw [hrem']; exact hrem)
      (by rw [hn, hd, hleft])
  | true =>
    obtain ⟨t, rfl⟩ := line_next hc (hx hv)
    refine counts_of t hh hne (by simp [hs]) (by simp [takes, respRdy, hs, hv])
      (by rw [hnone, Nat.zero_add]) fun h' d' hm hn => ?_
    rw [hd, List.length_cons, Nat.add_sub_cancel] at hn
    cases hl : i.resp.last with
    | true =>
      obtain ⟨rfl, -⟩ := hc.of_last hl
      by_cases hz : 0 < r.bytesLeft.toNat
      · have hnz : r.bytesLeft ≠ 0 := fun h0 => by rw [h0] at hz; exact absurd hz (by decide)
        refine .dataOutputLast (by simp [next, parseNext, hs, hv, hrem, hl, hz]) hm rfl ?_
        rw [hn, hleft, spent, if_neg hnz]
        rfl
      · have hnil : d'.length = 0 := by
          rw [hn]
          exact Nat.eq_zero_of_not_pos hz
        exact .waitTxFin (by simp [next, parseNext, hs, hv, hrem, hl, hz]) hm rfl
          (List.eq_nil_of_length_eq_zero hnil)
    | false =>
      exact .firstData (k - 64) (by simp [next, parseNext, hs, hv, hrem, hl]) hm
        (hc.of_not_last hl).2 (by rw [hn, hleft])

theorem firstData_counts (hs : r.parseState = .firstData) (hh : HdrOwes r h)
    (hc : CarriesBytes cur k) (hd : d.length = spentBehind cur.length r.bytesLeft)
    (hx : i.respVal = true → ∃ t, cur ++ tail = i.resp :: t) :
    rxTcpCounts.Advances countPhases r i cur tail h d := by
  have hne : r.parseState ≠ .ready := by simp [hs]
  have hnone : (r.bytesGiven i).length = 0 := by
    rw [bytesGiven_none (by simp [gives, dataVal, hs]), List.length_nil]
  have hleft : (r.next i).bytesLeft = r.bytesLeft := by simp [next, bytesLeftNext, hs]
  cases hv : i.respVal with
  | false =>
    refine counts_of cur hh hne (by simp [hs]) (by simp [takes, hv])
      (by rw [hnone, Nat.zero_add]) fun h' d' hm hn => ?_
    exact .firstData k (by simp [next, parseNext, hs, hv]) hm hc (by rw [hn, hd, hleft])
  | true =>
    obtain ⟨t, rfl⟩ := line_next hc (hx hv)
    refine counts_of t hh hne (by simp [hs]) (by simp [takes, respRdy, hs, hv])
      (by rw [hnone, Nat.zero_add]) fun h' d' hm hn => ?_
    have hn : d'.length = spent t.length r.bytesLeft := hn.trans hd
    cases hl : i.resp.last with
    | true =>
      obtain ⟨rfl, -⟩ := hc.of_last hl
      exact .dataOutputLast (by simp [next, parseNext, hs, hv, hl]) hm rfl
        (by rw [hn, hleft, List.length_nil])
    | false =>
      exact .dataOutput (k - 64) (by simp [next, parseNext, hs, hv, hl]) hm
        (hc.of_not_last hl).2 (by rw [hn, hleft])

theorem dataOutput_counts (hs : r.parseState = .dataOutput) (hh : HdrOwes r h)
    (hc : CarriesBytes cur k) (hd : d.length = spent cur.length r.bytesLeft)
    (hx : i.respVal = true → ∃ t, cur ++ tail = i.resp :: t) :
    rxTcpCounts.Advances countPhases r i cur tail h d := by
  have hne : r.parseState ≠ .ready := by simp [hs]
  cases hg : r.gives i with
  | false =>
    have hg' : (i.respVal && i.dataRdy) = false := by simpa [gives, dataVal, hs] using hg
    have hleft : (r.next i).bytesLeft = r.bytesLeft := by simp [next, bytesLeftNext, hs, hg]
    refine counts_of cur hh hne (by simp [hs]) (by simp [takes, respRdy, hs, hg'])
      (by rw [bytesGiven_none hg, List.length_nil, Nat.zero_add]) fun h' d' hm hn => ?_
    exact .dataOutput k (by simp [next, parseNext, hs, hg]) hm hc (by rw [hn, hd, hleft])
  | true =>
    obtain ⟨hval, hrdy⟩ := Bool.and_eq_true_iff.mp hg
    have hv : i.respVal = true := by simpa [dataVal, hs] using hval
    obtain ⟨t, rfl⟩ := line_next hc (hx hv)
    have hleft : (r.next i).bytesLeft = r.bytesLeft - 64 := by simp [next, bytesLeftNext, hs, hg]
    have hfull := length_bytesGiven_full hg (by simp [dataLast, hs])
    have hn : d.length = (r.bytesGiven i).length + spent t.length (r.bytesLeft - 64) := by
      rw [hd, hfull, List.length_cons, spent]
    refine counts_of t hh hne (by simp [hs]) (by simp [takes, respRdy, hs, hv, hrdy]) hn
      fun h' d' hm hn => ?_
    cases hl : i.resp.last with
    | true =>
      obtain ⟨rfl, -⟩ := hc.of_last hl
      exact .dataOutputLast (by simp [next, parseNext, hs, hg, hl]) hm rfl
        (by rw [hn, hleft, List.length_nil])
    | false =>
      exact .dataOutput (k - 64) (by simp [next, parseNext, hs, hl]) hm
        (hc.of_not_last hl).2 (by rw [hn, hleft])

theorem dataOutputLast_counts (hs : r.parseState = .dataOutputLast) (hh : HdrOwes r h)
    (hd : d.length = spent 0 r.bytesLeft) :
    rxTcpCounts.Advances countPhases r i [] tail h d := by
  have hne : r.parseState ≠ .ready := by simp [hs]
  have htakes : (if r.takes i then ([] ++ tail).tail else [] ++ tail) = [] ++ tail := by
    simp [takes, respRdy, hs]
  cases hr : i.dataRdy with
  | false =>
    have hg : r.gives i = false := by simp [gives, hr]
    have hleft : (r.next i).bytesLeft = r.bytesLeft := by simp [next, bytesLeftNext, hs, hr]
    refine counts_of [] hh hne (by simp [hs]) htakes
      (by rw [bytesGiven_none hg, List.length_nil, Nat.zero_add]) fun h' d' hm hn => ?_
    exact .dataOutputLast (by simp [next, parseNext, hs, hr]) hm rfl (by rw [hn, hd, hleft])
  | true =>
    have hg : r.gives i = true := by simp [gives, dataVal, hs, hr]
    by_cases hlong : 64 < r.bytesLeft.toNat
    · have hleft : (r.next i).bytesLeft = r.bytesLeft - 64 := by
        simp [next, bytesLeftNext, hs, hr, hlong]
      have hfull := length_bytesGiven_full hg (by simp [dataLast, hs, hlong])
      have hrest : d.length = (r.bytesGiven i).length + spent 0 (r.bytesLeft - 64) := by
        have hz : r.bytesLeft ≠ 0 := fun h0 => by rw [h0] at hlong; exact absurd hlong (by decide)
        have hz' : r.bytesLeft - 64 ≠ 0 := by bv_omega
        rw [hd, hfull, spent, spent, if_neg hz, if_neg hz']
        bv_omega
      refine counts_of [] hh hne (by simp [hs]) htakes hrest fun h' d' hm hn => ?_
      exact .dataOutputLast (by simp [next, parseNext, hs, hr, hlong]) hm rfl (by rw [hn, hleft])
    · have hall : d.length = (r.bytesGiven i).length + 0 := by
        rw [hd, length_bytesGiven_last hg hs (Nat.le_of_not_lt hlong), Nat.add_zero]
      refine counts_of [] hh hne (by simp [hs]) htakes hall fun h' d' hm hn => ?_
      exact .waitTxFin (by simp [next, parseNext, hs, hr, hlong]) hm rfl
        (List.eq_nil_of_length_eq_zero hn)

theorem waitTxFin_counts (hs : r.parseState = .dataWaitTxFin) (hh : HdrOwes r h) :
    rxTcpCounts.Advances countPhases r i [] tail h [] := by
  have htakes : (if r.takes i then ([] ++ tail).tail else [] ++ tail) = [] ++ tail := by
    simp [takes, respRdy, hs]
  have hgives : r.bytesGiven i ++ [] = [] := by
    rw [List.append_nil, bytesGiven_none (by simp [gives, dataVal, hs])]
  rcases waitTxFin_next (i := i) hs hh with ⟨h', hh', hs', hm⟩ | ⟨hh', hidle⟩
  · exact ⟨[], h', [], htakes, hh', hgives, .inl (.waitTxFin hs' hm rfl rfl)⟩
  · exact ⟨[], [], [], htakes, (List.append_nil _).trans hh', hgives, .inr ⟨hidle, rfl, rfl, rfl⟩⟩

theorem Counts.advances (hp : Counts r cur h d)
    (hx : i.respVal = true → ∃ t, cur ++ tail = i.resp :: t) :
    rxTcpCounts.Advances countPhases r i cur tail h d := by
  cases hp with
  | hdrDrain k hs hh hc hrem hd => exact hdrDrain_counts hs hh hc hrem hd hx
  | firstData k hs hh hc hd => exact firstData_counts hs hh hc hd hx
  | dataOutput k hs hh hc hd => exact dataOutput_counts hs hh hc hd hx
  | dataOutputLast hs hh hc hd =>
    subst hc
    exact dataOutputLast_counts hs hh hd
  | waitTxFin hs hh hc hd =>
    subst hc hd
    exact waitTxFin_counts hs hh

/-! ### The first line -/

variable {x : LooseSegment}

/-- The registers after the first line of a segment whose lines suffice for its header. -/
theorem begins_counts (hr : r.Idle) (hx : x.Counted) (hv : i.respVal = true)
    (hl : i.resp = x.head) : (r.next i).Counts x.tail [x.hdr] (List.replicate x.given ()) := by
  obtain ⟨hg, hlines⟩ := hx
  have hmatch : chksumMatch i.resp.data = true := by
    rw [hl]
    exact hg
  obtain ⟨hbeg, hout, hhdr⟩ := begins_line hr hv hmatch
  have hs := hr.1
  have howes : (r.next i).HdrOwes [x.hdr] := .inl ⟨hout, by rw [hhdr, hl]; rfl⟩
  have hleft : (r.next i).bytesLeft = payloadSizeCalc x.head.data := by
    simp [next, bytesLeftNext, hs, hbeg, hl]
  have hhb := x.toNat_hdrBytes
  have hmax := x.hdrLen_le
  have hsp : hdrSpills i.resp.data = decide (52 < x.hdrLen) := by
    rw [hdrSpills, hl, hhb]
  have hcar : CarriesBytes (x.head :: x.tail) (12 + x.len) := x.carries
  have hlen : x.lines.length = x.tail.length + 1 := rfl
  have hd : (List.replicate x.given ()).length =
      spentBehind (x.lines.length - x.hdrLines) (r.next i).bytesLeft := by
    rw [List.length_replicate, hleft]
    rfl
  by_cases hspill : 52 < x.hdrLen
  · have htwo : x.hdrLines = 2 := if_pos hspill
    have hlast : x.head.last = false := by
      cases hlast : x.head.last with
      | false => rfl
      | true =>
        have hnil := (hcar.of_last hlast).1
        rw [hlen, hnil, htwo] at hlines
        exact absurd hlines (by decide)
    have hrem : (r.next i).hdrBytesRem.toNat ≤ 64 := by
      have hnext : (r.next i).hdrBytesRem = 12 + (tcpHdrCast x.head.data).hdrBytes - 64 := by
        rw [hl] at hsp
        simp [next, hdrBytesRemNext, hs, hbeg, hl, hsp, hspill]
      rw [hnext]
      bv_omega
    refine .hdrDrain (12 + x.len - 64) (by simp [next, parseNext, hs, hv, hmatch, hsp, hspill])
      howes (hcar.of_not_last hlast).2 hrem ?_
    rw [hd, hlen, htwo]
    rfl
  · have hone : x.hdrLines = 1 := if_neg hspill
    have hd' : (List.replicate x.given ()).length =
        spentBehind x.tail.length (r.next i).bytesLeft := by
      rw [hd, hlen, hone]
      rfl
    cases hlast : x.head.last with
    | true =>
      obtain ⟨hnil, -⟩ := hcar.of_last hlast
      rw [hnil, List.length_nil] at hd'
      have hlast' : i.resp.last = true := by rw [hl]; exact hlast
      rw [hnil]
      by_cases hz : payloadSizeCalc x.head.data = 0
      · have hz' : payloadSizeCalc i.resp.data = 0 := by rw [hl]; exact hz
        refine .waitTxFin (by simp [next, parseNext, hs, hv, hmatch, hsp, hspill, hlast', hz']) howes
          rfl (List.eq_nil_of_length_eq_zero ?_)
        rw [hd', hleft, hz]
        rfl
      · have hz' : payloadSizeCalc i.resp.data ≠ 0 := by rw [hl]; exact hz
        refine .dataOutputLast
          (by simp only [next, parseNext, hs, hv, hmatch, hsp, hspill, hlast', decide_false,
            Bool.false_eq_true, if_false, if_true, if_neg hz']) howes rfl ?_
        rw [hd', hleft, spent, if_neg hz]
        rfl
    | false =>
      have hlast' : i.resp.last = false := by rw [hl]; exact hlast
      exact .firstData (12 + x.len - 64)
        (by simp [next, parseNext, hs, hv, hmatch, hsp, hspill, hlast']) howes
        (hcar.of_not_last hlast).2 hd'

/-! ### The machine handles good segments -/

theorem Counts.not_ready (hp : Counts r cur h d) : r.parseState ≠ .ready := by
  cases hp with
  | hdrDrain _ hs | firstData _ hs | dataOutput _ hs | dataOutputLast hs | waitTxFin hs =>
    rw [hs]
    decide

theorem Counts.stirs {e : OutputEnv} (hp : Counts r cur h d) (hg : e.Given r.awaits) :
    rxTcpCounts.moves countPhases r (e.wires (cur ++ tail)) = true := by
  have hsrc : r.parseState ≠ .dataOutputLast → r.parseState ≠ .dataWaitTxFin →
      cur ++ tail ≠ [] := by
    intro hne hne'
    have hcur : cur ≠ [] := by
      cases hp with
      | hdrDrain k hst _ hc | firstData k hst _ hc | dataOutput k hst _ hc => exact hc.ne_nil
      | dataOutputLast hst => exact absurd hst hne
      | waitTxFin hst => exact absurd hst hne'
    exact List.append_ne_nil_of_left_ne_nil hcur tail
  have hhdr : r.parseState = .dataWaitTxFin →
      r.hdrState = .output ∨ r.hdrState = .waitTxFin := by
    intro hst
    cases hp with
    | waitTxFin _ hh => exact hh.waits
    | hdrDrain _ hs | firstData _ hs | dataOutput _ hs | dataOutputLast hs =>
      rw [hst] at hs
      cases hs
  have hmoves := moves_of_given hg hsrc hhdr
  have hbytes : r.gives (e.wires (cur ++ tail)) = true →
      r.bytesGiven (e.wires (cur ++ tail)) ≠ [] := bytesGiven_ne_nil
  have hcounts := hmoves.imp_right (Or.imp_right (Or.imp_left hbytes))
  simpa [LineMachine.moves, rxTcpCounts, countPhases, hdrGiven, or_assoc] using hcounts

theorem handles_counts :
    LineHandles rxTcpCounts looseLines countPhases OutputEnv.Given LooseSegment.Counted where
  lines_ne x := List.cons_ne_nil _ _
  idle_busy r hr := by simp [countPhases, hr.1]
  inside_busy r cur h d hp := by simp [countPhases, hp.not_ready]
  takes_ne := handles.takes_ne
  idle_gives r i hr := by
    have hnone : r.gives i = false := by simp [gives, dataVal, hr.1]
    exact ⟨(idle_gives hr).1, bytesGiven_none hnone⟩
  idle_still := handles.idle_still
  idle_stirs := handles.idle_stirs
  begins x tail r e hx hr ht := by
    have hv : (e.wires (x.lines ++ tail)).respVal = true := (Bool.and_eq_true_iff.mp ht).1
    obtain ⟨t, hsrc⟩ := OutputEnv.resp_of_val hv
    have hl : (e.wires (x.lines ++ tail)).resp = x.head := by
      rw [LooseSegment.lines, List.cons_append, List.cons.injEq] at hsrc
      exact hsrc.1.symm
    exact begins_counts hr hx hv hl
  advances r cur h d e tail hp := hp.advances fun hv => OutputEnv.resp_of_val hv
  stirs r cur h d e tail hp hg := hp.stirs hg
  awaits_still r i hm := by
    obtain ⟨⟨⟨ht, -⟩, hg⟩, hl⟩ : ((r.takes i = false ∧ r.hdrGiven i = []) ∧ r.bytesGiven i = []) ∧
        (r.parseState ≠ .ready → (r.next i).parseState ≠ .ready) := by
      simpa [LineMachine.moves, rxTcpCounts, countPhases] using hm
    refine awaits_next ht ?_ hl
    cases hgives : r.gives i with
    | false => rfl
    | true => exact absurd hg (bytesGiven_ne_nil hgives)

end RxTcpOutput

/-! ### The controller and its counts -/

namespace RxTcpSystem

/-- The bytes are forgotten and their number is kept. -/
def counted (s : RxTcpSystem) : System RxTcpOutput (List AxisLine) RxTcpHdr Unit where
  ctrl := s.ctrl
  src := s.src
  hdrs := s.hdrs
  data := List.replicate (s.data.flatMap Beat.bytes).length ()

theorem counted_cycle (s : RxTcpSystem) (e : OutputEnv) :
    counted (rxTcpMachine.cycle s e) = rxTcpCounts.machine.cycle (counted s) e := by
  have hdata : List.replicate
      ((s.data ++ s.ctrl.dataGiven (e.wires s.src)).flatMap Beat.bytes).length () =
      List.replicate (s.data.flatMap Beat.bytes).length () ++ s.ctrl.bytesGiven (e.wires s.src) := by
    rw [List.flatMap_append, List.length_append, List.replicate_add]
    rfl
  show (⟨_, _, _, List.replicate
    ((s.data ++ s.ctrl.dataGiven (e.wires s.src)).flatMap Beat.bytes).length ()⟩ :
      System _ _ _ _) = _
  rw [hdata]
  rfl

end RxTcpSystem

end TcpHw
