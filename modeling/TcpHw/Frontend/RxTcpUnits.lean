import TcpHw.Frontend.RxTcpFrames

/-!
# All segments behind the checksum engine

A bad segment of one line is dropped together with the segment behind it, so the two are one unit.
With this unit the output controller handles every list of segments whose good ones have their header
within them: it comes back to `READY` after each unit.
-/
namespace TcpHw

open Bytes Framing Machines

set_option autoImplicit false

/-! ### Units -/

/-- A segment that is handled by itself, or a bad segment of one line and the segment behind it. -/
inductive RxUnit where
  | single (y : ChkSegment)
  | pair (y z : ChkSegment)

namespace RxUnit

def lines : RxUnit → List AxisLine
  | .single y => y.lines
  | .pair y z => y.lines ++ z.lines

/-- What the ports owe for a unit. -/
def kind : LineKind RxUnit AxisLine RxTcpHdr (Beat (BitVec 8)) where
  lines := lines
  hdrs
    | .single y => segmentLines.hdrs y
    | .pair _ _ => []
  data
    | .single y => segmentLines.data y
    | .pair _ _ => []

def Ok : RxUnit → Prop
  | .single y => RxTcpOutput.Handled y
  | .pair y _ => y.good = false ∧ 12 + y.len ≤ 64

end RxUnit

namespace RxTcpOutput

variable {r : RxTcpOutput} {i : OutputWires} {y : ChkSegment}

theorem tail_eq_nil (h : 12 + y.len ≤ 64) : y.head.last = true ∧ y.tail = [] := by
  cases hlast : y.head.last with
  | true => exact ⟨rfl, (y.carries_lines.of_last hlast).1⟩
  | false =>
    have hlt := (y.carries_lines.of_not_last hlast).1
    omega

/-- The mark of the line is not looked at, so the lines behind it are dropped. -/
theorem begins_pair (z : ChkSegment) (hr : r.Idle) (hg : y.good = false) (hv : i.respVal = true)
    (hl : i.resp = y.head) : (r.next i).Phase z.lines [] [] := by
  obtain ⟨hs, hm⟩ := hr
  have hmatch : chksumMatch y.head.data = false := hg
  refine .drain (12 + z.len) ?_ ?_ rfl z.carries_lines rfl
  · simp [next, parseNext, hs, hv, hl, hmatch]
  · simp [next, hdrNext, hm, hs, hv, hl, hmatch]

/-- The controller has taken the first line of the unit. -/
theorem begins_unit {u : RxUnit} {tail : List AxisLine} (hr : r.Idle) (hu : u.Ok)
    (hv : i.respVal = true) (hsrc : ∃ t, u.lines ++ tail = i.resp :: t) :
    (r.next i).Phase u.lines.tail (RxUnit.kind.hdrs u) (RxUnit.kind.data u) := by
  obtain ⟨t, ht⟩ := hsrc
  cases u with
  | single y =>
    have hl : i.resp = y.head := by
      rw [RxUnit.lines, ChkSegment.lines, List.cons_append, List.cons.injEq] at ht
      exact ht.1.symm
    exact begins_phase hr hu hv hl
  | pair y z =>
    have hl : i.resp = y.head := by
      rw [RxUnit.lines, ChkSegment.lines, List.cons_append, List.cons_append, List.cons.injEq] at ht
      exact ht.1.symm
    have htail : (RxUnit.lines (.pair y z)).tail = z.lines := by
      rw [RxUnit.lines, ChkSegment.lines, (tail_eq_nil hu.2).2]
      rfl
    rw [htail]
    exact begins_pair z hr hu.1 hv hl

theorem handles_units :
    LineHandles rxTcpLines RxUnit.kind phases OutputEnv.Given RxUnit.Ok where
  lines_ne u := by
    cases u with
    | single y => exact List.cons_ne_nil _ _
    | pair y z => exact List.cons_ne_nil _ _
  idle_busy := handles.idle_busy
  inside_busy := handles.inside_busy
  takes_ne := handles.takes_ne
  idle_gives := handles.idle_gives
  idle_still := handles.idle_still
  idle_stirs := handles.idle_stirs
  begins u tail r e hu hr ht := by
    have hv : (e.wires (u.lines ++ tail)).respVal = true := (Bool.and_eq_true_iff.mp ht).1
    exact begins_unit hr hu hv (OutputEnv.resp_of_val hv)
  advances := handles.advances
  stirs := handles.stirs
  awaits_still := handles.awaits_still

end RxTcpOutput

/-! ### Segments in units -/

/-- A bad segment of two lines. -/
def closingSegment : ChkSegment where
  head := chkLine 80 { (default : TcpPktHdr) with chksum := 1 } false
  tail := [⟨0, 0, true, 0⟩]
  carries := by
    rw [pseudoHdrCast_chkLine]
    exact ⟨rfl, rfl, rfl, by decide⟩

namespace ChkSegment

/-- The segment is handled by itself. -/
def alone (y : ChkSegment) : Bool := y.good || decide (64 < 12 + y.len)

/-- The units of some segments. A segment that is missing at the end is made up. -/
def units : List ChkSegment → List RxUnit
  | [] => []
  | [y] => if y.alone then [.single y] else [.pair y closingSegment]
  | y :: z :: t => if y.alone then .single y :: units (z :: t) else .pair y z :: units t

/-- The lines of the segment that is missing at the end. -/
def missing : List ChkSegment → List AxisLine
  | [] => []
  | [y] => if y.alone then [] else closingSegment.lines
  | y :: z :: t => if y.alone then missing (z :: t) else missing t

theorem flatMap_units (ys : List ChkSegment) :
    (units ys).flatMap RxUnit.lines = ys.flatMap lines ++ missing ys := by
  induction ys using units.induct with
  | case1 => rfl
  | case2 y h => simp [units, missing, h, RxUnit.lines]
  | case3 y h => simp [units, missing, h, RxUnit.lines]
  | case4 y z t h ih => simp [units, missing, h, RxUnit.lines, ih]
  | case5 y z t h ih => simp [units, missing, h, RxUnit.lines, ih]

/-- A missing segment belongs to the last unit, for which nothing is owed. -/
theorem units_of_missing {ys : List ChkSegment} (h : missing ys ≠ []) :
    missing ys = closingSegment.lines ∧ ∃ us y, units ys = us ++ [.pair y closingSegment] := by
  induction ys using units.induct with
  | case1 => exact absurd rfl h
  | case2 y ha => simp [missing, ha] at h
  | case3 y ha => exact ⟨by simp [missing, ha], [], y, by simp [units, ha]⟩
  | case4 y z t ha ih =>
    obtain ⟨hm, us, w, hus⟩ := ih (by simpa [missing, ha] using h)
    exact ⟨by simpa [missing, ha] using hm, .single y :: us, w, by simp [units, ha, hus]⟩
  | case5 y z t ha ih =>
    obtain ⟨hm, us, w, hus⟩ := ih (by simpa [missing, ha] using h)
    exact ⟨by simpa [missing, ha] using hm, .pair y z :: us, w, by simp [units, ha, hus]⟩

theorem units_ok {ys : List ChkSegment} (h : ∀ y ∈ ys, y.good = true → y.Fits) :
    ∀ u ∈ units ys, u.Ok := by
  have hsingle : ∀ y : ChkSegment, (y.good = true → y.Fits) → y.alone = true →
      (RxUnit.single y).Ok := by
    intro y hfits ha
    refine ⟨hfits, fun hbad => ?_⟩
    simpa [alone, hbad] using ha
  have hpair : ∀ y z : ChkSegment, ¬ y.alone = true → (RxUnit.pair y z).Ok := by
    intro y z ha
    simpa [RxUnit.Ok, alone] using ha
  induction ys using units.induct with
  | case1 => simp [units]
  | case2 y ha =>
    simp only [units, ha, if_true, List.mem_singleton]
    rintro u rfl
    exact hsingle y (h y (by simp)) ha
  | case3 y ha =>
    simp only [units, if_neg ha, List.mem_singleton]
    rintro u rfl
    exact hpair y _ ha
  | case4 y z t ha ih =>
    simp only [units, ha, if_true, List.mem_cons]
    rintro u (rfl | hu)
    · exact hsingle y (h y (by simp)) ha
    · exact ih (fun w hw => h w (List.mem_cons_of_mem _ hw)) u hu
  | case5 y z t ha ih =>
    simp only [units, if_neg ha, List.mem_cons]
    rintro u (rfl | hu)
    · exact hpair y z ha
    · exact ih (fun w hw => h w (by simp [hw])) u hu

end ChkSegment

/-! ### What is owed for received segments -/

section

variable {ys : List ChkSegment} {segs : List RxSegment}

theorem ChkSegment.Shown.good {y : ChkSegment} {x : RxSegment} (h : y.Shown x) (hx : x.Framed) :
    y.good = x.verifies := by
  show ((tcpHdrCast y.head.data).chksum == 0) = (x.chksum == 0)
  rw [h.tcpHdr hx.twenty, x.tcpHdr_chksum hx.twenty]

theorem ChkSegment.Shown.alone {y : ChkSegment} {x : RxSegment} (h : y.Shown x) (hx : x.Framed) :
    y.alone = (x.verifies || decide (52 < x.bytes.length)) := by
  rw [ChkSegment.alone, h.good hx, (h.reads hx).1]
  congr 1
  exact decide_eq_decide.mpr (by omega)

/-- The header of a good segment is within it. -/
theorem units_handled (h : List.Forall₂ ChkSegment.Shown ys segs) (hx : ∀ x ∈ segs, x.Framed) :
    ∀ u ∈ ChkSegment.units ys, u.Ok := by
  refine ChkSegment.units_ok ?_
  induction h with
  | nil => simp
  | @cons y x ys segs hy _ ih =>
    intro w hw hg
    rcases List.mem_cons.mp hw with rfl | hw
    · have hf := hx x (by simp)
      obtain ⟨hlen, hhdr, -⟩ := hy.reads hf
      rw [ChkSegment.Fits, hlen, hhdr]
      exact hf.fits (hy.good hf ▸ hg)
    · exact ih (fun v hv => hx v (List.mem_cons_of_mem _ hv)) w hw hg

/-- What is owed for a segment that is handled by itself. -/
theorem owed_single {y : ChkSegment} {x : RxSegment} (h : y.Shown x) (hx : x.Framed) :
    RxUnit.kind.hdrs (.single y) = (if x.verifies then [x] else []).map RxSegment.hdrOut ∧
      RxUnit.kind.data (.single y) =
        (if x.verifies then [x] else []).flatMap fun x => beats 64 x.payload := by
  obtain ⟨-, -, hhdr, hpay⟩ := h.reads hx
  have hg := h.good hx
  cases hv : x.verifies with
  | true => simp [RxUnit.kind, segmentLines, hg, hv, hhdr, hpay]
  | false => simp [RxUnit.kind, segmentLines, hg, hv]

/-- A segment that is handled by itself is passed on if it verifies. -/
theorem passed_alone {x : RxSegment} {t : List RxSegment}
    (ha : (x.verifies || decide (52 < x.bytes.length)) = true) :
    RxSegment.passed (x :: t) = (if x.verifies then [x] else []) ++ RxSegment.passed t := by
  cases t with
  | nil => simp [RxSegment.passed]
  | cons z t =>
    cases hv : x.verifies with
    | true => simp [RxSegment.passed, hv]
    | false =>
      have hlong : ¬ x.bytes.length ≤ 52 := by simpa [hv] using ha
      simp [RxSegment.passed, hv, hlong]

/-- Another segment takes the next one with it. -/
theorem passed_pair {x : RxSegment} {t : List RxSegment}
    (ha : ¬ (x.verifies || decide (52 < x.bytes.length)) = true) :
    RxSegment.passed (x :: t) = RxSegment.passed t.tail := by
  obtain ⟨hv, hshort⟩ : x.verifies = false ∧ x.bytes.length ≤ 52 := by simpa using ha
  cases t with
  | nil => simp [RxSegment.passed, hv]
  | cons z t => simp [RxSegment.passed, hv, hshort]

/-- The owed headers and lines of the units are those of the segments that are passed on. -/
theorem owed_units (h : List.Forall₂ ChkSegment.Shown ys segs) (hx : ∀ x ∈ segs, x.Framed) :
    (ChkSegment.units ys).flatMap RxUnit.kind.hdrs = (RxSegment.passed segs).map RxSegment.hdrOut ∧
      (ChkSegment.units ys).flatMap RxUnit.kind.data =
        (RxSegment.passed segs).flatMap fun x => beats 64 x.payload := by
  induction ys using ChkSegment.units.induct generalizing segs with
  | case1 =>
    obtain rfl := List.forall₂_nil_left_iff.mp h
    exact ⟨rfl, rfl⟩
  | case2 y ha =>
    obtain ⟨x, t, hy, ht, rfl⟩ := List.forall₂_cons_left_iff.mp h
    obtain rfl := List.forall₂_nil_left_iff.mp ht
    have hf := hx x (by simp)
    obtain ⟨hh, hd⟩ := owed_single hy hf
    rw [passed_alone (hy.alone hf ▸ ha)]
    simp only [ChkSegment.units, ha, if_true, List.flatMap_cons, List.flatMap_nil, List.append_nil,
      RxSegment.passed]
    exact ⟨hh, hd⟩
  | case3 y ha =>
    obtain ⟨x, t, hy, ht, rfl⟩ := List.forall₂_cons_left_iff.mp h
    obtain rfl := List.forall₂_nil_left_iff.mp ht
    rw [passed_pair (hy.alone (hx x (by simp)) ▸ ha)]
    simp [ChkSegment.units, ha, RxSegment.passed, RxUnit.kind]
  | case4 y z t ha ih =>
    obtain ⟨x, xs, hy, ht, rfl⟩ := List.forall₂_cons_left_iff.mp h
    have hf := hx x (by simp)
    obtain ⟨hh, hd⟩ := owed_single hy hf
    obtain ⟨hhs, hds⟩ := ih ht fun w hw => hx w (List.mem_cons_of_mem _ hw)
    rw [passed_alone (hy.alone hf ▸ ha), ChkSegment.units, if_pos ha, List.flatMap_cons,
      List.flatMap_cons, List.map_append, List.flatMap_append, hh, hd, hhs, hds]
    exact ⟨rfl, rfl⟩
  | case5 y z t ha ih =>
    obtain ⟨x, xs, hy, ht, rfl⟩ := List.forall₂_cons_left_iff.mp h
    obtain ⟨w, ws, -, hws, rfl⟩ := List.forall₂_cons_left_iff.mp ht
    obtain ⟨hhs, hds⟩ := ih hws fun v hv => hx v (by simp [hv])
    rw [passed_pair (hy.alone (hx x (by simp)) ▸ ha), ChkSegment.units, if_neg ha,
      List.flatMap_cons, List.flatMap_cons, hhs, hds]
    exact ⟨rfl, rfl⟩

/-- The lines of some frames are the lines of some segments. -/
theorem exists_segments (hx : ∀ x ∈ segs, x.Framed) {ls : List AxisLine}
    (h : List.Forall₂ AxisLine.Shows ls (segs.flatMap fun x => frameToks 0 x.frame)) :
    ∃ ys : List ChkSegment, ys.flatMap ChkSegment.lines = ls ∧
      List.Forall₂ ChkSegment.Shown ys segs := by
  induction segs generalizing ls with
  | nil =>
    obtain rfl := List.forall₂_nil_right_iff.mp h
    exact ⟨[], rfl, .nil⟩
  | cons x segs ih =>
    have hf := hx x (by simp)
    have hlen := x.length_frame
    rw [List.flatMap_cons] at h
    have hfirst := List.forall₂_take_append _ _ _ h
    obtain ⟨ys, hys, hshown⟩ := ih (fun w hw => hx w (List.mem_cons_of_mem _ hw))
      (List.forall₂_drop_append _ _ _ h)
    obtain ⟨hc, hb⟩ := AxisLine.carries_of_shows (by omega) hfirst
    cases hl : ls.take (frameToks 0 x.frame).length with
    | nil => exact absurd hl hc.ne_nil
    | cons l t =>
      rw [hl] at hfirst hc
      have hlength : (pseudoHdrCast l.data).length.toNat = x.bytes.length := by
        rw [pseudoHdrCast_head hfirst]
        exact hf.len
      refine ⟨⟨l, t, by rw [hlength, ← hlen]; exact hc⟩ :: ys, ?_, .cons hfirst hshown⟩
      rw [List.flatMap_cons, hys]
      show (l :: t) ++ _ = ls
      rw [← hl, List.take_append_drop]

end

end TcpHw
