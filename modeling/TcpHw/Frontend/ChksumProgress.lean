import TcpHw.Frontend.ChksumRefines

/-!
# `chksum_calc` goes on

A frame that came in whole is shown after at most 13 cycles, since its checksum has at most five
levels, two registers and three stages of a FIFO before it and the frame itself three stages. For the
input the data FIFO is the limit: it holds the open frame, which cannot leave before it is whole. So
the unit takes the next line of a frame sooner or later exactly if the lines before it do not yet
fill the FIFO with its read pipeline; a longer frame blocks it for ever.
-/
namespace TcpHw

open Trace

set_option autoImplicit false

namespace AxisFifo

variable {n : Nat} {α : Type} {q : AxisFifo n α} {i : AxisFifoIn α} {lm : List α}

/-- There is a word in the memory or in the read pipeline. -/
def holds (q : AxisFifo n α) : Bool := !q.empty || q.stages.any AxisStage.valid

theorem Holding.holds_iff (h : q.Holding lm) : q.holds = true ↔ q.words lm ≠ [] := by
  have hempty := h.empty_iff
  have hitems : (q.stages.any AxisStage.valid = true) ↔ AxisStage.items q.stages ≠ [] := by
    rw [List.any_eq_true, AxisStage.items, Ne, List.flatMap_eq_nil_iff]
    constructor
    · rintro ⟨x, hx, hv⟩ hnil
      have hx' := hnil x hx
      rw [AxisStage.item, if_pos hv] at hx'
      cases hx'
    · intro hne
      by_contra hnone
      apply hne
      intro x hx
      rw [AxisStage.item, if_neg]
      exact fun hv => hnone ⟨x, hx, hv⟩
  rw [holds, Bool.or_eq_true, Bool.not_eq_true', Bool.eq_false_iff, Ne, hempty, hitems, words]
  constructor
  · rintro (hl | hs) hnil
    · exact hl (List.append_eq_nil_iff.mp hnil).2
    · exact hs (List.append_eq_nil_iff.mp hnil).1
  · intro hne
    by_cases hl : lm = []
    · right
      rw [hl, List.append_nil] at hne
      exact hne
    · exact .inl hl

/-- What is not at the output is kept. -/
theorem Holding.words_kept (h : q.Holding lm) (hv : q.out.valid = false) :
    (q.cycle i).words (memNext q i lm) = q.words lm ++ (q.taken i).toList := by
  rw [h.words_cycle, hv, Bool.and_false, if_neg (by decide)]

theorem gap_of_valid (hv : q.out.valid = true) : q.gap = 0 := by
  rw [gap, stages, AxisStage.lead, if_pos hv]

end AxisFifo

/-- The line at a level ends its frame. -/
def SumLevel.ends (l : SumLevel) : Bool := l.valid && l.last

namespace ChksumCalcRegs

variable {a b : Nat}

/-- A bound on the cycles until the next line is shown. -/
def wait (c : ChksumCalcRegs a b) : Nat :=
  if c.frame then c.dataFifo.gap + (!c.out.readyInt).toNat
  else if c.csumFifo.holds then 4 + c.csumFifo.gap
  else if c.csumIn.valid then 7
  else if c.level4.ends then 8
  else if c.level3.ends then 9
  else if c.level2.ends then 10
  else if c.level1.ends then 11
  else 12

variable {c : ChksumCalcRegs a b} {u : ChksumUnit} {rest lmd : List AxisLine}
  {fs : List (ChksumCmd × List AxisLine)} {lmc : List CsumWord} {i : ChksumCalcIn}

theorem Shows.gaps (h : c.Shows u rest fs lmd lmc) : c.dataFifo.gap ≤ 2 ∧ c.csumFifo.gap ≤ 2 := by
  have hd := c.dataFifo.gap_le
  have hc := c.csumFifo.gap_le
  rw [h.pipes.1] at hd
  rw [h.pipes.2] at hc
  exact ⟨hd, hc⟩

theorem Shows.wait_le (h : c.Shows u rest fs lmd lmc) : c.wait ≤ 12 ∧
    (c.frame = true → c.wait ≤ 3) ∧ (c.csumFifo.holds = true → c.wait ≤ 6) ∧
    (c.csumIn.valid = true → c.wait ≤ 7) ∧ (c.level4.ends = true → c.wait ≤ 8) ∧
    (c.level3.ends = true → c.wait ≤ 9) ∧ (c.level2.ends = true → c.wait ≤ 10) ∧
    (c.level1.ends = true → c.wait ≤ 11) := by
  obtain ⟨hd, hc⟩ := h.gaps
  have hb := Bool.toNat_le (!c.out.readyInt)
  unfold wait
  refine ⟨?_, ?_, ?_, ?_, ?_, ?_, ?_, ?_⟩
  · split_ifs <;> omega
  · intro hx
    rw [if_pos hx]
    omega
  all_goals
    intro hx
    split_ifs <;> omega

/-- The first register takes what comes. -/
theorem int_shown (hv : c.out.m.valid = false) (hm : c.moves = true) :
    (c.cycle i).out.m.valid = true := by
  have hready : c.out.readyInt = true := by
    simp only [moves, dataReady, Bool.and_eq_true] at hm
    exact hm.2.1
  simp [cycle, AxisOutput.cycle, hready, hv, int, hm]

/-- A line of the frame that is going out comes nearer. -/
theorem Shows.wait_frame (h : c.Shows u rest fs lmd lmc) (hv : c.out.m.valid = false)
    (hf : c.frame = true) (hm : c.moves = false) : (c.cycle i).wait + 1 ≤ c.wait := by
  have hrest := (h.sends.opened hf).ne_nil
  have hwords : c.dataFifo.words lmd ≠ [] := by
    rw [h.lines]
    simp [hrest]
  have hframe' : (c.cycle i).frame = true := by simp [ChksumCalcRegs.cycle, hf, hm]
  have htemp : c.out.temp.valid = false := by
    rw [Bool.eq_false_iff]
    intro ht
    rw [h.tidy.behind ht] at hv
    cases hv
  have hready' : (c.cycle i).out.readyInt = true := by
    simp [ChksumCalcRegs.cycle, AxisOutput.cycle, htemp, hv]
  have hwait' : (c.cycle i).wait = (c.cycle i).dataFifo.gap := by simp [wait, hframe', hready']
  have hwait : c.wait = c.dataFifo.gap + (!c.out.readyInt).toNat := by simp [wait, hf]
  rw [hwait, hwait']
  cases hd : c.dataFifo.out.valid with
  | false =>
    have hgap := h.data.gap_cycle (i := ⟨c.req i, c.dataReady⟩) hwords hd
    show (c.dataFifo.cycle _).gap + 1 ≤ _
    omega
  | true =>
    -- only the output registers were not ready
    have hready : c.out.readyInt = false := by simpa [moves, dataReady, hd, hf] using hm
    have hdr : c.dataReady = false := by simp [dataReady, hready]
    have hout := AxisFifo.out_cycle (q := c.dataFifo) (i := ⟨c.req i, c.dataReady⟩) hdr hd
    have hgap : (c.cycle i).dataFifo.gap = 0 := AxisFifo.gap_of_valid (by
      show (c.dataFifo.cycle _).out.valid = true
      rw [hout, hd])
    rw [hgap, hready]
    exact Nat.le_add_left 1 _

/-- An entry that ends a frame is at one of the levels. -/
theorem ends_of_flight (hne : (collect c.sumAcc.toNat c.flight).1 ≠ []) :
    c.level4.ends = true ∨ c.level3.ends = true ∨ c.level2.ends = true ∨ c.level1.ends = true ∨
      c.level0.ends = true := by
  by_contra hnone
  simp only [not_or, Bool.not_eq_true] at hnone
  obtain ⟨h4, h3, h2, h1, h0⟩ := hnone
  have hentry : ∀ l : SumLevel, l.ends = false → ∀ e ∈ l.entry, e.last = false := by
    intro l hl e he
    cases hv : l.valid with
    | false => simp [SumLevel.entry, hv] at he
    | true =>
      have hlast : l.last = false := by simpa [SumLevel.ends, hv] using hl
      simp only [SumLevel.entry, hv, if_true, List.mem_singleton] at he
      rw [he]
      exact hlast
  have hall : ∀ e ∈ c.flight, e.last = false := by
    intro e he
    simp only [flight, List.mem_append] at he
    rcases he with he | ((he | he) | he) | he
    · exact hentry _ h4 e he
    · exact hentry _ h3 e he
    · exact hentry _ h2 e he
    · exact hentry _ h1 e he
    · exact hentry _ h0 e he
  have hcoll : ∀ (es : List SumEntry) (acc : Nat), (∀ e ∈ es, e.last = false) →
      (collect acc es).1 = [] := by
    intro es
    induction es with
    | nil => exact fun _ _ => rfl
    | cons x t ih =>
      intro acc hes
      have hx := hes x List.mem_cons_self
      simp only [collect, hx, Bool.false_eq_true, if_false]
      exact ih _ fun e he => hes e (List.mem_cons_of_mem _ he)
  exact hne (hcoll _ _ hall)

/-- While the adders run, a level takes over what was at the level before. -/
theorem ends_next {cur prev : SumLevel} {w : Nat} {ready : Bool} (hr : ready = true)
    (he : prev.ends = true) : (cur.next prev w ready).ends = true := by
  rw [SumLevel.ends, Bool.and_eq_true] at he
  simp [SumLevel.ends, SumLevel.next, hr, he.1, he.2]

/-- A frame that has not begun comes nearer. -/
theorem Shows.wait_behind (h : c.Shows u rest fs lmd lmc) (hb : 0 < b) (hab : a ≤ b)
    (hi : Allowed i) (hf : c.frame = false) (hne : fs ≠ []) : (c.cycle i).wait + 1 ≤ c.wait := by
  obtain ⟨rest', fs', lmd', lmc', h'⟩ := h.cycle hb hab hi
  obtain ⟨-, hframe', hholds', hin', h4', h3', h2', h1'⟩ := h'.wait_le
  have hnext : (c.cycle i).frame = c.csumFifo.out.valid := by simp [ChksumCalcRegs.cycle, hf]
  have hiff := h.csums.holds_iff
  cases hv : c.csumFifo.out.valid with
  | true =>
    have hwords : c.csumFifo.words lmc ≠ [] := by
      rw [AxisFifo.words_of_valid hv]
      exact List.cons_ne_nil _ _
    have hwait : c.wait = 4 + c.csumFifo.gap := by simp [wait, hf, hiff.mpr hwords]
    have hle := hframe' (by rw [hnext, hv])
    omega
  | false =>
    rw [hv] at hnext
    have hkept := h.csums.words_kept (i := ⟨if c.csumIn.valid then some c.csumIn.data else none,
      c.csumOutReady⟩) hv
    rw [h.taken_csum hb hab] at hkept
    have hiff' := (h.csums.cycle (i := ⟨if c.csumIn.valid then some c.csumIn.data else none,
      c.csumOutReady⟩)).holds_iff
    rw [hkept] at hiff'
    cases hh : c.csumFifo.holds with
    | true =>
      have hwords := hiff.mp hh
      have hgap := h.csums.gap_cycle (i := ⟨if c.csumIn.valid then some c.csumIn.data else none,
        c.csumOutReady⟩) hwords hv
      have hh' : (c.cycle i).csumFifo.holds = true := hiff'.mpr (by simp [hwords])
      have hwait : c.wait = 4 + c.csumFifo.gap := by simp [wait, hf, hh]
      have hwait' : (c.cycle i).wait = 4 + (c.cycle i).csumFifo.gap := by
        simp [wait, hnext, hh']
      rw [hwait, hwait']
      show 4 + (c.csumFifo.cycle _).gap + 1 ≤ _
      omega
    | false =>
      have hnil : c.csumFifo.words lmc = [] := by
        by_contra hc
        rw [hiff.mpr hc] at hh
        cases hh
      cases hin : c.csumIn.valid with
      | true =>
        have hh' : (c.cycle i).csumFifo.holds = true := hiff'.mpr (by
          simp [AxisStage.item, hin])
        have hwait : c.wait = 7 := by simp [wait, hf, hh, hin]
        have hle := hholds' hh'
        omega
      | false =>
        -- the checksum is still at one of the levels
        have hchk := h.chksums
        have hitem : c.csumIn.item = [] := by simp [AxisStage.item, hin]
        rw [hnil, hitem, List.nil_append, List.nil_append] at hchk
        have hflight : (collect c.sumAcc.toNat c.flight).1 ≠ [] := by
          rw [hchk]
          simp [hne]
        have hr : c.csumInReady = true := by
          by_contra hr
          obtain ⟨hnone, -⟩ := h.stalled hb hab (by simpa using hr)
          rw [hnone] at hflight
          exact hflight rfl
        have hwait : c.wait = if c.level4.ends then 8 else if c.level3.ends then 9
            else if c.level2.ends then 10 else if c.level1.ends then 11 else 12 := by
          simp [wait, hf, hh, hin]
        rw [hwait]
        cases he4 : c.level4.ends with
        | true =>
          rw [SumLevel.ends, Bool.and_eq_true] at he4
          have hle := hin' (by simp [ChksumCalcRegs.cycle, sums, he4.1, he4.2, hr])
          rw [if_pos rfl]
          omega
        | false =>
          cases he3 : c.level3.ends with
          | true =>
            have hle := h4' (ends_next hr he3)
            simp only [Bool.false_eq_true, if_false, if_true]
            omega
          | false =>
            cases he2 : c.level2.ends with
            | true =>
              have hle := h3' (ends_next hr he2)
              simp only [Bool.false_eq_true, if_false, if_true]
              omega
            | false =>
              cases he1 : c.level1.ends with
              | true =>
                have hle := h2' (ends_next hr he1)
                simp only [Bool.false_eq_true, if_false, if_true]
                omega
              | false =>
                have he0 : c.level0.ends = true := by
                  rcases ends_of_flight hflight with he | he | he | he | he
                  · rw [he4] at he
                    cases he
                  · rw [he3] at he
                    cases he
                  · rw [he2] at he
                    cases he
                  · rw [he1] at he
                    cases he
                  · exact he
                have hle := h1' (ends_next hr he0)
                simp only [Bool.false_eq_true, if_false]
                omega

theorem framesSealed_ne_nil (h : ∀ f ∈ fs, WholeFrame f.2 ∧ f.1.Fit) (hne : fs ≠ []) :
    framesSealed fs ≠ [] := by
  cases fs with
  | nil => exact absurd rfl hne
  | cons f t =>
    have hf := (h f List.mem_cons_self).1.ne_nil
    intro hnil
    rw [framesSealed, List.flatMap_cons, List.append_eq_nil_iff] at hnil
    cases hl : f.2 with
    | nil => exact hf hl
    | cons x l =>
      rw [hl] at hnil
      simp only [ChksumUnit.responses] at hnil
      split_ifs at hnil <;> cases hnil.1

/-- Nothing is shown, and something is ready: it comes nearer, or it is shown in the next cycle. -/
theorem Shows.wait_cycle (h : c.Shows u rest fs lmd lmc) (hb : 0 < b) (hab : a ≤ b)
    (hi : Allowed i) (hne : u.out ≠ []) (hv : c.out.m.valid = false) :
    (unitNext c u i).out ≠ [] ∧
      ((c.cycle i).out.m.valid = true ∨ (c.cycle i).wait + 1 ≤ c.wait) := by
  have hkept : (unitNext c u i).out ≠ [] := by
    have hout : (unitNext c u i).out = u.outNext (c.req i) (i.mReady && c.out.m.valid) := rfl
    rw [hout, hv, Bool.and_false, ChksumUnit.outNext_eq]
    simp [hne]
  refine ⟨hkept, ?_⟩
  have hlines : c.out.lines = [] := by
    by_contra hl
    rw [h.tidy.valid_iff.mpr hl] at hv
    cases hv
  cases hf : c.frame with
  | true =>
    cases hm : c.moves with
    | true => exact .inl (int_shown hv hm)
    | false => exact .inr (h.wait_frame hv hf hm)
  | false =>
    right
    refine h.wait_behind hb hab hi hf ?_
    rintro rfl
    rw [h.out, hlines, h.sends.closed hf] at hne
    exact hne rfl

/-- The open frame alone does not keep a line out as long as it does not fill the FIFO. -/
theorem Shows.accepts (h : c.Shows u rest fs lmd lmc) (ha : 0 < a) (hb : 0 < b) (hout : u.out = [])
    (ht : c.transferIn = true) (hroom : u.frame.length < 2 ^ a + 2) : c.sReady = true := by
  have hpow : 0 < 2 ^ b := Nat.two_pow_pos b
  have houts := h.out
  rw [hout] at houts
  obtain ⟨-, hmore⟩ := List.append_eq_nil_iff.mp houts.symm
  obtain ⟨hseal, hsealed⟩ := List.append_eq_nil_iff.mp hmore
  have hrest : rest = [] := by
    cases rest with
    | nil => rfl
    | cons x t => cases hseal
  have hfs : fs = [] := by
    by_contra hne
    exact framesSealed_ne_nil h.sends.whole hne hsealed
  have hdata : c.dataFifo.sReady = true := by
    by_contra hfull
    have hlen := h.data.length_of_full h.dataBrisk ha (by simpa using hfull)
    rw [h.lines, hrest, hfs, h.pipes.1] at hlen
    have heq : u.frame.length = 2 ^ a + 2 := hlen
    omega
  have hcsum : c.csumInReady = true := by
    by_contra hfull
    have hlen := h.csums.length_of_full h.brisk hb (by simpa [csumInReady] using hfull)
    have hchk := congrArg List.length h.chksums
    rw [hfs, List.length_append, hlen] at hchk
    simp only [List.map_nil, List.length_nil] at hchk
    omega
  rw [sReady, hdata, hcsum, ht]
  rfl

/-- An open frame that fills the FIFO keeps every line out. -/
theorem Shows.blocked (h : c.Shows u rest fs lmd lmc) (hfull : 2 ^ a + 2 ≤ u.frame.length) :
    c.sReady = false := by
  have hitems : (AxisStage.items c.dataFifo.stages).length ≤ c.dataFifo.stages.length :=
    AxisStage.length_items_le
  have hstages : c.dataFifo.stages.length = c.dataFifo.pipe.length + 1 := rfl
  have hlen := congrArg List.length h.lines
  have hroom := h.data.room
  rw [AxisFifo.words, List.length_append] at hlen
  simp only [List.length_append] at hlen
  rw [h.pipes.1] at hstages
  have hmem : ¬ lmd.length < 2 ^ a := by omega
  have hdata : c.dataFifo.sReady = false := by
    rw [Bool.eq_false_iff]
    exact fun hc => hmem ((AxisFifo.sReady_iff h.data).mp hc)
  simp [sReady, hdata]

/-- The open frame does not change while the unit takes no line. -/
theorem frame_kept (hr : c.sReady = false) (ht : c.transferIn = true) :
    (unitNext c u i).frame = u.frame ∧ (c.cycle i).transferIn = true := by
  have hq : c.req i = none := by simp [req, hr]
  refine ⟨by simp [unitNext, ChksumUnit.step, hq], ?_⟩
  simp [cycle, hq, ht]

end ChksumCalcRegs

namespace ChksumPair

variable {a b : Nat} {s : ChksumPair a b}

/-- One cycle. -/
def next (s : ChksumPair a b) (i : ChksumCalcIn) : ChksumPair a b :=
  ⟨s.regs.cycle i, ChksumCalcRegs.unitNext s.regs s.unit i⟩

/-- The registers and the contract belong together. -/
def Matches (s : ChksumPair a b) : Prop :=
  ∃ rest fs lmd lmc, s.regs.Shows s.unit rest fs lmd lmc

theorem Matches.next (h : s.Matches) (hb : 0 < b) (hab : a ≤ b) {i : ChksumCalcIn}
    (hi : ChksumCalcRegs.Allowed i) : (s.next i).Matches := by
  obtain ⟨rest, fs, lmd, lmc, hs⟩ := h
  exact hs.cycle hb hab hi

theorem Matches.shown_soon (h : s.Matches) (hb : 0 < b) (hab : a ≤ b) (hne : s.unit.out ≠ []) {n : Nat}
    (hw : s.regs.wait ≤ n) {sched : Nat → ChksumCalcIn}
    (hok : ∀ k, ChksumCalcRegs.Allowed (sched k)) :
    ∃ k ≤ n + 1, (exec ChksumPair.next s sched k).regs.resp.isSome = true := by
  have hshown : ∀ t : ChksumPair a b, t.regs.out.m.valid = true → t.regs.resp.isSome = true := by
    intro t ht
    simp [ChksumCalcRegs.resp, AxisOutput.shown, ht]
  induction n generalizing s sched with
  | zero =>
    obtain ⟨rest, fs, lmd, lmc, hs⟩ := h
    cases hv : s.regs.out.m.valid with
    | true => exact ⟨0, Nat.zero_le _, hshown _ hv⟩
    | false =>
      rcases (hs.wait_cycle hb hab (hok 0) hne hv).2 with hv' | hlt
      · exact ⟨1, Nat.le_refl 1, hshown _ hv'⟩
      · omega
  | succ n ih =>
    have hnext := h.next hb hab (hok 0)
    obtain ⟨rest, fs, lmd, lmc, hs⟩ := h
    cases hv : s.regs.out.m.valid with
    | true => exact ⟨0, Nat.zero_le _, hshown _ hv⟩
    | false =>
      obtain ⟨hne', hor⟩ := hs.wait_cycle hb hab (hok 0) hne hv
      rcases hor with hv' | hlt
      · exact ⟨1, by omega, hshown _ hv'⟩
      · have hw' : (s.next (sched 0)).regs.wait ≤ n := by
          show (s.regs.cycle (sched 0)).wait ≤ n
          omega
        obtain ⟨k, hk, hk'⟩ := ih hnext hne' hw' fun k => hok (1 + k)
        refine ⟨1 + k, by omega, ?_⟩
        rw [exec_add]
        exact hk'

/-- A frame that came in whole is shown within 13 cycles, whatever the surroundings do. -/
theorem chksum_calc_shows (hb : 0 < b) (hab : a ≤ b) (h : Reach Init step Allowed s)
    (hne : s.unit.out ≠ []) {sched : Nat → ChksumCalcIn}
    (hok : ∀ k, ChksumCalcRegs.Allowed (sched k)) :
    ∃ k ≤ 13, (exec next s sched k).regs.resp.isSome = true := by
  have hm : s.Matches := shows_of_reach hb hab h
  obtain ⟨rest, fs, lmd, lmc, hs⟩ := hm
  exact Matches.shown_soon ⟨rest, fs, lmd, lmc, hs⟩ hb hab hne hs.wait_le.1 hok

/-- The output takes what it is shown. -/
def taking (i : ChksumCalcIn) (_ : Unit) : Prop := i.mReady = true

/-- The lines that are still to go out, and the cycles until the next of them is shown. -/
def work (s : ChksumPair a b) : Nat :=
  14 * s.unit.out.length + if s.regs.out.m.valid then 0 else s.regs.wait + 1

/-- A frame is open, with room for a line. -/
def Roomy (s : ChksumPair a b) : Prop :=
  s.Matches ∧ s.regs.transferIn = true ∧ s.unit.frame.length < 2 ^ a + 2

theorem roomy_next (hb : 0 < b) (hab : a ≤ b) (h : s.Roomy) {i : ChksumCalcIn}
    (hi : ChksumCalcRegs.Allowed i) (hr : s.regs.sReady = false) : (s.next i).Roomy := by
  obtain ⟨hm, ht, hlt⟩ := h
  obtain ⟨hframe, ht'⟩ := ChksumCalcRegs.frame_kept (u := s.unit) (i := i) hr ht
  refine ⟨hm.next hb hab hi, ht', ?_⟩
  show (ChksumCalcRegs.unitNext _ _ _).frame.length < _
  rw [hframe]
  exact hlt

/-- While the unit takes no line, the lines before the open frame go out. -/
theorem work_next (ha : 0 < a) (hb : 0 < b) (hab : a ≤ b) (h : s.Roomy) {i : ChksumCalcIn}
    (hi : ChksumCalcRegs.Allowed i) (hr : s.regs.sReady = false) :
    (s.next i).work < s.work ∨ (s.next i).work ≤ s.work ∧ ¬ taking i () := by
  have hm' := h.1.next hb hab hi
  obtain ⟨⟨rest, fs, lmd, lmc, hs⟩, ht, hlt⟩ := h
  obtain ⟨rest', fs', lmd', lmc', hs'⟩ := hm'
  have hq : s.regs.req i = none := by simp [ChksumCalcRegs.req, hr]
  have hout : (s.next i).unit.out =
      if i.mReady && s.regs.out.m.valid then s.unit.out.tail else s.unit.out := by
    show s.unit.outNext _ _ = _
    rw [hq, ChksumUnit.outNext_eq]
    exact List.append_nil _
  have hwait' : (s.next i).regs.wait ≤ 12 := hs'.wait_le.1
  unfold work
  rw [hout]
  cases hv : s.regs.out.m.valid with
  | true =>
    have hne : s.unit.out ≠ [] := by
      rw [hs.out]
      exact fun hc => hs.tidy.valid_iff.mp hv (List.append_eq_nil_iff.mp hc).1
    have hpos := List.length_pos_of_ne_nil hne
    cases hmr : i.mReady with
    | true =>
      left
      rw [Bool.true_and, if_pos rfl, List.length_tail, if_pos rfl]
      split_ifs <;> omega
    | false =>
      right
      have hstay : (s.next i).regs.out.m = s.regs.out.m := AxisOutput.stays hmr hv
      rw [hstay, hv]
      exact ⟨Nat.le_refl _, by simp [taking, hmr]⟩
  | false =>
    left
    have hne : s.unit.out ≠ [] := by
      intro hnil
      rw [hs.accepts ha hb hnil ht hlt] at hr
      cases hr
    simp only [Bool.and_false, Bool.false_eq_true, if_false]
    rcases (hs.wait_cycle hb hab hi hne hv).2 with hv' | hlt'
    · have hv'' : (s.next i).regs.out.m.valid = true := hv'
      rw [if_pos hv'']
      omega
    · have hlt'' : (s.next i).regs.wait + 1 ≤ s.regs.wait := hlt'
      split_ifs <;> omega

/-- An open frame that fills the data FIFO blocks the unit for ever. -/
theorem blocked_forever (hb : 0 < b) (hab : a ≤ b) (h : s.Matches) (ht : s.regs.transferIn = true)
    (hfull : 2 ^ a + 2 ≤ s.unit.frame.length) {sched : Nat → ChksumCalcIn}
    (hok : ∀ k, ChksumCalcRegs.Allowed (sched k)) (n : Nat) :
    (exec next s sched n).regs.sReady = false := by
  have hinv : (exec next s sched n).Matches ∧ (exec next s sched n).regs.transferIn = true ∧
      2 ^ a + 2 ≤ (exec next s sched n).unit.frame.length := by
    induction n with
    | zero => exact ⟨h, ht, hfull⟩
    | succ n ih =>
      obtain ⟨hm, ht', hfull'⟩ := ih
      have hr : (exec next s sched n).regs.sReady = false := by
        obtain ⟨rest, fs, lmd, lmc, hs⟩ := hm
        exact hs.blocked hfull'
      obtain ⟨hframe, ht''⟩ := ChksumCalcRegs.frame_kept
        (u := (exec next s sched n).unit) (i := sched n) hr ht'
      refine ⟨hm.next hb hab (hok n), ht'', ?_⟩
      show _ ≤ (ChksumCalcRegs.unitNext _ _ _).frame.length
      rw [hframe]
      exact hfull'
  obtain ⟨⟨rest, fs, lmd, lmc, hs⟩, -, hfull'⟩ := hinv
  exact hs.blocked hfull'

/-- Under every schedule that goes on taking lines the unit takes a line of the open frame sooner or
later, exactly if the lines of this frame do not yet fill the data FIFO and its read pipeline; once
they do it never takes a line again. -/
theorem chksum_calc_accepts_iff (ha : 0 < a) (hb : 0 < b) (hab : a ≤ b)
    (h : Reach Init step Allowed s) (ht : s.regs.transferIn = true) :
    ((∀ sched, (∀ k, ChksumCalcRegs.Allowed (sched k)) → Fair taking sched →
      ∃ n, (exec next s sched n).regs.sReady = true) ↔ s.unit.frame.length < 2 ^ a + 2) ∧
    (2 ^ a + 2 ≤ s.unit.frame.length → ∀ sched, (∀ k, ChksumCalcRegs.Allowed (sched k)) →
      ∀ n, (exec next s sched n).regs.sReady = false) := by
  have hm : s.Matches := shows_of_reach hb hab h
  refine ⟨⟨?_, ?_⟩, fun hfull sched hok n => blocked_forever hb hab hm ht hfull hok n⟩
  · intro hall
    by_contra hfull
    let idle : Nat → ChksumCalcIn := fun _ => ⟨false, default, none, true⟩
    have hok : ∀ k, ChksumCalcRegs.Allowed (idle k) := fun _ => by decide
    obtain ⟨n, hn⟩ := hall idle hok fun _ n => ⟨n, Nat.le_refl n, rfl⟩
    rw [blocked_forever hb hab hm ht (Nat.le_of_not_lt hfull) hok n] at hn
    cases hn
  · intro hlt sched hok hfair
    have hok' : ∀ k, Allowed (exec next s sched k) (sched k) := hok
    refine exec_reaches_until (I := Roomy) (G := fun t : ChksumPair a b => t.regs.sReady = true)
      work (fun _ (_ : Unit) => True) ?_ ?_ ?_ ⟨hm, ht, hlt⟩ hok' hfair
    · intro t i hI hi hg
      exact roomy_next hb hab hI hi (by simpa using hg)
    · exact fun _ _ _ => ⟨(), trivial⟩
    · intro t i k hI hi hg _
      rcases work_next ha hb hab hI hi (by simpa using hg) with hless | ⟨hle, hnot⟩
      · exact .inl hless
      · exact .inr ⟨hle, trivial, hnot⟩

/-- A line of a frame that is not at its end, for a unit with a data FIFO of two lines. -/
def midLine : ChksumCalcIn := ⟨true, ⟨0, BitVec.allOnes 64, false, 0⟩, none, true⟩

/-- In a unit with a data FIFO of two lines, four lines of one frame block the unit. -/
theorem chksum_calc_accepts_iff_full : ∃ s : ChksumPair 1 1, Reach Init step Allowed s ∧
    s.regs.transferIn = true ∧ s.unit.frame.length = 4 ∧
    ∀ sched, (∀ k, ChksumCalcRegs.Allowed (sched k)) →
      ∀ n, (exec next s sched n).regs.sReady = false := by
  have hrun : ∃ s : ChksumPair 1 1, Reach Init step Allowed s ∧
      decide (s.regs.transferIn = true ∧ s.unit.frame.length = 4) = true :=
    Reach.exists_of_run (⟨false, default, some ⟨true, 0, 0, 0⟩, true⟩ :: List.replicate 8 midLine)
      init_zeros (by decide +kernel)
  obtain ⟨s, hs, hp⟩ := hrun
  obtain ⟨ht, hlen⟩ := decide_eq_true_iff.mp hp
  have hfull : 2 ^ 1 + 2 ≤ s.unit.frame.length := Nat.le_of_eq hlen.symm
  exact ⟨s, hs, ht, hlen,
    (chksum_calc_accepts_iff (by decide) (by decide) (by decide) hs ht).2 hfull⟩

/-- The frame of one line is shown soon after it came in. -/
theorem chksum_calc_shows_frame : ∃ s : ChksumPair 2 6, Reach Init step Allowed s ∧
    s.regs.resp = none ∧ ∃ k ≤ 13, (exec next s (fun _ => ⟨false, default, none, false⟩) k).regs.resp.isSome
      = true := by
  have hrun : ∃ s : ChksumPair 2 6, Reach Init step Allowed s ∧
      decide (s.regs.resp = none ∧ s.unit.out ≠ []) = true :=
    Reach.exists_of_run [⟨false, default, some ⟨true, 0, 0, 0⟩, false⟩,
      ⟨true, ⟨0, BitVec.allOnes 64, true, 0⟩, none, false⟩] init_zeros (by decide +kernel)
  obtain ⟨s, hs, hp⟩ := hrun
  obtain ⟨hr, hne⟩ := decide_eq_true_iff.mp hp
  exact ⟨s, hs, hr, chksum_calc_shows (by decide) (by decide) hs hne fun _ => by decide⟩

end ChksumPair

end TcpHw
