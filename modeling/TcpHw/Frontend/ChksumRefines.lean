import TcpHw.Frontend.ChksumSums

/-!
# `chksum_calc` keeps its contract

A frame whose checksum is not yet popped lies whole in the data FIFO, and each such frame has one
checksum in the checksum FIFO or on the way there. So there are never more checksums than lines, and
the checksum FIFO, which is at least as deep as the data FIFO, is full only when nothing is on the
way: no line meets a stalled adder. The lines that are ready in the contract are those in the output
registers, the rest of the frame that is going out and the frames behind it.
-/
namespace TcpHw

open Bytes Trace

set_option autoImplicit false

/-! ### The adders -/

/-- A line on its way through the adders. -/
structure SumEntry where
  total : Nat
  last : Bool
  enable : Bool
  offset : BitVec 8
  first : Bool

/-- What a level holds. -/
def SumLevel.entry (l : SumLevel) : List SumEntry :=
  if l.valid then [⟨l.sum.sum, l.last, l.enable, l.offset, l.initValid⟩] else []

theorem SumLevel.entry_next {l prev : SumLevel} {w m : Nat} {ready : Bool} (hr : ready = true)
    (h : prev.valid = true → prev.Fits w (2 * m)) :
    (l.next prev (w + 1) ready).entry = prev.entry ∧ ((l.next prev (w + 1) ready).valid = true →
      (l.next prev (w + 1) ready).Fits (w + 1) m) := by
  cases hv : prev.valid with
  | false =>
    have hn : (l.next prev (w + 1) ready).valid = false := by simp [next, hv, hr]
    exact ⟨by rw [entry, hn, entry, hv]; rfl, (fun hc => by rw [hn] at hc; cases hc)⟩
  | true =>
    obtain ⟨hodd, hinit, hlen, hbound⟩ := h hv
    obtain ⟨hlen', hbound', hsum⟩ := pairSums_spec hlen hbound
    have hn : l.next prev (w + 1) ready =
        { prev with valid := true, sum := pairSums (w + 1) prev.sum } := by simp [next, hv, hr]
    rw [hn]
    exact ⟨by simp [entry, hv, hsum], fun _ => ⟨hodd, hinit, hlen', hbound'⟩⟩

/-- The checksums of the frames that end in some lines, and the sum of the lines behind. -/
def collect (acc : Nat) : List SumEntry → List CsumWord × Nat
  | [] => ([], acc)
  | e :: t =>
    let s := sumAccTemp e.total (if e.first then 0 else acc)
    if e.last then
      (⟨~~~ BitVec.ofNat 16 s, e.offset, e.enable⟩ :: (collect 0 t).1, (collect 0 t).2)
    else collect s t

theorem collect_append (acc : Nat) (es : List SumEntry) (e : SumEntry) :
    collect acc (es ++ [e]) =
      ((collect acc es).1 ++ (collect (collect acc es).2 [e]).1,
        (collect (collect acc es).2 [e]).2) := by
  induction es generalizing acc with
  | nil => simp [collect]
  | cons x t ih =>
    cases hx : x.last with
    | true => simp [collect, hx, ih]
    | false => simp [collect, hx, ih]

/-- Without a checksum no frame ends in the lines. -/
theorem collect_nil {acc : Nat} {es : List SumEntry} (h : (collect acc es).1 = []) :
    ∀ e ∈ es, e.last = false := by
  induction es generalizing acc with
  | nil =>
    intro e he
    cases he
  | cons x t ih =>
    cases hx : x.last with
    | true => simp [collect, hx] at h
    | false =>
      have ht : (collect (sumAccTemp x.total (if x.first then 0 else acc)) t).1 = [] := by
        simpa [collect, hx] using h
      intro e he
      rcases List.mem_cons.mp he with rfl | he
      · exact hx
      · exact ih ht e he

namespace ChksumCalcRegs

variable {a b : Nat} (c : ChksumCalcRegs a b) (i : ChksumCalcIn)

/-- The lines in the adders, oldest first. -/
def flight : List SumEntry :=
  c.level4.entry ++ (c.level3.entry ++ c.level2.entry ++ c.level1.entry ++ c.level0.entry)

/-- The fields at all levels stay inside their widths. -/
structure Fitting : Prop where
  level0 : c.level0.valid = true → c.level0.Fits 17 16
  level1 : c.level1.valid = true → c.level1.Fits 18 8
  level2 : c.level2.valid = true → c.level2.Fits 19 4
  level3 : c.level3.valid = true → c.level3.Fits 20 2
  level4 : c.level4.valid = true → c.level4.Fits 21 1

/-- The entry of the line that is taken. -/
def reqEntry : List SumEntry :=
  match c.req i with
  | some l => [⟨lineTotal l, l.last, c.level0.enable, c.level0.offset, c.firstCycle⟩]
  | none => []

/-- The first level is set up for a frame without an offset and an initial value. -/
structure Plain : Prop where
  odd : c.level0.odd = false
  init : c.level0.init = 0
  mask : c.mask = BitVec.allOnes 64
  inputOffset : c.inputOffset = 0

variable {c i}

theorem req_eq {l : AxisLine} (h : c.req i = some l) :
    i.sValid = true ∧ l = i.s ∧ c.sReady = true ∧ c.transferIn = true ∧ c.csumInReady = true := by
  unfold req at h
  split_ifs at h with hc
  rw [Bool.and_eq_true] at hc
  have hready := hc.2
  simp only [sReady, Bool.and_eq_true] at hready
  exact ⟨hc.1, (Option.some.inj h).symm, hc.2, hready.2, hready.1.2⟩

theorem cmd_eq {k : CsumCmd} (h : c.cmd i = some k) : i.cmd = some k ∧ c.transferIn = false := by
  unfold cmd at h
  split_ifs at h with hc
  exact ⟨h, by simpa [cmdReady] using hc⟩

theorem cmd_none (h : c.transferIn = true) : c.cmd i = none := by
  simp [cmd, cmdReady, h]

theorem req_none (h : c.transferIn = false) : c.req i = none := by
  simp [req, sReady, h]

/-- The first level after a clock edge with the adders running. -/
theorem level0_entry (hp : c.transferIn = true → c.Plain) (hr : c.csumInReady = true) :
    (c.level0Next i).entry = c.reqEntry i := by
  cases hq : c.req i with
  | none =>
    have hv : (c.level0Next i).valid = false := by simp [level0Next, hq, hr]
    rw [SumLevel.entry, hv, reqEntry, hq]
    rfl
  | some l =>
    obtain ⟨-, rfl, -, ht, -⟩ := req_eq hq
    have hmask := (hp ht).mask
    have hcmd : c.cmd i = none := cmd_none ht
    simp [SumLevel.entry, level0Next, hq, hcmd, reqEntry, lineTotal, hmask]

theorem level0_fits (hp : c.transferIn = true → c.Plain) (hr : c.csumInReady = true)
    (hv : (c.level0Next i).valid = true) : (c.level0Next i).Fits 17 16 := by
  cases hq : c.req i with
  | none => simp [level0Next, hq, hr] at hv
  | some l =>
    obtain ⟨-, rfl, -, ht, -⟩ := req_eq hq
    have hplain := hp ht
    have hcmd : c.cmd i = none := cmd_none ht
    obtain ⟨hlen, hbound⟩ := sum0_fits i.s c.mask
    exact ⟨by simp [level0Next, hcmd, hplain.odd], by simp [level0Next, hcmd, hplain.init], hlen,
      hbound⟩

/-- The adders stand still, with nothing in them. -/
theorem flight_stalled (hr : c.csumInReady = false) (h : c.flight = []) :
    (c.cycle i).Fitting ∧ (c.cycle i).flight = [] ∧ (c.cycle i).csumIn.item = [] ∧
      (c.cycle i).sumAcc = c.sumAcc := by
  have hempty : ∀ l : SumLevel, l.entry = [] → l.valid = false := by
    intro l hl
    rw [SumLevel.entry] at hl
    by_contra hv
    rw [if_pos (by simpa using hv)] at hl
    cases hl
  simp only [flight, List.append_eq_nil_iff] at h
  obtain ⟨h4, ⟨⟨h3, h2⟩, h1⟩, h0⟩ := h
  have hreq : c.req i = none := by simp [req, sReady, hr]
  have hv0 : (c.cycle i).level0.valid = false := by
    simp [cycle, level0Next, hreq, hempty _ h0]
  have hv1 : (c.cycle i).level1.valid = false := by simp [cycle, SumLevel.next, hr, hempty _ h1]
  have hv2 : (c.cycle i).level2.valid = false := by simp [cycle, SumLevel.next, hr, hempty _ h2]
  have hv3 : (c.cycle i).level3.valid = false := by simp [cycle, SumLevel.next, hr, hempty _ h3]
  have hv4 : (c.cycle i).level4.valid = false := by simp [cycle, SumLevel.next, hr, hempty _ h4]
  have hs : c.sums = false := by simp [sums, hr]
  refine ⟨⟨?_, ?_, ?_, ?_, ?_⟩, ?_, ?_, ?_⟩
  · simp [hv0]
  · simp [hv1]
  · simp [hv2]
  · simp [hv3]
  · simp [hv4]
  · simp [flight, SumLevel.entry, hv0, hv1, hv2, hv3, hv4]
  · simp [cycle, AxisStage.item, hs]
  · simp [cycle, hs]

/-- The adders run: what was at the last level is summed, the rest moves on. -/
theorem flight_running (hf : c.Fitting) (hp : c.transferIn = true → c.Plain)
    (hr : c.csumInReady = true) : (c.cycle i).Fitting ∧ ∃ mid, c.flight = c.level4.entry ++ mid ∧
      (c.cycle i).flight = mid ++ c.reqEntry i ∧
      (c.cycle i).csumIn.item ++ (collect (c.cycle i).sumAcc.toNat mid).1 =
        (collect c.sumAcc.toNat c.flight).1 ∧
      (collect (c.cycle i).sumAcc.toNat mid).2 = (collect c.sumAcc.toNat c.flight).2 := by
  obtain ⟨h1, f1⟩ := SumLevel.entry_next (l := c.level1) (m := 8) hr hf.level0
  obtain ⟨h2, f2⟩ := SumLevel.entry_next (l := c.level2) (m := 4) hr hf.level1
  obtain ⟨h3, f3⟩ := SumLevel.entry_next (l := c.level3) (m := 2) hr hf.level2
  obtain ⟨h4, f4⟩ := SumLevel.entry_next (l := c.level4) (m := 1) hr hf.level3
  have h0 := level0_entry (i := i) hp hr
  refine ⟨⟨level0_fits hp hr, f1, f2, f3, f4⟩, _, rfl, ?_, ?_⟩
  · show SumLevel.entry (c.level4.next c.level3 21 c.csumInReady) ++
      (SumLevel.entry (c.level3.next c.level2 20 c.csumInReady) ++
        SumLevel.entry (c.level2.next c.level1 19 c.csumInReady) ++
        SumLevel.entry (c.level1.next c.level0 18 c.csumInReady) ++
        SumLevel.entry (c.level0Next i)) = _
    rw [h1, h2, h3, h4, h0]
    simp only [List.append_assoc]
  · rw [flight]
    generalize c.level3.entry ++ c.level2.entry ++ c.level1.entry ++ c.level0.entry = mid
    cases hv : c.level4.valid with
    | false =>
      have hs : c.sums = false := by simp [sums, hv]
      have he : c.level4.entry = [] := by simp [SumLevel.entry, hv]
      have hc : (c.cycle i).csumIn.item = [] := by simp [cycle, AxisStage.item, hs]
      have ha : (c.cycle i).sumAcc = c.sumAcc := by simp [cycle, hs]
      rw [he, hc, ha]
      exact ⟨rfl, rfl⟩
    | true =>
      have hs : c.sums = true := by simp [sums, hv, hr]
      obtain ⟨hodd, hinit, hlen, hbound⟩ := hf.level4 hv
      obtain ⟨x, hx⟩ := List.length_eq_one_iff.mp hlen
      have hxlt : x < 2 ^ 21 := hbound x (by rw [hx]; exact List.mem_singleton_self x)
      have hacc : c.accNext =
          sumAccTemp c.level4.sum.sum (if c.level4.initValid then 0 else c.sumAcc.toNat) := by
        rw [accNext, hx, hinit]
        simp
      have hle : c.accNext ≤ 65535 := by
        rw [hacc, hx, List.sum_singleton, sumAccTemp_eq hxlt]
        · exact foldCarry_le _
        · have hlt := c.sumAcc.isLt
          split_ifs <;> omega
      have he : c.level4.entry = [⟨c.level4.sum.sum, c.level4.last, c.level4.enable,
        c.level4.offset, c.level4.initValid⟩] := by simp [SumLevel.entry, hv]
      rw [he, List.singleton_append, collect, ← hacc]
      cases hl : c.level4.last with
      | true =>
        have hc : (c.cycle i).csumIn.item =
            [⟨~~~ BitVec.ofNat 16 c.accNext, c.level4.offset, c.level4.enable⟩] := by
          simp [cycle, AxisStage.item, hs, hl, csumInNext, hodd]
        have ha : (c.cycle i).sumAcc = 0 := by simp [cycle, hs, hl]
        rw [hc, ha]
        exact ⟨rfl, rfl⟩
      | false =>
        have hc : (c.cycle i).csumIn.item = [] := by simp [cycle, AxisStage.item, hl]
        have ha : (c.cycle i).sumAcc.toNat = c.accNext := by
          simp only [cycle, hs, hl, if_true, Bool.false_eq_true, if_false, BitVec.toNat_ofNat]
          exact Nat.mod_eq_of_lt (by omega)
        rw [hc, ha]
        exact ⟨rfl, rfl⟩

end ChksumCalcRegs

/-! ### The frames that go out -/

/-- The lines of one frame. -/
def WholeFrame (fr : List AxisLine) : Prop :=
  ∃ init l, fr = init ++ [l] ∧ (∀ x ∈ init, x.last = false) ∧ l.last = true

/-- The checksum lies inside the first line. -/
def ChksumCmd.Fit (k : ChksumCmd) : Prop := k.enable = true → k.offset.toNat + 2 ≤ 64

instance (k : ChksumCmd) : Decidable k.Fit := by
  unfold ChksumCmd.Fit
  infer_instance

/-- The checksum of a frame as the checksum FIFO holds it. -/
def csumOf (f : ChksumCmd × List AxisLine) : CsumWord :=
  ⟨swapBytes (onesChksum (ChksumUnit.kept f.2)), f.1.offset, f.1.enable⟩

/-- The lines of some frames. -/
def framesLines (fs : List (ChksumCmd × List AxisLine)) : List AxisLine := fs.flatMap Prod.snd

/-- The same with the checksums in place. -/
def framesSealed (fs : List (ChksumCmd × List AxisLine)) : List AxisLine :=
  fs.flatMap fun f => ChksumUnit.responses f.1 f.2

theorem WholeFrame.ne_nil {fr : List AxisLine} (h : WholeFrame fr) : fr ≠ [] := by
  obtain ⟨init, l, rfl, -, -⟩ := h
  simp

/-- A frame ends with its last line and not before. -/
theorem WholeFrame.tail {x : AxisLine} {t : List AxisLine} (h : WholeFrame (x :: t)) :
    (x.last = true → t = []) ∧ (x.last = false → WholeFrame t) := by
  obtain ⟨init, l, heq, hinit, hlast⟩ := h
  rcases init with _ | ⟨y, init⟩
  · rw [List.nil_append, List.cons.injEq] at heq
    obtain ⟨rfl, rfl⟩ := heq
    exact ⟨fun _ => rfl, (fun hx => by rw [hlast] at hx; cases hx)⟩
  · rw [List.cons_append, List.cons.injEq] at heq
    obtain ⟨rfl, rfl⟩ := heq
    have hx : x.last = false := hinit x List.mem_cons_self
    refine ⟨(fun hc => by rw [hx] at hc; cases hc), fun _ => ?_⟩
    exact ⟨init, l, rfl, fun y hy => hinit y (List.mem_cons_of_mem _ hy), hlast⟩

namespace ChksumCalcRegs

variable {a b : Nat} (c : ChksumCalcRegs a b) {i : ChksumCalcIn}

/-- The rest of the frame that is going out, with the checksum if it is not yet written. -/
def sealRest : List AxisLine → List AxisLine
  | [] => []
  | l :: t =>
    (if c.csumEnable then { l with data := setField l.data c.csumOffset.toNat (swapBytes c.csum) }
      else l) :: t

/-- A frame is going out, the frames `fs` are behind it. -/
structure Sends (rest : List AxisLine) (fs : List (ChksumCmd × List AxisLine)) : Prop where
  opened : c.frame = true → WholeFrame rest
  closed : c.frame = false → rest = []
  place : c.frame = true → c.csumSplit = false ∧ (c.csumEnable = true → c.csumOffset.toNat + 2 ≤ 64)
  whole : ∀ f ∈ fs, WholeFrame f.2 ∧ f.1.Fit

variable {c}

/-- The checksum of a frame in the registers is what the frame owes. -/
theorem sealRest_responses {f : ChksumCmd × List AxisLine} (hcsum : c.csum = (csumOf f).csum)
    (hoff : c.csumOffset = f.1.offset) (hen : c.csumEnable = f.1.enable) :
    c.sealRest f.2 = ChksumUnit.responses f.1 f.2 := by
  cases hf : f.2 with
  | nil => rfl
  | cons l t =>
    rw [sealRest, ChksumUnit.responses, hen, hoff, hcsum, csumOf, hf, swapBytes_swapBytes]
    split_ifs <;> rfl

theorem moves_frame (h : c.moves = true) : c.frame = true ∧ c.dataFifo.out.valid = true := by
  simp only [moves, dataReady, Bool.and_eq_true] at h
  exact ⟨h.2.2, h.1⟩

/-- A line of an open frame goes out. -/
theorem Sends.moving {rest : List AxisLine} {fs : List (ChksumCmd × List AxisLine)}
    (h : c.Sends rest fs) (hm : c.moves = true) {t : List AxisLine}
    (ht : rest = c.dataFifo.out.data :: t) : (c.cycle i).Sends t fs ∧
      c.sealRest rest = c.int.item ++ (c.cycle i).sealRest t := by
  obtain ⟨hframe, -⟩ := moves_frame hm
  obtain ⟨hsplit, hplace⟩ := h.place hframe
  have hwhole := h.opened hframe
  rw [ht] at hwhole
  obtain ⟨hend, hgo⟩ := hwhole.tail
  have hframe' : (c.cycle i).frame = !c.dataFifo.out.data.last := by simp [cycle, hframe, hm]
  have hen' : (c.cycle i).csumEnable = false := by
    cases hen : c.csumEnable with
    | false => simp [cycle, hframe, hen]
    | true =>
      have hle := hplace hen
      have hlt : c.csumOffset.toNat < 64 := by omega
      have hne : c.csumOffset.toNat ≠ 63 := by omega
      simp [cycle, hframe, hen, hm, hlt, hne]
  have hint : c.int.item = [{ c.dataFifo.out.data with
      data := c.insert c.dataFifo.out.data.data }] := by simp [int, AxisStage.item, hm]
  refine ⟨⟨?_, ?_, ?_, h.whole⟩, ?_⟩
  · intro hf
    exact hgo (by simpa [hframe'] using hf)
  · intro hf
    exact hend (by simpa [hframe'] using hf)
  · intro _
    refine ⟨?_, (fun hc => by rw [hen'] at hc; cases hc)⟩
    cases hen : c.csumEnable with
    | false => simp [cycle, hframe, hsplit, hen]
    | true =>
      have hle := hplace hen
      have hne : c.csumOffset.toNat ≠ 63 := by omega
      simp [cycle, hframe, hsplit, hne]
  · have hrest : (c.cycle i).sealRest t = t := by
      cases t with
      | nil => rfl
      | cons x t => simp [sealRest, hen']
    rw [hrest, hint, ht, sealRest, List.singleton_append]
    cases hen : c.csumEnable with
    | false => simp [insert, hen]
    | true =>
      have hle := hplace hen
      have hlt : ¬ 64 ≤ c.csumOffset.toNat := by omega
      have hne : c.csumOffset.toNat ≠ 63 := by omega
      simp [insert, hm, hen, hlt, hsplit, hne, setByte_setByte]

/-- What goes out in a cycle, and what is left. -/
theorem Sends.cycle {rest more : List AxisLine} {fs : List (ChksumCmd × List AxisLine)}
    (h : c.Sends rest fs)
    (hdata : c.dataFifo.out.valid = true →
      ∃ t, rest ++ framesLines fs ++ more = c.dataFifo.out.data :: t)
    (hcsum : c.csumFifo.out.valid = true → ∃ t, fs.map csumOf = c.csumFifo.out.data :: t) :
    ∃ rest' fs', (c.cycle i).Sends rest' fs' ∧
      (if c.moves then (rest ++ framesLines fs ++ more).tail else rest ++ framesLines fs ++ more) =
        rest' ++ framesLines fs' ++ more ∧
      (if c.csumOutReady && c.csumFifo.out.valid then (fs.map csumOf).tail else fs.map csumOf) =
        fs'.map csumOf ∧
      c.sealRest rest ++ framesSealed fs =
        c.int.item ++ ((c.cycle i).sealRest rest' ++ framesSealed fs') := by
  cases hframe : c.frame with
  | true =>
    have hcr : c.csumOutReady = false := by simp [csumOutReady, hframe]
    cases hm : c.moves with
    | true =>
      obtain ⟨x, t, hx⟩ := List.exists_cons_of_ne_nil (h.opened hframe).ne_nil
      obtain ⟨t', ht'⟩ := hdata (moves_frame hm).2
      have hxd : x = c.dataFifo.out.data := by
        rw [hx, List.cons_append, List.cons_append, List.cons.injEq] at ht'
        exact ht'.1
      rw [hxd] at hx
      obtain ⟨hs, hseal⟩ := h.moving (i := i) hm hx
      refine ⟨t, fs, hs, ?_, by rw [hcr]; rfl, by rw [hseal, List.append_assoc]⟩
      rw [hx]
      rfl
    | false =>
      have hint : c.int.item = [] := by simp [int, AxisStage.item, hm]
      have hseal : (c.cycle i).sealRest rest = c.sealRest rest := by
        cases rest with
        | nil => rfl
        | cons l t => simp [sealRest, ChksumCalcRegs.cycle, hframe, hm]
      have hframe' : (c.cycle i).frame = true := by simp [ChksumCalcRegs.cycle, hframe, hm]
      refine ⟨rest, fs, ⟨fun _ => h.opened hframe, ?_, ?_, h.whole⟩, rfl, by rw [hcr]; rfl, ?_⟩
      · intro hf
        rw [hframe'] at hf
        cases hf
      · intro _
        simpa [ChksumCalcRegs.cycle, hframe, hm] using h.place hframe
      · rw [hint, hseal, List.nil_append]
  | false =>
    have hrest := h.closed hframe
    have hm : c.moves = false := by simp [moves, dataReady, hframe]
    have hint : c.int.item = [] := by simp [int, AxisStage.item, hm]
    have hcr : c.csumOutReady = true := by simp [csumOutReady, hframe]
    subst hrest
    rw [hm, hcr, hint]
    cases hv : c.csumFifo.out.valid with
    | false =>
      have hframe' : (c.cycle i).frame = false := by simp [ChksumCalcRegs.cycle, hframe, hv]
      refine ⟨[], fs, ⟨?_, fun _ => rfl, ?_, h.whole⟩, rfl, rfl, rfl⟩
      · intro hf
        rw [hframe'] at hf
        cases hf
      · intro hf
        rw [hframe'] at hf
        cases hf
    | true =>
      -- the next frame is opened
      obtain ⟨t, ht⟩ := hcsum hv
      obtain ⟨f, fs', rfl, hf, -⟩ := List.map_eq_cons_iff.mp ht
      obtain ⟨hwhole, hfit⟩ := h.whole f List.mem_cons_self
      have hframe' : (c.cycle i).frame = true := by simp [ChksumCalcRegs.cycle, hframe, hv]
      have hcs : (c.cycle i).csum = (csumOf f).csum := by
        simp [ChksumCalcRegs.cycle, hframe, hf]
      have hoff : (c.cycle i).csumOffset = f.1.offset := by
        simp [ChksumCalcRegs.cycle, hframe, ← hf, csumOf]
      have hen : (c.cycle i).csumEnable = f.1.enable := by
        simp [ChksumCalcRegs.cycle, hframe, ← hf, csumOf]
      refine ⟨f.2, fs', ⟨fun _ => hwhole, ?_, ?_, ?_⟩, ?_, rfl, ?_⟩
      · intro hf'
        rw [hframe'] at hf'
        cases hf'
      · intro _
        rw [hen, hoff]
        exact ⟨by simp [ChksumCalcRegs.cycle, hframe], hfit⟩
      · exact fun g hg => h.whole g (List.mem_cons_of_mem _ hg)
      · rw [framesLines, List.flatMap_cons]
        rfl
      · rw [sealRest_responses hcs hoff hen, framesSealed, List.flatMap_cons]
        rfl

end ChksumCalcRegs

/-! ### The unit beside the registers -/

namespace ChksumUnit

variable (u : ChksumUnit)

/-- The frame that ends with the line that is taken. -/
def closing (q : Option AxisLine) : List (ChksumCmd × List AxisLine) :=
  match q with
  | some l => if l.last then [(u.cmd, u.frame ++ [l])] else []
  | none => []

/-- The lines of the open frame afterwards. -/
def frameNext (q : Option AxisLine) : List AxisLine :=
  match q with
  | some l => if l.last then [] else u.frame ++ [l]
  | none => u.frame

variable {u}

theorem lines_next (q : Option AxisLine) :
    u.frame ++ q.toList = framesLines (u.closing q) ++ u.frameNext q := by
  cases q with
  | none => exact List.append_nil _
  | some l => cases hl : l.last <;> simp [closing, frameNext, hl, framesLines]

theorem outNext_eq (q : Option AxisLine) (take : Bool) :
    u.outNext q take = (if take then u.out.tail else u.out) ++ framesSealed (u.closing q) := by
  cases q with
  | none => rfl
  | some l => cases hl : l.last <;> simp [outNext, closing, hl, framesSealed]

end ChksumUnit

/-- The command as the contract has it. -/
def CsumCmd.toUnit (k : CsumCmd) : ChksumCmd := ⟨k.enable, k.offset⟩

namespace ChksumCalcRegs

variable {a b : Nat}

/-- How the registers and the contract belong together: `rest` is left of the frame that goes out,
the frames `fs` lie behind it, `lmd` and `lmc` are in the memories of the FIFOs. -/
structure Shows (c : ChksumCalcRegs a b) (u : ChksumUnit) (rest : List AxisLine)
    (fs : List (ChksumCmd × List AxisLine)) (lmd : List AxisLine) (lmc : List CsumWord) : Prop where
  data : c.dataFifo.Holding lmd
  csums : c.csumFifo.Holding lmc
  dataBrisk : c.dataFifo.Brisk lmd
  brisk : c.csumFifo.Brisk lmc
  pipes : c.dataFifo.pipe.length = 1 ∧ c.csumFifo.pipe.length = 1
  tidy : c.out.Tidy
  fitting : c.Fitting
  sends : c.Sends rest fs
  transfer : u.transferIn = c.transferIn
  plain : c.transferIn = true → c.Plain
  cmd : c.transferIn = true → c.level0.enable = u.cmd.enable ∧ c.level0.offset = u.cmd.offset ∧
    u.cmd.Fit ∧ (c.firstCycle = true ↔ u.frame = [])
  idle : c.transferIn = false → u.frame = []
  opened : ∀ l ∈ u.frame, l.Leading ∧ l.last = false
  lines : c.dataFifo.words lmd = rest ++ framesLines fs ++ u.frame
  chksums : c.csumFifo.words lmc ++ (c.csumIn.item ++ (collect c.sumAcc.toNat c.flight).1) =
    fs.map csumOf
  acc : u.frame ≠ [] → (collect c.sumAcc.toNat c.flight).2 = accOf u.frame
  ends : u.frame = [] → ∀ e ∈ c.flight.getLast?, e.last = true
  out : u.out = c.out.lines ++ (c.sealRest rest ++ framesSealed fs)
  valid : u.valid = c.out.m.valid

variable {c : ChksumCalcRegs a b} {u : ChksumUnit} {rest lmd : List AxisLine}
  {fs : List (ChksumCmd × List AxisLine)} {lmc : List CsumWord} {i : ChksumCalcIn}

theorem length_framesLines (h : ∀ f ∈ fs, WholeFrame f.2 ∧ f.1.Fit) :
    fs.length ≤ (framesLines fs).length := by
  induction fs with
  | nil => exact Nat.le_refl 0
  | cons f t ih =>
    have hf : f.2 ≠ [] := (h f List.mem_cons_self).1.ne_nil
    have hpos := List.length_pos_of_ne_nil hf
    have ht := ih fun g hg => h g (List.mem_cons_of_mem _ hg)
    rw [framesLines] at ht
    rw [framesLines, List.flatMap_cons, List.length_append, List.length_cons]
    omega

/-- The checksum FIFO is full only when nothing is on the way to it. -/
theorem Shows.stalled (h : c.Shows u rest fs lmd lmc) (hb : 0 < b) (hab : a ≤ b)
    (hr : c.csumInReady = false) : c.flight = [] ∧ c.csumIn.item = [] := by
  have hcsums := h.csums.length_of_full h.brisk hb hr
  have hdata := h.data.length_le
  have hpow : 2 ^ a ≤ 2 ^ b := Nat.pow_le_pow_right (by decide) hab
  have hlen := congrArg List.length h.chksums
  have hle := length_framesLines h.sends.whole
  rw [h.lines, h.pipes.1] at hdata
  rw [h.pipes.2] at hcsums
  simp only [List.length_append, List.length_map] at hlen hdata
  have hitem : c.csumIn.item.length = 0 := by omega
  have hcoll : (collect c.sumAcc.toNat c.flight).1.length = 0 := by omega
  have hframe : u.frame.length = 0 := by omega
  have hnone := collect_nil (List.length_eq_zero_iff.mp hcoll)
  have hends := h.ends (List.length_eq_zero_iff.mp hframe)
  refine ⟨?_, List.length_eq_zero_iff.mp hitem⟩
  rcases List.eq_nil_or_concat c.flight with hnil | ⟨t, e, he⟩
  · exact hnil
  · rw [he] at hends hnone
    have hlast := hends e (by simp)
    rw [hnone e (by simp)] at hlast
    cases hlast

/-- The entries after a clock edge, whether the adders run or not. -/
theorem Shows.flight_cycle (h : c.Shows u rest fs lmd lmc) (hb : 0 < b) (hab : a ≤ b) :
    (c.cycle i).Fitting ∧ ∃ mid, (∀ e ∈ mid.getLast?, e ∈ c.flight.getLast?) ∧
      (c.cycle i).flight = mid ++ c.reqEntry i ∧
      (c.cycle i).csumIn.item ++ (collect (c.cycle i).sumAcc.toNat mid).1 =
        (collect c.sumAcc.toNat c.flight).1 ∧
      (collect (c.cycle i).sumAcc.toNat mid).2 = (collect c.sumAcc.toNat c.flight).2 := by
  cases hr : c.csumInReady with
  | true =>
    obtain ⟨hfit, mid, hmid, hrest⟩ := flight_running (i := i) h.fitting h.plain hr
    refine ⟨hfit, mid, ?_, hrest⟩
    intro e he
    rw [hmid, List.getLast?_append, he]
    rfl
  | false =>
    obtain ⟨hflight, -⟩ := h.stalled hb hab hr
    obtain ⟨hfit, hfl, hin, hacc⟩ := flight_stalled (i := i) hr hflight
    have hreq : c.reqEntry i = [] := by simp [reqEntry, req, sReady, hr]
    refine ⟨hfit, [], (fun e he => by cases he), ?_, ?_, ?_⟩
    · rw [hfl, hreq]
      rfl
    · rw [hin, hflight]
      rfl
    · rw [hacc, hflight]

theorem collect_reqEntry (acc : Nat) (es : List SumEntry) : collect acc (es ++ c.reqEntry i) =
    ((collect acc es).1 ++ (collect (collect acc es).2 (c.reqEntry i)).1,
      (collect (collect acc es).2 (c.reqEntry i)).2) := by
  cases hq : c.req i with
  | none => simp [reqEntry, hq, collect]
  | some l =>
    simp only [reqEntry, hq]
    exact collect_append acc es _

/-- What the line that is taken adds to the sums. -/
theorem Shows.collect_req (h : c.Shows u rest fs lmd lmc) (hl : ∀ l ∈ c.req i, l.Leading) :
    (collect (collect c.sumAcc.toNat c.flight).2 (c.reqEntry i)).1 =
        (u.closing (c.req i)).map csumOf ∧
      (u.frameNext (c.req i) ≠ [] →
        (collect (collect c.sumAcc.toNat c.flight).2 (c.reqEntry i)).2 =
          accOf (u.frameNext (c.req i))) := by
  cases hq : c.req i with
  | none =>
    rw [reqEntry, hq]
    exact ⟨rfl, h.acc⟩
  | some l =>
    obtain ⟨-, -, -, ht, -⟩ := req_eq hq
    obtain ⟨hen, hoff, -, hfirst⟩ := h.cmd ht
    have hlead := hl l hq
    have hs : sumAccTemp (lineTotal l)
        (if c.firstCycle then 0 else (collect c.sumAcc.toNat c.flight).2) =
          accOf (u.frame ++ [l]) := by
      rw [accOf_append]
      by_cases hnil : u.frame = []
      · rw [if_pos (hfirst.mpr hnil), hnil]
        rfl
      · rw [if_neg (fun hc => hnil (hfirst.mp hc)), h.acc hnil]
    rw [reqEntry, hq]
    cases hlast : l.last with
    | true =>
      have hchk := frame_chksum h.opened hlead
      simp [collect, hlast, ChksumUnit.closing, ChksumUnit.frameNext, hs, hchk, hen, hoff, csumOf]
    | false =>
      simp [collect, hlast, ChksumUnit.closing, ChksumUnit.frameNext, hs]

/-- The line that was just taken ends a frame, or its frame is open. -/
theorem Shows.ends_cycle (h : c.Shows u rest fs lmd lmc) {mid : List SumEntry}
    (hmid : ∀ e ∈ mid.getLast?, e ∈ c.flight.getLast?) (hnil : u.frameNext (c.req i) = []) :
    ∀ e ∈ (mid ++ c.reqEntry i).getLast?, e.last = true := by
  intro e he
  cases hq : c.req i with
  | none =>
    rw [reqEntry, hq, List.append_nil] at he
    rw [hq] at hnil
    exact h.ends hnil e (hmid e he)
  | some l =>
    cases hlast : l.last with
    | true =>
      rw [reqEntry, hq, List.getLast?_append] at he
      simp only [List.getLast?_singleton, Option.some_or, Option.mem_some] at he
      rw [← he]
      exact hlast
    | false => simp [hq, ChksumUnit.frameNext, hlast] at hnil

/-- What the surroundings keep to: the bytes of a line stand at its top, and the commands have no
start and no initial value. -/
def Allowed (i : ChksumCalcIn) : Prop :=
  (i.sValid = true → i.s.Leading) ∧ ∀ k ∈ i.cmd, k.start = 0 ∧ k.init = 0 ∧ k.toUnit.Fit

instance (i : ChksumCalcIn) : Decidable (Allowed i) := by
  unfold Allowed
  infer_instance

/-- The contract in the same cycle; it presents a line when the registers do. -/
def unitNext (c : ChksumCalcRegs a b) (u : ChksumUnit) (i : ChksumCalcIn) : ChksumUnit :=
  u.step ((c.cmd i).map CsumCmd.toUnit) (c.req i) (i.mReady && c.out.m.valid)
    (c.cycle i).out.m.valid

theorem transferIn_cycle (ht : (c.cycle i).transferIn = true) :
    (∃ k, c.cmd i = some k ∧ c.transferIn = false) ∨
      c.cmd i = none ∧ c.transferIn = true ∧ ∀ l ∈ c.req i, l.last = false := by
  cases hk : c.cmd i with
  | some k => exact .inl ⟨k, rfl, (cmd_eq hk).2⟩
  | none =>
    simp only [cycle, hk, Option.isSome_none, Bool.false_or, Bool.and_eq_true,
      Bool.not_eq_true', Option.any_eq_false] at ht
    refine .inr ⟨rfl, ht.1, fun l hl => ?_⟩
    simpa using ht.2 l hl

theorem Shows.plain_cycle (h : c.Shows u rest fs lmd lmc) (hi : Allowed i)
    (ht : (c.cycle i).transferIn = true) : (c.cycle i).Plain := by
  rcases transferIn_cycle ht with ⟨k, hk, -⟩ | ⟨hk, hin, -⟩
  · obtain ⟨hstart, hinit, -⟩ := hi.2 k (cmd_eq hk).1
    refine ⟨?_, ?_, ?_, ?_⟩
    · simp [cycle, level0Next, hk, hstart]
    · simp [cycle, level0Next, hk, hinit]
    · simp [cycle, maskNext, hk, maskCmd, hstart]
    · simp [cycle, maskNext, hk, maskCmd, hstart]
  · obtain ⟨hodd, hinit, hmask, hoff⟩ := h.plain hin
    refine ⟨?_, ?_, ?_, ?_⟩
    · simp [cycle, level0Next, hk, hodd]
    · simp [cycle, level0Next, hk, hinit]
    · cases hq : c.req i <;> simp [cycle, maskNext, hk, hq, maskReq, hoff, hmask]
    · cases hq : c.req i <;> simp [cycle, maskNext, hk, hq, maskReq, hoff]

theorem Shows.cmd_cycle (h : c.Shows u rest fs lmd lmc) (hi : Allowed i)
    (ht : (c.cycle i).transferIn = true) :
    (c.cycle i).level0.enable = (unitNext c u i).cmd.enable ∧
      (c.cycle i).level0.offset = (unitNext c u i).cmd.offset ∧ (unitNext c u i).cmd.Fit ∧
      ((c.cycle i).firstCycle = true ↔ u.frameNext (c.req i) = []) := by
  rcases transferIn_cycle ht with ⟨k, hk, hin⟩ | ⟨hk, hin, hlast⟩
  · obtain ⟨-, -, hfit⟩ := hi.2 k (cmd_eq hk).1
    have hq : c.req i = none := req_none hin
    have hcmd : (unitNext c u i).cmd = k.toUnit := by simp [unitNext, ChksumUnit.step, hk]
    rw [hcmd, hq]
    refine ⟨?_, ?_, hfit, ?_⟩
    · simp [cycle, level0Next, hk, CsumCmd.toUnit]
    · simp [cycle, level0Next, hk, CsumCmd.toUnit]
    · simp [cycle, hk, ChksumUnit.frameNext, h.idle hin]
  · obtain ⟨hen, hoff, hfit, hfirst⟩ := h.cmd hin
    have hcmd : (unitNext c u i).cmd = u.cmd := by simp [unitNext, ChksumUnit.step, hk]
    rw [hcmd]
    refine ⟨?_, ?_, hfit, ?_⟩
    · simp [cycle, level0Next, hk, hen]
    · simp [cycle, level0Next, hk, hoff]
    · cases hq : c.req i with
      | none => simpa [cycle, hk, hq, ChksumUnit.frameNext] using hfirst
      | some l => simp [cycle, hk, hq, ChksumUnit.frameNext, hlast l hq]

theorem Shows.idle_cycle (h : c.Shows u rest fs lmd lmc) (ht : (c.cycle i).transferIn = false) :
    u.frameNext (c.req i) = [] := by
  cases hin : c.transferIn with
  | false =>
    rw [req_none hin]
    exact h.idle hin
  | true =>
    simp only [cycle, hin, Bool.true_and, Bool.or_eq_false_iff, Bool.not_eq_false'] at ht
    cases hq : c.req i with
    | none => simp [hq] at ht
    | some l =>
      have hl : l.last = true := by simpa [hq] using ht.2
      simp [ChksumUnit.frameNext, hl]

theorem Shows.opened_cycle (h : c.Shows u rest fs lmd lmc) (hl : ∀ l ∈ c.req i, l.Leading) :
    ∀ l ∈ u.frameNext (c.req i), l.Leading ∧ l.last = false := by
  cases hq : c.req i with
  | none => exact h.opened
  | some l =>
    intro x hx
    cases hlast : l.last with
    | true => simp [ChksumUnit.frameNext, hlast] at hx
    | false =>
      simp only [ChksumUnit.frameNext, hlast, Bool.false_eq_true, if_false, List.mem_append,
        List.mem_singleton] at hx
      rcases hx with hx | rfl
      · exact h.opened x hx
      · exact ⟨hl x hq, hlast⟩

/-- The frame that ends is whole, and its checksum fits. -/
theorem Shows.closing_whole (h : c.Shows u rest fs lmd lmc) :
    ∀ f ∈ u.closing (c.req i), WholeFrame f.2 ∧ f.1.Fit := by
  intro f hf
  cases hq : c.req i with
  | none =>
    rw [hq] at hf
    cases hf
  | some l =>
    obtain ⟨-, -, -, ht, -⟩ := req_eq hq
    rw [hq] at hf
    cases hlast : l.last with
    | false => simp [ChksumUnit.closing, hlast] at hf
    | true =>
      simp only [ChksumUnit.closing, hlast, if_true, List.mem_singleton] at hf
      subst hf
      exact ⟨⟨u.frame, l, rfl, fun x hx => (h.opened x hx).2, hlast⟩, (h.cmd ht).2.2.1⟩

/-- The FIFO takes what the input gives it. -/
theorem taken_req : c.dataFifo.taken ⟨c.req i, c.dataReady⟩ = c.req i := by
  cases hq : c.req i with
  | none => simp [AxisFifo.taken]
  | some l =>
    obtain ⟨-, -, hready, -⟩ := req_eq hq
    simp only [sReady, Bool.and_eq_true] at hready
    simp [AxisFifo.taken, hready.1.1]

/-- No checksum waits before the checksum FIFO. -/
theorem Shows.taken_csum (h : c.Shows u rest fs lmd lmc) (hb : 0 < b) (hab : a ≤ b) :
    (c.csumFifo.taken ⟨if c.csumIn.valid then some c.csumIn.data else none, c.csumOutReady⟩).toList =
      c.csumIn.item := by
  cases hr : c.csumInReady with
  | true =>
    have hr' : c.csumFifo.sReady = true := hr
    cases hv : c.csumIn.valid <;> simp [AxisFifo.taken, hr', AxisStage.item, hv]
  | false =>
    obtain ⟨-, hitem⟩ := h.stalled hb hab hr
    have hr' : c.csumFifo.sReady = false := hr
    rw [hitem]
    simp [AxisFifo.taken, hr']

theorem framesLines_append (fs gs : List (ChksumCmd × List AxisLine)) :
    framesLines (fs ++ gs) = framesLines fs ++ framesLines gs := List.flatMap_append

theorem framesSealed_append (fs gs : List (ChksumCmd × List AxisLine)) :
    framesSealed (fs ++ gs) = framesSealed fs ++ framesSealed gs := List.flatMap_append

/-- The contract presents a line when the registers do. -/
theorem valid_unitNext (hv : u.valid = c.out.m.valid)
    (hne : (c.cycle i).out.m.valid = true → (unitNext c u i).out ≠ []) :
    (unitNext c u i).valid = (c.cycle i).out.m.valid := by
  have hdef : (unitNext c u i).valid =
      ((u.valid && !(i.mReady && c.out.m.valid)) ||
        ((c.cycle i).out.m.valid && !(unitNext c u i).out.isEmpty)) := rfl
  rw [hdef, hv]
  cases hv' : (c.cycle i).out.m.valid with
  | true => simp [hne hv']
  | false =>
    cases hm : c.out.m.valid with
    | false => simp
    | true =>
      cases hr : i.mReady with
      | true => simp
      | false =>
        have hstay : (c.cycle i).out.m = c.out.m := AxisOutput.stays hr hm
        rw [hstay, hm] at hv'
        cases hv'

/-- One cycle of the registers is one cycle of the contract. -/
theorem Shows.cycle (h : c.Shows u rest fs lmd lmc) (hb : 0 < b) (hab : a ≤ b) (hi : Allowed i) :
    ∃ rest' fs' lmd' lmc', (c.cycle i).Shows (unitNext c u i) rest' fs' lmd' lmc' := by
  have hlead : ∀ l ∈ c.req i, l.Leading := by
    intro l hl
    obtain ⟨hs, rfl, -⟩ := req_eq hl
    exact hi.1 hs
  have hint : c.int.valid = true → c.out.readyInt = true := by
    intro hv
    have hm : c.moves = true := hv
    simp only [moves, dataReady, Bool.and_eq_true] at hm
    exact hm.2.1
  have hdata : c.dataFifo.out.valid = true →
      ∃ t, rest ++ framesLines fs ++ u.frame = c.dataFifo.out.data :: t := by
    intro hv
    rw [← h.lines, AxisFifo.words_of_valid hv]
    exact ⟨_, rfl⟩
  have hcsum : c.csumFifo.out.valid = true → ∃ t, fs.map csumOf = c.csumFifo.out.data :: t := by
    intro hv
    rw [← h.chksums, AxisFifo.words_of_valid hv]
    exact ⟨_, rfl⟩
  obtain ⟨rest', fs', hsends, hlines, hchk, hseal⟩ := h.sends.cycle (i := i) hdata hcsum
  obtain ⟨hfit, mid, hmid, hflight, hin, hacc⟩ := h.flight_cycle (i := i) hb hab
  obtain ⟨hnew, hnewacc⟩ := h.collect_req hlead
  have hwhole := h.closing_whole (i := i)
  have hout : (unitNext c u i).out = (c.cycle i).out.lines ++
      ((c.cycle i).sealRest rest' ++ framesSealed (fs' ++ u.closing (c.req i))) := by
    show u.outNext _ _ = (c.out.cycle c.int i.mReady).lines ++ _
    rw [ChksumUnit.outNext_eq, h.tidy.lines_cycle hint, h.out, hseal, framesSealed_append]
    cases ht : i.mReady && c.out.m.valid with
    | false => simp
    | true =>
      rw [Bool.and_eq_true] at ht
      have hne := h.tidy.valid_iff.mp ht.2
      rw [if_pos rfl, if_pos rfl, List.tail_append_of_ne_nil hne]
      simp
  refine ⟨rest', fs' ++ u.closing (c.req i), _, _, h.data.cycle (i := ⟨c.req i, c.dataReady⟩),
    h.csums.cycle (i := ⟨if c.csumIn.valid then some c.csumIn.data else none, c.csumOutReady⟩),
    h.data.brisk_cycle h.dataBrisk, h.csums.brisk_cycle h.brisk, ?_, h.tidy.cycle hint, hfit,
    ⟨hsends.opened, hsends.closed, hsends.place, ?_⟩, ?_, h.plain_cycle hi, h.cmd_cycle hi,
    h.idle_cycle, h.opened_cycle hlead, ?_, ?_, ?_, ?_, hout, valid_unitNext h.valid ?_⟩
  · show (AxisStage.advance _ _ _).length = 1 ∧ (AxisStage.advance _ _ _).length = 1
    rw [AxisStage.length_advance, AxisStage.length_advance]
    exact h.pipes
  · intro f hf
    rcases List.mem_append.mp hf with hf | hf
    · exact hsends.whole f hf
    · exact hwhole f hf
  · simp [unitNext, ChksumUnit.step, ChksumCalcRegs.cycle, h.transfer]
  · show (c.dataFifo.cycle _).words _ = _
    have hcond : (c.dataReady && c.dataFifo.out.valid) = c.moves := Bool.and_comm _ _
    have hnext := u.lines_next (c.req i)
    rw [h.data.words_cycle, taken_req, hcond, h.lines, hlines, List.append_assoc, hnext,
      framesLines_append]
    simp only [List.append_assoc]
    rfl
  · show (c.csumFifo.cycle _).words _ ++ _ = _
    rw [h.csums.words_cycle, h.taken_csum hb hab, hflight, List.map_append, ← hchk, ← h.chksums]
    rw [collect_reqEntry, hacc, hnew, ← hin]
    cases hpop : c.csumOutReady && c.csumFifo.out.valid with
    | false => simp
    | true =>
      rw [Bool.and_eq_true] at hpop
      rw [AxisFifo.words_of_valid hpop.2]
      simp
  · intro hne
    rw [hflight, collect_reqEntry, hacc]
    exact hnewacc hne
  · intro hnil
    rw [hflight]
    exact h.ends_cycle hmid hnil
  · intro hv
    rw [hout]
    have hne := (h.tidy.cycle hint).valid_iff.mp hv
    exact fun hc => hne (List.append_eq_nil_iff.mp hc).1

/-- After reset nothing is held. -/
theorem shows_init (h : c.Init) (hu : u.Reset) : c.Shows u [] [] [] [] := by
  obtain ⟨hd, hc, hpd, hpc, ht, hin, hf, h0, h1, h2, h3, h4, hr, hm, htemp⟩ := h
  obtain ⟨hut, huf, huo, huv⟩ := hu
  obtain ⟨hdh, hdw⟩ := AxisFifo.holding_init hd
  obtain ⟨hch, hcw⟩ := AxisFifo.holding_init hc
  have hflight : c.flight = [] := by simp [flight, SumLevel.entry, h0, h1, h2, h3, h4]
  have hlines : c.out.lines = [] := by simp [AxisOutput.lines, AxisStage.item, hm, htemp]
  have hitem : c.csumIn.item = [] := by simp [AxisStage.item, hin]
  refine ⟨hdh, hch, AxisFifo.brisk_nil, AxisFifo.brisk_nil, ⟨hpd, hpc⟩, ⟨by simp [htemp], by simp [hr]⟩,
    ⟨by simp [h0], by simp [h1], by simp [h2], by simp [h3], by simp [h4]⟩,
    ⟨by simp [hf], fun _ => rfl, by simp [hf], by simp⟩, by rw [hut, ht], by simp [ht], by simp [ht],
    fun _ => huf, by simp [huf], ?_, ?_, by simp [huf], ?_, ?_, by rw [huv, hm]⟩
  · rw [hdw, huf]
    rfl
  · rw [hcw, hitem, hflight]
    rfl
  · rw [hflight]
    intro _ e he
    cases he
  · rw [huo, hlines]
    rfl

end ChksumCalcRegs

/-- The registers and the contract side by side. -/
structure ChksumPair (a b : Nat) where
  regs : ChksumCalcRegs a b
  unit : ChksumUnit

namespace ChksumPair

variable {a b : Nat}

def step (s : ChksumPair a b) (i : ChksumCalcIn) : Option (ChksumPair a b) :=
  some ⟨s.regs.cycle i, ChksumCalcRegs.unitNext s.regs s.unit i⟩

/-- After reset. -/
def Init (s : ChksumPair a b) : Prop := s.regs.Init ∧ s.unit.Reset

def Allowed (_ : ChksumPair a b) (i : ChksumCalcIn) : Prop := ChksumCalcRegs.Allowed i

instance (s : ChksumPair a b) (i : ChksumCalcIn) : Decidable (Allowed s i) :=
  inferInstanceAs (Decidable (ChksumCalcRegs.Allowed i))

/-- All that the surroundings see of the registers is what the contract says. -/
structure Refines (s : ChksumPair a b) : Prop where
  cmdRdy : s.regs.cmdReady = s.unit.cmdRdy
  resp : s.regs.resp = s.unit.resp
  reqRdy : s.regs.sReady = true → s.unit.transferIn = true

variable {s : ChksumPair a b}

theorem shows_of_reach (hb : 0 < b) (hab : a ≤ b) (h : Reach Init step Allowed s) :
    ∃ rest fs lmd lmc, s.regs.Shows s.unit rest fs lmd lmc := by
  refine h.invariant (I := fun s => ∃ rest fs lmd lmc, s.regs.Shows s.unit rest fs lmd lmc) ?_ ?_
  · intro s hs
    exact ⟨_, _, _, _, ChksumCalcRegs.shows_init hs.1 hs.2⟩
  · rintro s i s' ⟨rest, fs, lmd, lmc, hi⟩ hok hs
    cases hs
    exact hi.cycle hb hab hok

/-- With a checksum FIFO at least as deep as the data FIFO, `chksum_calc` does what its contract
says, for any frames, any schedule and any time at which the output is taken. -/
theorem chksum_calc_refines (hb : 0 < b) (hab : a ≤ b) (h : Reach Init step Allowed s) :
    Refines s := by
  obtain ⟨rest, fs, lmd, lmc, hi⟩ := shows_of_reach hb hab h
  refine ⟨?_, ?_, ?_⟩
  · rw [ChksumCalcRegs.cmdReady, ChksumUnit.cmdRdy, hi.transfer]
  · rw [ChksumCalcRegs.resp, hi.tidy.shown_eq, ChksumUnit.resp, hi.valid, hi.out]
    have hvalid := hi.tidy.valid_iff
    cases hl : s.regs.out.lines with
    | nil =>
      have hv : s.regs.out.m.valid = false := by
        rw [Bool.eq_false_iff]
        exact fun hc => hvalid.mp hc hl
      rw [hv]
      rfl
    | cons x t =>
      have hv : s.regs.out.m.valid = true := hvalid.mpr (by rw [hl]; exact List.cons_ne_nil _ _)
      rw [hv]
      rfl
  · intro hr
    rw [hi.transfer]
    simp only [ChksumCalcRegs.sReady, Bool.and_eq_true] at hr
    exact hr.2

/-- The registers after reset, with zeros everywhere. -/
def zeros (a b : Nat) : ChksumPair a b where
  regs :=
    let noLine : AxisStage AxisLine := ⟨false, default⟩
    let noCsum : AxisStage CsumWord := ⟨false, ⟨0, 0, false⟩⟩
    let level : SumLevel := ⟨false, false, false, false, 0, 0, false, []⟩
    { dataFifo := ⟨0, 0, 0, fun _ => default, noLine, [noLine]⟩
      csumFifo := ⟨0, 0, 0, fun _ => ⟨0, 0, false⟩, noCsum, [noCsum]⟩
      transferIn := false, csumIn := noCsum, mask := 0, firstCycle := false, inputOffset := 0
      frame := false, csum := 0, csumOffset := 0, csumEnable := false, csumSplit := false
      level0 := level, level1 := level, level2 := level, level3 := level, level4 := level
      sumAcc := 0, out := ⟨false, noLine, noLine⟩ }
  unit := ⟨false, ⟨false, 0⟩, [], [], false⟩

theorem init_zeros : Init (zeros a b) := by
  refine ⟨⟨⟨rfl, rfl, rfl, ?_⟩, ⟨rfl, rfl, rfl, ?_⟩, rfl, rfl, rfl, rfl, rfl, rfl, rfl, rfl, rfl, rfl,
    rfl, rfl, rfl⟩, rfl, rfl, rfl, rfl⟩
  · simp [zeros, AxisFifo.stages]
  · simp [zeros, AxisFifo.stages]

/-- A frame of one line, of which all bytes but two are zero, comes out with its checksum. -/
theorem chksum_calc_refines_frame : ∃ s : ChksumPair 2 6, Reach Init step Allowed s ∧
    s.regs.resp = some ⟨0x1234#512 <<< 496 ||| 0xedcb#512, BitVec.allOnes 64, true, 0⟩ ∧
    Refines s := by
  let quiet : ChksumCalcIn := ⟨false, default, none, false⟩
  have hrun : ∃ s : ChksumPair 2 6, Reach Init step Allowed s ∧ decide (s.regs.resp =
      some ⟨0x1234#512 <<< 496 ||| 0xedcb#512, BitVec.allOnes 64, true, 0⟩) = true :=
    Reach.exists_of_run
      (⟨false, default, some ⟨true, 0, 0, 0⟩, false⟩ ::
        ⟨true, ⟨0x1234#512 <<< 496, BitVec.allOnes 64, true, 0⟩, none, false⟩ ::
        List.replicate 12 quiet) init_zeros (by decide +kernel)
  obtain ⟨s, hs, hp⟩ := hrun
  exact ⟨s, hs, decide_eq_true_iff.mp hp, chksum_calc_refines (by decide) (by decide) hs⟩

end ChksumPair

end TcpHw
