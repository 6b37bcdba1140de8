import Mathlib.Data.List.Induction
import TcpHw.Lib.Trace
import TcpHw.Common.PacketQueue

/-!
# Only whole frames are read

What `packet_queue_controller` has committed follows from the lines written to it and from
which of them met a full buffer; when lines are read does not matter beyond that. The reader
gets the committed frames one after the other. A frame is committed whole, except for one
case the controller gets wrong: a frame of a single line that starts inside an open frame is
committed together with the part of the other frame before it.
-/
namespace TcpHw

open Trace

set_option autoImplicit false

variable {n : Nat} {α : Type}

/-- Exactly the first line starts the frame and exactly the last one ends it. -/
structure Whole (f : List (FrameLine α)) : Prop where
  first : ∃ l g, f = l :: g ∧ l.startFrame = true ∧ ∀ x ∈ g, x.startFrame = false
  last : ∃ g l, f = g ++ [l] ∧ l.endFrame = true ∧ ∀ x ∈ g, x.endFrame = false

/-- A frame up to some line before its last. -/
structure Started (f : List (FrameLine α)) : Prop where
  first : ∃ l g, f = l :: g ∧ l.startFrame = true ∧ ∀ x ∈ g, x.startFrame = false
  noEnd : ∀ x ∈ f, x.endFrame = false

/-- Disjoint runs of consecutive elements of a list, in order. -/
inductive Pieces {β : Type} : List β → List (List β) → Prop
  | nil : Pieces [] []
  | skip {w : List β} {fs : List (List β)} (x : β) : Pieces w fs → Pieces (w ++ [x]) fs
  | piece {w : List β} {fs : List (List β)} (f : List β) : Pieces w fs → Pieces (w ++ f) (fs ++ [f])

/-- The controller with the lines written so far, each with `full` at that time, and the
lines read. -/
structure PqRun (n : Nat) (α : Type) where
  ctl : PacketQueueController n α
  written : List (FrameLine α × Bool)
  read : List α

namespace PqRun

def step (s : PqRun n α) (i : PqIn α) : PqRun n α where
  ctl := s.ctl.step i
  written := s.written ++ (i.wr.map fun l => (l, s.ctl.queue.full)).toList
  read := s.read ++ if i.rdReq then s.ctl.queue.rdData.toList else []

/-- Nothing is read from an empty queue. -/
def cycle (s : PqRun n α) (i : PqIn α) : Option (PqRun n α) :=
  if i.rdReq = true → s.ctl.queue.empty = false then some (s.step i) else none

def Init (s : PqRun n α) : Prop := s.ctl.Init ∧ s.written = [] ∧ s.read = []

/-- The pointers are in order, and the lines read, with those that may be read next, are
whole frames out of the written stream. If that stream consists of whole frames, it is
those of which no line met a full buffer. -/
structure Delivers (s : PqRun n α) (frames : List (List (FrameLine α))) : Prop where
  order : (s.ctl.queue.cmPtr - s.ctl.queue.rdPtr).toNat ≤
      (s.ctl.queue.wrPtr - s.ctl.queue.rdPtr).toNat ∧
    (s.ctl.queue.wrPtr - s.ctl.queue.rdPtr).toNat ≤ 2 ^ n
  pieces : Pieces (s.written.map Prod.fst) frames
  whole : ∀ f ∈ frames, Whole f
  read : ∃ rest, frames.flatten.map FrameLine.data = s.read ++ rest ∧
    rest.length = (s.ctl.queue.cmPtr - s.ctl.queue.rdPtr).toNat
  exact : ∀ (fs : List (List (FrameLine α × Bool))) (rest : List (FrameLine α × Bool)),
    fs.flatten ++ rest = s.written → (∀ f ∈ fs, Whole (f.map Prod.fst)) →
    rest = [] ∨ Started (rest.map Prod.fst) →
      frames = (fs.filter fun f => f.all fun x => !x.2).map (List.map Prod.fst)

/-- The condition of a run: no frame of one line starts inside an open frame, unless the
buffer is full. -/
def NoSingleInside (s : PqRun n α) (i : PqIn α) : Prop :=
  ∀ l ∈ i.wr, s.ctl.state = .writingFrame → s.ctl.queue.full = false →
    ¬ (l.startFrame = true ∧ l.endFrame = true)

instance (s : PqRun n α) (i : PqIn α) : Decidable (NoSingleInside s i) :=
  inferInstanceAs (Decidable (∀ l ∈ i.wr, _))

end PqRun

/-! ### The frames of a written stream -/

/-- What the controller has made of a stream: the lines of the open frame and the committed
frames. -/
structure Framer (α : Type) where
  state : PqState
  opened : List (FrameLine α)
  frames : List (List (FrameLine α))

namespace Framer

def start : Framer α where
  state := .ready
  opened := []
  frames := []

def take (f : Framer α) (x : FrameLine α × Bool) : Framer α where
  state := (pqControl f.state x.2 x.1).stateNext
  opened :=
    if (pqControl f.state x.2 x.1).cmtPacket then []
    else (if (pqControl f.state x.2 x.1).dumpPacket then [] else f.opened) ++
      if (pqControl f.state x.2 x.1).bufferWrReq then [x.1] else []
  frames :=
    if (pqControl f.state x.2 x.1).cmtPacket then f.frames ++ [f.opened ++ [x.1]] else f.frames

/-- The framing of a whole stream. -/
def of (w : List (FrameLine α × Bool)) : Framer α := w.foldl take start

theorem of_append (w : List (FrameLine α × Bool)) (x : FrameLine α × Bool) :
    of (w ++ [x]) = (of w).take x := by
  simp [of]

/-- What one line can do. -/
inductive Takes (f : Framer α) (l : FrameLine α) (full : Bool) : Framer α → Prop
  | ignore (closed : f.state ≠ .writingFrame)
      (quiet : f.state = .ready → full = true ∨ l.startFrame = false) {st : PqState}
      (next : st ≠ .writingFrame) (ends : l.endFrame = true → st = .ready) :
      Takes f l full { f with state := st }
  | opens (ready : f.state = .ready) (room : full = false) (first : l.startFrame = true)
      (more : l.endFrame = false) :
      Takes f l full { f with state := .writingFrame, opened := f.opened ++ [l] }
  | single (ready : f.state = .ready) (room : full = false) (first : l.startFrame = true)
      (last : l.endFrame = true) :
      Takes f l full { state := .ready, opened := [], frames := f.frames ++ [f.opened ++ [l]] }
  | overflow (writing : f.state = .writingFrame) (exceeds : full = true) {st : PqState}
      (next : st ≠ .writingFrame) (ends : l.endFrame = true → st = .ready) :
      Takes f l full { f with state := st, opened := [] }
  | commit (writing : f.state = .writingFrame) (room : full = false) (last : l.endFrame = true) :
      Takes f l full { state := .ready, opened := [], frames := f.frames ++ [f.opened ++ [l]] }
  | restart (writing : f.state = .writingFrame) (room : full = false)
      (first : l.startFrame = true) (more : l.endFrame = false) :
      Takes f l full { f with opened := [l] }
  | line (writing : f.state = .writingFrame) (room : full = false)
      (inner : l.startFrame = false) (more : l.endFrame = false) :
      Takes f l full { f with opened := f.opened ++ [l] }

theorem take_cases (f : Framer α) (l : FrameLine α) (full : Bool) :
    Takes f l full (f.take (l, full)) := by
  cases hst : f.state with
  | ready =>
    by_cases hw : full = false ∧ l.startFrame = true
    · cases he : l.endFrame with
      | false =>
        have ht : f.take (l, full) =
            { f with state := .writingFrame, opened := f.opened ++ [l] } := by
          simp [take, pqControl, hst, hw, he, PqCtl.idle]
        rw [ht]
        exact .opens hst hw.1 hw.2 he
      | true =>
        have ht : f.take (l, full) =
            { state := .ready, opened := [], frames := f.frames ++ [f.opened ++ [l]] } := by
          simp [take, pqControl, hst, hw, he, PqCtl.idle]
        rw [ht]
        exact .single hst hw.1 hw.2 he
    · have hidle : (!full && l.startFrame) = false := by
        cases full <;> cases hl : l.startFrame <;> simp_all
      have ht : f.take (l, full) = { f with state := .ready } := by
        simp [take, pqControl, hst, hidle, PqCtl.idle]
      rw [ht]
      refine .ignore (by simp [hst]) (fun _ => ?_) (fun h => by cases h) fun _ => rfl
      cases full <;> simp_all
  | writingFrame =>
    cases full with
    | true =>
      have ht : f.take (l, true) =
          { f with state := if l.endFrame then .ready else .passFrame, opened := [] } := by
        simp [take, pqControl, hst, PqCtl.idle]
      rw [ht]
      refine .overflow hst rfl ?_ fun he => by simp [he]
      split <;> simp
    | false =>
      cases he : l.endFrame with
      | true =>
        have ht : f.take (l, false) =
            { state := .ready, opened := [], frames := f.frames ++ [f.opened ++ [l]] } := by
          simp [take, pqControl, hst, he, PqCtl.idle]
        rw [ht]
        exact .commit hst rfl he
      | false =>
        cases hs : l.startFrame with
        | true =>
          have ht : f.take (l, false) = { f with opened := [l] } := by
            simp [take, pqControl, hst, he, hs, PqCtl.idle]
          rw [ht]
          exact .restart hst rfl hs he
        | false =>
          have ht : f.take (l, false) = { f with opened := f.opened ++ [l] } := by
            simp [take, pqControl, hst, he, hs, PqCtl.idle]
          rw [ht]
          exact .line hst rfl hs he
  | passFrame =>
    have ht : f.take (l, full) =
        { f with state := if l.endFrame then .ready else .passFrame } := by
      simp [take, pqControl, hst, PqCtl.idle]
    rw [ht]
    refine .ignore (by simp [hst]) (by simp [hst]) ?_ fun he => by simp [he]
    split <;> simp

/-! ### Committed frames are whole -/

/-- Between frames nothing is open, and an open frame has its first line and not its last. -/
structure Sound (f : Framer α) : Prop where
  closed : f.state ≠ .writingFrame → f.opened = []
  started : f.state = .writingFrame → Started f.opened
  whole : ∀ g ∈ f.frames, Whole g

theorem sound_start : Sound (start : Framer α) :=
  ⟨fun _ => rfl, (fun h => by cases h), by simp [start]⟩

theorem started_singleton {l : FrameLine α} (hs : l.startFrame = true) (he : l.endFrame = false) :
    Started [l] :=
  ⟨⟨l, [], rfl, hs, by simp⟩, by simp [he]⟩

theorem started_snoc {o : List (FrameLine α)} (h : Started o) {l : FrameLine α}
    (hs : l.startFrame = false) (he : l.endFrame = false) : Started (o ++ [l]) := by
  obtain ⟨⟨a, g, rfl, ha, hg⟩, hend⟩ := h
  refine ⟨⟨a, g ++ [l], rfl, ha, ?_⟩, ?_⟩
  · intro x hx
    rcases List.mem_append.mp hx with hx | hx
    · exact hg x hx
    · rw [List.mem_singleton.mp hx, hs]
  · intro x hx
    rcases List.mem_append.mp hx with hx | hx
    · exact hend x hx
    · rw [List.mem_singleton.mp hx, he]

theorem whole_singleton {l : FrameLine α} (hs : l.startFrame = true) (he : l.endFrame = true) :
    Whole [l] :=
  ⟨⟨l, [], rfl, hs, by simp⟩, ⟨[], l, rfl, he, by simp⟩⟩

theorem whole_snoc {o : List (FrameLine α)} (h : Started o) {l : FrameLine α}
    (hs : l.startFrame = false) (he : l.endFrame = true) : Whole (o ++ [l]) := by
  obtain ⟨⟨a, g, rfl, ha, hg⟩, hend⟩ := h
  refine ⟨⟨a, g ++ [l], rfl, ha, ?_⟩, ⟨a :: g, l, rfl, he, hend⟩⟩
  intro x hx
  rcases List.mem_append.mp hx with hx | hx
  · exact hg x hx
  · rw [List.mem_singleton.mp hx, hs]

theorem whole_concat {fs : List (List (FrameLine α))} (h : ∀ g ∈ fs, Whole g)
    {f : List (FrameLine α)} (hf : Whole f) : ∀ g ∈ fs ++ [f], Whole g := by
  intro g hg
  rcases List.mem_append.mp hg with hg | hg
  · exact h g hg
  · rw [List.mem_singleton.mp hg]
    exact hf

/-- A line keeps the frames whole unless it is a frame of its own inside an open one. -/
theorem Sound.take {f : Framer α} (h : Sound f) {l : FrameLine α} {full : Bool}
    (hok : f.state = .writingFrame → full = false → ¬ (l.startFrame = true ∧ l.endFrame = true)) :
    Sound (f.take (l, full)) := by
  have ht := take_cases f l full
  generalize f.take (l, full) = f' at ht ⊢
  cases ht with
  | ignore closed _ next => exact ⟨fun _ => h.closed closed, fun hw => absurd hw next, h.whole⟩
  | opens ready _ first more =>
    have hop := h.closed (by simp [ready])
    refine ⟨fun hw => absurd rfl hw, fun _ => ?_, h.whole⟩
    rw [hop]
    exact started_singleton first more
  | single ready _ first last =>
    have hop := h.closed (by simp [ready])
    refine ⟨fun _ => rfl, (fun h => by cases h), whole_concat h.whole ?_⟩
    rw [hop]
    exact whole_singleton first last
  | overflow _ _ next => exact ⟨fun _ => rfl, fun hw => absurd hw next, h.whole⟩
  | commit writing room last =>
    have hinner : l.startFrame = false := by
      by_contra hs
      exact hok writing room ⟨by simpa using hs, last⟩
    exact ⟨fun _ => rfl, (fun h => by cases h),
      whole_concat h.whole (whole_snoc (h.started writing) hinner last)⟩
  | restart writing _ first more =>
    exact ⟨fun hw => absurd writing hw, fun _ => started_singleton first more, h.whole⟩
  | line writing _ inner more =>
    exact ⟨fun hw => absurd writing hw, fun _ => started_snoc (h.started writing) inner more,
      h.whole⟩

/-! ### Frames are pieces of the stream -/

/-- The open frame is the end of what has been written, and the committed ones are pieces of
what is before it. -/
def Placed (f : Framer α) (w : List (FrameLine α)) : Prop :=
  ∃ prior, w = prior ++ f.opened ∧ Pieces prior f.frames

theorem pieces_skip {β : Type} {w : List β} {fs : List (List β)} (h : Pieces w fs) (g : List β) :
    Pieces (w ++ g) fs := by
  induction g using List.reverseRecOn with
  | nil => simpa using h
  | append_singleton g x ih =>
    rw [← List.append_assoc]
    exact ih.skip x

theorem Placed.take {f : Framer α} {w : List (FrameLine α)} (h : Placed f w) (hs : Sound f)
    (l : FrameLine α) (full : Bool) : Placed (f.take (l, full)) (w ++ [l]) := by
  obtain ⟨prior, rfl, hp⟩ := h
  have ht := take_cases f l full
  generalize f.take (l, full) = f' at ht ⊢
  cases ht with
  | ignore closed =>
    have hop := hs.closed closed
    exact ⟨prior ++ [l], by simp [hop], hp.skip l⟩
  | opens => exact ⟨prior, by simp, hp⟩
  | line => exact ⟨prior, by simp, hp⟩
  | overflow => exact ⟨prior ++ (f.opened ++ [l]), by simp, pieces_skip hp _⟩
  | single => exact ⟨prior ++ (f.opened ++ [l]), by simp, hp.piece _⟩
  | commit => exact ⟨prior ++ (f.opened ++ [l]), by simp, hp.piece _⟩
  | restart => exact ⟨prior ++ f.opened, by simp, pieces_skip hp _⟩

/-! ### Streams of whole frames -/

/-- The controller after a part of one frame, begun between frames: it has the part open if
there was room for every line, and has given the frame up otherwise. -/
structure Partial (f : Framer α) (g : List (FrameLine α × Bool))
    (frames : List (List (FrameLine α))) : Prop where
  frames : f.frames = frames
  kept : (g.all fun x => !x.2) = true → f.state = .writingFrame ∧ f.opened = g.map Prod.fst
  lost : (g.all fun x => !x.2) = false → f.state ≠ .writingFrame ∧ f.opened = []

theorem Partial.line {f : Framer α} {g : List (FrameLine α × Bool)}
    {fs : List (List (FrameLine α))} (h : Partial f g fs) {l : FrameLine α} (full : Bool)
    (hs : l.startFrame = false) (he : l.endFrame = false) :
    Partial (f.take (l, full)) (g ++ [(l, full)]) fs := by
  have ht := take_cases f l full
  generalize f.take (l, full) = f' at ht ⊢
  cases hall : g.all fun x => !x.2 with
  | true =>
    obtain ⟨hw, hop⟩ := h.kept hall
    cases ht with
    | ignore closed => exact absurd hw closed
    | opens ready | single ready => simp [hw] at ready
    | commit _ _ last => simp [he] at last
    | restart _ _ first => simp [hs] at first
    | overflow _ exceeds next => exact ⟨h.frames, by simp [exceeds], fun _ => ⟨next, rfl⟩⟩
    | line _ room =>
      refine ⟨h.frames, fun _ => ⟨hw, by simp [hop]⟩, fun hno => ?_⟩
      simp [hall, room] at hno
  | false =>
    obtain ⟨hw, hop⟩ := h.lost hall
    cases ht with
    | ignore _ _ next =>
      refine ⟨h.frames, fun hyes => ?_, fun _ => ⟨next, hop⟩⟩
      simp [hall] at hyes
    | opens _ _ first | single _ _ first => simp [hs] at first
    | overflow writing | commit writing | restart writing | line writing => exact absurd writing hw

/-- With its last line a frame is committed, if there was room for all of it. -/
theorem Partial.last {f : Framer α} {g : List (FrameLine α × Bool)}
    {fs : List (List (FrameLine α))} (h : Partial f g fs) {l : FrameLine α} (full : Bool)
    (hs : l.startFrame = false) (he : l.endFrame = true) :
    f.take (l, full) =
      { state := .ready
        opened := []
        frames := fs ++ if (g ++ [(l, full)]).all (fun x => !x.2)
          then [(g ++ [(l, full)]).map Prod.fst] else [] } := by
  have ht := take_cases f l full
  generalize f.take (l, full) = f' at ht ⊢
  cases hall : g.all fun x => !x.2 with
  | true =>
    obtain ⟨hw, hop⟩ := h.kept hall
    cases ht with
    | ignore closed => exact absurd hw closed
    | opens ready | single ready => simp [hw] at ready
    | restart _ _ _ more | line _ _ _ more => simp [he] at more
    | overflow _ exceeds _ ends => simp [ends he, exceeds, h.frames]
    | commit _ room => simp [hall, room, hop, h.frames]
  | false =>
    obtain ⟨hw, hop⟩ := h.lost hall
    cases ht with
    | ignore _ _ _ ends => simp [ends he, hall, hop, h.frames]
    | opens _ _ first | single _ _ first => simp [hs] at first
    | overflow writing | commit writing | restart writing | line writing => exact absurd writing hw

theorem partial_singleton (fs : List (List (FrameLine α))) {l : FrameLine α} (full : Bool)
    (hs : l.startFrame = true) (he : l.endFrame = false) :
    Partial (({ state := .ready, opened := [], frames := fs } : Framer α).take (l, full))
      [(l, full)] fs := by
  cases full <;> constructor <;> simp [take, pqControl, hs, he, PqCtl.idle]

theorem started_of_snoc {g : List (FrameLine α)} {l : FrameLine α} (h : Started (g ++ [l]))
    (hne : g ≠ []) : Started g ∧ l.startFrame = false := by
  obtain ⟨⟨a, t, he, ha, ht⟩, hend⟩ := h
  obtain ⟨b, g, rfl⟩ := List.exists_cons_of_ne_nil hne
  rw [List.cons_append, List.cons.injEq] at he
  obtain ⟨rfl, rfl⟩ := he
  refine ⟨⟨⟨b, g, rfl, ha, fun x hx => ht x (List.mem_append_left _ hx)⟩, fun x hx => ?_⟩, ?_⟩
  · exact hend x (List.mem_append_left _ hx)
  · exact ht l (by simp)

theorem partial_of_started (fs : List (List (FrameLine α))) (g : List (FrameLine α × Bool))
    (h : Started (g.map Prod.fst)) :
    Partial (g.foldl take { state := .ready, opened := [], frames := fs }) g fs := by
  induction g using List.reverseRecOn with
  | nil =>
    obtain ⟨⟨_, _, hnil, -⟩, -⟩ := h
    cases hnil
  | append_singleton g x ih =>
    obtain ⟨l, full⟩ := x
    rw [List.foldl_append, List.foldl_cons, List.foldl_nil]
    have hmore : l.endFrame = false := h.noEnd l (by simp)
    cases hg : g with
    | nil =>
      subst hg
      obtain ⟨a, t, he, ha, -⟩ := h.first
      cases he
      exact partial_singleton fs full ha hmore
    | cons y g' =>
      rw [← hg]
      rw [List.map_append] at h
      obtain ⟨hstart, hinner⟩ := started_of_snoc h (by simp [hg])
      exact (ih hstart).line full hinner hmore

theorem whole_snoc_cases {g : List (FrameLine α)} {l : FrameLine α} (h : Whole (g ++ [l])) :
    l.endFrame = true ∧ ((g = [] ∧ l.startFrame = true) ∨ Started g ∧ l.startFrame = false) := by
  obtain ⟨⟨a, t, he, ha, ht⟩, g', l', he', hl, hg⟩ := h
  obtain ⟨rfl, hlast⟩ := List.append_inj' he' rfl
  cases hlast
  refine ⟨hl, ?_⟩
  cases g with
  | nil =>
    cases he
    exact .inl ⟨rfl, ha⟩
  | cons b g =>
    rw [List.cons_append, List.cons.injEq] at he
    obtain ⟨rfl, rfl⟩ := he
    refine .inr ⟨⟨⟨b, g, rfl, ha, fun x hx => ht x (List.mem_append_left _ hx)⟩, hg⟩, ?_⟩
    exact ht l (by simp)

/-- A whole frame is committed or leaves nothing behind. -/
theorem take_whole (fs : List (List (FrameLine α))) {f : List (FrameLine α × Bool)}
    (h : Whole (f.map Prod.fst)) :
    f.foldl take { state := .ready, opened := [], frames := fs } =
      { state := .ready
        opened := []
        frames := fs ++ if f.all (fun x => !x.2) then [f.map Prod.fst] else [] } := by
  rcases List.eq_nil_or_concat f with rfl | ⟨g, ⟨l, full⟩, rfl⟩
  · obtain ⟨⟨_, _, hnil, -⟩, -⟩ := h
    cases hnil
  · rw [List.concat_eq_append] at h ⊢
    rw [List.map_append] at h
    rw [List.foldl_append, List.foldl_cons, List.foldl_nil]
    obtain ⟨hend, ⟨hg, hs⟩ | ⟨hstart, hs⟩⟩ := whole_snoc_cases h
    · rw [List.map_eq_nil_iff] at hg
      subst hg
      have hs' : l.startFrame = true := hs
      have hend' : l.endFrame = true := hend
      cases full <;> simp [take, pqControl, hs', hend', PqCtl.idle]
    · exact (partial_of_started fs g hstart).last full hs hend

theorem take_frames (fs : List (List (FrameLine α))) (gs : List (List (FrameLine α × Bool)))
    (h : ∀ f ∈ gs, Whole (f.map Prod.fst)) :
    gs.flatten.foldl take { state := .ready, opened := [], frames := fs } =
      { state := .ready
        opened := []
        frames := fs ++ (gs.filter fun f => f.all fun x => !x.2).map (List.map Prod.fst) } := by
  induction gs generalizing fs with
  | nil => simp
  | cons f gs ih =>
    rw [List.flatten_cons, List.foldl_append, take_whole fs (h f (by simp)),
      ih _ fun g hg => h g (List.mem_cons_of_mem _ hg)]
    cases hf : f.all fun x => !x.2 <;> simp [hf]

/-- Of a stream of whole frames those are committed that never met a full buffer. -/
theorem of_frames {gs : List (List (FrameLine α × Bool))} {rest : List (FrameLine α × Bool)}
    (h : ∀ f ∈ gs, Whole (f.map Prod.fst)) (hr : rest = [] ∨ Started (rest.map Prod.fst)) :
    (of (gs.flatten ++ rest)).frames =
      (gs.filter fun f => f.all fun x => !x.2).map (List.map Prod.fst) := by
  rw [of, List.foldl_append, start, take_frames [] gs h]
  rcases hr with rfl | hr
  · simp
  · simpa using (partial_of_started _ rest hr).frames

end Framer

/-! ### The registers follow the stream -/

namespace PqRun

/-- The frames committed so far. -/
def framer (s : PqRun n α) : Framer α := Framer.of s.written

/-- Of the committed lines the first have been read, and the queue holds the others and the
open frame. -/
structure Inv (s : PqRun n α) (done pending : List (FrameLine α)) : Prop where
  state : s.ctl.state = s.framer.state
  lines : s.framer.frames.flatten = done ++ pending
  read : s.read = done.map FrameLine.data
  queue : s.ctl.queue.Represents (pending.map FrameLine.data)
    (s.framer.opened.map FrameLine.data)

variable {s : PqRun n α} {i : PqIn α}

/-- A commit comes with a write and without a dump, and nothing is written to a full buffer. -/
theorem pqControl_ok (st : PqState) (full : Bool) (l : FrameLine α) :
    ((pqControl st full l).bufferWrReq = true → full = false) ∧
      ((pqControl st full l).cmtPacket = true →
        (pqControl st full l).bufferWrReq = true ∧ (pqControl st full l).dumpPacket = false) := by
  cases st <;> cases full <;> cases hs : l.startFrame <;> cases he : l.endFrame <;>
    simp [pqControl, PqCtl.idle, hs, he]

theorem framer_none (hw : i.wr = none) : (s.step i).framer = s.framer := by
  simp [framer, step, hw]

theorem framer_some {l : FrameLine α} (hw : i.wr = some l) :
    (s.step i).framer = s.framer.take (l, s.ctl.queue.full) := by
  simp only [framer, step, hw, Option.map_some, Option.toList_some, Framer.of_append]

/-- The committed line that is read. -/
def taken (i : PqIn α) (pending : List (FrameLine α)) : List (FrameLine α) :=
  if i.rdReq then pending.take 1 else []

/-- The committed lines that stay. -/
def left (i : PqIn α) (pending : List (FrameLine α)) : List (FrameLine α) :=
  if i.rdReq then pending.tail else pending

theorem taken_left (pending : List (FrameLine α)) : taken i pending ++ left i pending = pending := by
  cases hr : i.rdReq with
  | false => simp [taken, left, hr]
  | true => cases pending <;> simp [taken, left, hr]

theorem Inv.read_step {done pending : List (FrameLine α)} (h : Inv s done pending)
    (hrd : i.rdReq = true → s.ctl.queue.empty = false) :
    (s.step i).read = (done ++ taken i pending).map FrameLine.data ∧
      (i.rdReq = true → pending ≠ []) := by
  show s.read ++ (if i.rdReq then s.ctl.queue.rdData.toList else []) = _ ∧ _
  rw [h.read, List.map_append]
  cases hr : i.rdReq with
  | false => simp [taken, hr]
  | true =>
    have hne : pending ≠ [] := by
      rintro rfl
      have he := h.queue.empty_iff.mpr rfl
      rw [hrd hr] at he
      cases he
    obtain ⟨p, t, rfl⟩ := List.exists_cons_of_ne_nil hne
    have hd := h.queue.rdData (List.map_cons)
    simp [hd, taken, hr]

/-- The lines that become readable. -/
def committed (s : PqRun n α) (i : PqIn α) : List (FrameLine α) :=
  match i.wr with
  | some l =>
    if (pqControl s.framer.state s.ctl.queue.full l).cmtPacket then s.framer.opened ++ [l] else []
  | none => []

theorem inv_step {done pending : List (FrameLine α)} (h : Inv s done pending)
    (hrd : i.rdReq = true → s.ctl.queue.empty = false) :
    Inv (s.step i) (done ++ taken i pending) (left i pending ++ s.committed i) := by
  obtain ⟨hread, hne⟩ := h.read_step hrd
  have hne' : i.rdReq = true → pending.map FrameLine.data ≠ [] := by
    intro hr hnil
    exact hne hr (List.map_eq_nil_iff.mp hnil)
  have htail : (if i.rdReq then (pending.map FrameLine.data).tail else pending.map FrameLine.data) =
      (left i pending).map FrameLine.data := by
    cases hr : i.rdReq <;> simp [left, hr]
  have hold : done ++ taken i pending ++ left i pending = s.framer.frames.flatten := by
    rw [List.append_assoc, taken_left, h.lines]
  cases hw : i.wr with
  | none =>
    have hctl : s.ctl.ctl i = .idle s.ctl.state := by simp [PacketQueueController.ctl, hw]
    have hnew : s.committed i = [] := by simp [committed, hw]
    rw [hnew, List.append_nil]
    refine ⟨?_, ?_, hread, ?_⟩
    · rw [framer_none hw, ← h.state]
      show (s.ctl.ctl i).stateNext = _
      rw [hctl]
      rfl
    · rw [framer_none hw, hold]
    · have hq : (s.ctl.queue.step none false false i.rdReq).Represents _ _ :=
        h.queue.step (fun h => by cases h) (fun h => by cases h) hne'
      rw [framer_none hw]
      simpa [step, PacketQueueController.step, hctl, PqCtl.idle, htail] using hq
  | some l =>
    have hctl : s.ctl.ctl i = pqControl s.framer.state s.ctl.queue.full l := by
      simp [PacketQueueController.ctl, hw, h.state]
    obtain ⟨hroom, hcmt⟩ := pqControl_ok s.framer.state s.ctl.queue.full l
    have hfits : (if (pqControl s.framer.state s.ctl.queue.full l).bufferWrReq then some l.data
        else none).isSome = true → (pending.map FrameLine.data).length +
          (s.framer.opened.map FrameLine.data).length < 2 ^ n := by
      intro hsome
      refine Nat.lt_of_le_of_ne h.queue.room fun he => ?_
      have hfull := h.queue.full_iff.mpr he
      by_cases hb : (pqControl s.framer.state s.ctl.queue.full l).bufferWrReq = true
      · rw [hroom hb] at hfull
        cases hfull
      · simp [hb] at hsome
    have hlast : (pqControl s.framer.state s.ctl.queue.full l).cmtPacket = true →
        (if (pqControl s.framer.state s.ctl.queue.full l).bufferWrReq then some l.data
          else none).isSome = true ∧
          (pqControl s.framer.state s.ctl.queue.full l).dumpPacket = false := by
      intro hc
      obtain ⟨hwr, hd⟩ := hcmt hc
      exact ⟨by simp [hwr], hd⟩
    have hq : (s.ctl.queue.step _ _ _ i.rdReq).Represents _ _ :=
      h.queue.step hfits hlast hne'
    refine ⟨?_, ?_, hread, ?_⟩
    · rw [framer_some hw]
      show (s.ctl.ctl i).stateNext = _
      rw [hctl]
      rfl
    · rw [framer_some hw, ← List.append_assoc, hold, Framer.take]
      simp only [committed, hw]
      split <;> simp
    · rw [framer_some hw]
      cases hc : (pqControl s.framer.state s.ctl.queue.full l).cmtPacket with
      | true =>
        have hb := (hcmt hc).1
        simpa [step, PacketQueueController.step, hctl, hw, htail, hc, hb, Framer.take, committed]
          using hq
      | false =>
        cases hb : (pqControl s.framer.state s.ctl.queue.full l).bufferWrReq <;>
          cases hd : (pqControl s.framer.state s.ctl.queue.full l).dumpPacket <;>
          simpa [step, PacketQueueController.step, hctl, hw, htail, hc, hb, hd, Framer.take,
            committed] using hq

theorem inv_init (h : s.Init) : Inv s [] [] := by
  obtain ⟨⟨hst, hq, -⟩, hw, hr⟩ := h
  have hf : s.framer = Framer.start := by simp [framer, hw, Framer.of]
  refine ⟨by rw [hst, hf]; rfl, by simp [hf, Framer.start], by simp [hr], ?_⟩
  rw [hf]
  exact PacketQueue.represents_init hq

/-- All that holds along a run. -/
structure Sound (s : PqRun n α) : Prop where
  queue : ∃ done pending, Inv s done pending
  frames : s.framer.Sound
  placed : s.framer.Placed (s.written.map Prod.fst)

theorem sound_step (h : Sound s) (hok : NoSingleInside s i)
    (hrd : i.rdReq = true → s.ctl.queue.empty = false) : Sound (s.step i) := by
  obtain ⟨done, pending, hi⟩ := h.queue
  refine ⟨⟨_, _, inv_step hi hrd⟩, ?_, ?_⟩
  · cases hw : i.wr with
    | none =>
      rw [framer_none hw]
      exact h.frames
    | some l =>
      rw [framer_some hw]
      refine h.frames.take ?_
      rw [← hi.state]
      exact hok l hw
  · cases hw : i.wr with
    | none =>
      rw [framer_none hw]
      simpa [step, hw] using h.placed
    | some l =>
      rw [framer_some hw]
      simpa [step, hw] using h.placed.take h.frames l s.ctl.queue.full

theorem sound_init (h : s.Init) : Sound s := by
  have hf : s.framer = Framer.start := by simp [framer, h.2.1, Framer.of]
  refine ⟨⟨[], [], inv_init h⟩, by rw [hf]; exact Framer.sound_start, ?_⟩
  rw [hf, h.2.1]
  exact ⟨[], rfl, .nil⟩

theorem cycle_eq_some {s' : PqRun n α} (h : cycle s i = some s') :
    (i.rdReq = true → s.ctl.queue.empty = false) ∧ s' = s.step i := by
  simp only [cycle, Option.ite_none_right_eq_some, Option.some.injEq] at h
  exact ⟨h.1, h.2.symm⟩

theorem sound_of_reach (h : Reach Init cycle NoSingleInside s) : Sound s := by
  refine h.invariant (fun _ => sound_init) ?_
  intro s i s' hi hok hs
  obtain ⟨hrd, rfl⟩ := cycle_eq_some hs
  exact sound_step hi hok hrd

theorem pieces_of_placed {f : Framer α} {w : List (FrameLine α)} (h : f.Placed w) :
    Pieces w f.frames := by
  obtain ⟨prior, rfl, hp⟩ := h
  exact Framer.pieces_skip hp _

theorem Sound.delivers (h : Sound s) : Delivers s s.framer.frames := by
  obtain ⟨⟨done, pending, hi⟩, hframes, hplaced⟩ := h
  obtain ⟨hcm, hwr⟩ := hi.queue.distance
  have hlines : s.framer.frames.flatten.map FrameLine.data =
      s.read ++ pending.map FrameLine.data := by
    rw [hi.lines, hi.read, List.map_append]
  refine ⟨⟨?_, ?_⟩, pieces_of_placed hplaced, hframes.whole,
    ⟨pending.map FrameLine.data, hlines, hcm.symm⟩, ?_⟩
  · rw [hcm, hwr]
    exact Nat.le_add_right _ _
  · rw [hwr]
    exact hi.queue.room
  · intro fs rest hw hfs hrest
    rw [framer, ← hw]
    exact Framer.of_frames hfs hrest

/-- In every run without a frame of one line inside an open frame, whole frames are
delivered. -/
theorem delivers_of_noSingleInside (h : Reach Init cycle NoSingleInside s) :
    ∃ frames, Delivers s frames :=
  ⟨s.framer.frames, (sound_of_reach h).delivers⟩

/-! ### Fixed runs -/

/-- A queue of four lines after reset. -/
def reset : PqRun 2 Nat where
  ctl :=
    { state := .ready
      queue := { mem := fun _ => 0, wrPtr := 0, rdPtr := 0, cmPtr := 0, memRd := none }
      sizes := { mem := fun _ => 0, wrPtr := 0, rdPtr := 0, memRd := none } }
  written := []
  read := []

theorem reset_init : reset.Init :=
  ⟨⟨rfl, ⟨rfl, rfl, rfl, rfl⟩, ⟨rfl, rfl, rfl⟩⟩, rfl, rfl⟩

/-- A cycle that writes a line. -/
def put (data : Nat) (startFrame endFrame : Bool) : PqIn Nat where
  wr := some { data := data, startFrame := startFrame, endFrame := endFrame, endPadbytes := 0 }
  rdReq := false
  sizeRdReq := false

/-- A cycle that reads a line. -/
def get (last : Bool) : PqIn Nat where
  wr := none
  rdReq := true
  sizeRdReq := last

/-- Two frames, of which the second does not fit and is dumped. -/
theorem delivers_of_noSingleInside_overflow : ∃ s : PqRun 2 Nat, Reach Init cycle NoSingleInside s ∧
    s.read = [1, 2, 3] ∧ s.written.length = 6 ∧ ∃ frames, Delivers s frames := by
  have hrun : ∃ s, Reach Init cycle NoSingleInside s ∧
      decide (s.read = [1, 2, 3] ∧ s.written.length = 6) = true :=
    Reach.exists_of_run
      [put 1 true false, put 2 false false, put 3 false true, put 4 true false, put 5 false false,
        put 6 false true, get false, get false, get true]
      reset_init (by decide +kernel)
  obtain ⟨s, hr, hp⟩ := hrun
  have hp := of_decide_eq_true hp
  exact ⟨s, hr, hp.1, hp.2, delivers_of_noSingleInside hr⟩

theorem pieces_mem {β : Type} {w : List β} {fs : List (List β)} (h : Pieces w fs) :
    ∀ f ∈ fs, ∀ x ∈ f, x ∈ w := by
  induction h with
  | nil => simp
  | skip x _ ih =>
    intro f hf y hy
    exact List.mem_append_left _ (ih f hf y hy)
  | piece g _ ih =>
    intro f hf y hy
    rcases List.mem_append.mp hf with hf | hf
    · exact List.mem_append_left _ (ih f hf y hy)
    · rw [List.mem_singleton.mp hf] at hy
      exact List.mem_append_right _ hy

/-- A line that starts a frame is the whole of a frame all of whose lines do. -/
theorem whole_of_starts {f : List (FrameLine α)} (h : Whole f)
    (hs : ∀ x ∈ f, x.startFrame = true) : ∀ x ∈ f, x.endFrame = true := by
  obtain ⟨⟨a, t, rfl, -, ht⟩, g, l, he, hl, -⟩ := h
  have hnil : t = [] := by
    cases t with
    | nil => rfl
    | cons b t =>
      have hb := ht b (by simp)
      rw [hs b (by simp)] at hb
      cases hb
  subst hnil
  have hlen := congrArg List.length he
  have hg : g = [] := List.length_eq_zero_iff.mp (by simpa using hlen.symm)
  subst hg
  cases he
  intro x hx
  rw [List.mem_singleton.mp hx, hl]

/-- The first line of a frame that is cut short by a frame of one line is read. -/
theorem delivers_single_inside : ¬ ∀ s : PqRun 2 Nat, Reach Init cycle Free s →
    ∃ frames, Delivers s frames := by
  intro h
  have hrun : ∃ s : PqRun 2 Nat, Reach Init cycle Free s ∧
      (decide (s.read = [1, 2]) &&
        s.written.all (fun x => x.1.startFrame && (x.1.data != 1 || !x.1.endFrame))) = true :=
    Reach.exists_of_run [put 1 true false, put 2 true true, get false, get true] reset_init
      (by decide +kernel)
  obtain ⟨s, hr, hp⟩ := hrun
  rw [Bool.and_eq_true, decide_eq_true_iff, List.all_eq_true] at hp
  obtain ⟨frames, hd⟩ := h s hr
  obtain ⟨rest, hlines, -⟩ := hd.read
  have hone : (1 : Nat) ∈ frames.flatten.map FrameLine.data := by
    rw [hlines, hp.1]
    simp
  obtain ⟨x, hx, hdata⟩ := List.mem_map.mp hone
  obtain ⟨f, hf, hxf⟩ := List.mem_flatten.mp hx
  have hlog : ∀ y ∈ f, y.startFrame = true ∧ (y.data ≠ 1 ∨ y.endFrame = false) := by
    intro y hy
    obtain ⟨z, hz, rfl⟩ := List.mem_map.mp (pieces_mem hd.pieces f hf y hy)
    simpa using hp.2 z hz
  have hend := whole_of_starts (hd.whole f hf) (fun y hy => (hlog y hy).1) x hxf
  rcases (hlog x hxf).2 with hne | hno
  · exact hne hdata
  · rw [hend] at hno
    cases hno

end PqRun

end TcpHw
