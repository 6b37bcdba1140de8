import TcpHw.Lib.Ring
import TcpHw.Lib.Trace

/-!
# `axis_fifo` in normal mode

The words go through a memory and then through the read pipeline of `RAM_PIPELINE + 1` registers,
in which a word moves on when the output is ready or there is a bubble at its own place or before
it. Both instances leave `FRAME_FIFO`, `MARK_WHEN_FULL`, `OUTPUT_FIFO_ENABLE` and `PAUSE_ENABLE`
clear.
-/
namespace TcpHw

open TcpHw.Ring Trace

set_option autoImplicit false

/-- `m_axis_tvalid_pipe_reg[j]` and `m_axis_pipe_reg[j]` -/
structure AxisStage (α : Type) where
  valid : Bool
  data : α

/-- The pointers and the memory, the last register of the read pipeline and those before it, from
the output back to the memory. -/
structure AxisFifo (n : Nat) (α : Type) where
  wrPtr : BitVec (n + 1)
  wrPtrCommit : BitVec (n + 1)
  rdPtr : BitVec (n + 1)
  mem : BitVec n → α
  out : AxisStage α
  pipe : List (AxisStage α)

/-- `s_axis` while `s_axis_tvalid` is high, and `m_axis_tready`. -/
structure AxisFifoIn (α : Type) where
  s : Option α
  mReady : Bool

namespace AxisStage

variable {α : Type}

/-- The word that a stage holds. -/
def item (x : AxisStage α) : List α := if x.valid then [x.data] else []

/-- The words in some stages. -/
def items (l : List (AxisStage α)) : List α := l.flatMap item

/-- The next contents of some stages. The first of them moves if `go` is set or it is a bubble, and
then all that follow move; `new` is what comes out of the memory. -/
def advance (go : Bool) (new : AxisStage α) : List (AxisStage α) → List (AxisStage α)
  | [] => []
  | x :: t =>
    (if go || !x.valid then t.headD new else x) :: advance (go || !x.valid) new t

/-- Everything moves from the memory on. -/
def moves (go : Bool) (l : List (AxisStage α)) : Bool := go || l.any fun x => !x.valid

/-- The bubbles before the first word. -/
def lead : List (AxisStage α) → Nat
  | [] => 0
  | x :: t => if x.valid then 0 else lead t + 1

variable {new : AxisStage α} {l : List (AxisStage α)}

theorem items_cons (x : AxisStage α) (t : List (AxisStage α)) : items (x :: t) = x.item ++ items t :=
  List.flatMap_cons

theorem items_append (l l' : List (AxisStage α)) : items (l ++ l') = items l ++ items l' :=
  List.flatMap_append

theorem length_advance (go : Bool) : (advance go new l).length = l.length := by
  induction l generalizing go with
  | nil => rfl
  | cons x t ih => rw [advance, List.length_cons, ih, List.length_cons]

/-- With the output ready the stages shift. -/
theorem advance_true (x : AxisStage α) (t : List (AxisStage α)) :
    advance true new (x :: t) = t ++ [new] := by
  induction t generalizing x with
  | nil => rfl
  | cons y t ih =>
    rw [advance, Bool.true_or, if_pos rfl, ih]
    rfl

/-- With the output not ready the bubbles are filled and no word is lost. -/
theorem items_advance_false :
    items (advance false new l) = items l ++ if moves false l then new.item else [] := by
  induction l with
  | nil => rfl
  | cons x t ih =>
    cases hv : x.valid with
    | true =>
      have hm : moves false (x :: t) = moves false t := by simp [moves, hv]
      rw [advance, hv, Bool.not_true, Bool.or_self, if_neg (by decide), items_cons, ih, items_cons,
        hm, List.append_assoc]
    | false =>
      have hx : x.item = [] := by simp [item, hv]
      have hm : moves false (x :: t) = true := by simp [moves, hv]
      have hadv : advance false new (x :: t) = t ++ [new] := by
        rw [← advance_true x t, advance, advance, hv]
        rfl
      rw [hadv, items_append, items_cons x, hx, List.nil_append, hm, if_pos rfl, items_cons]
      simp [items]

/-- Without a bubble nothing moves unless the output is ready. -/
theorem advance_of_not_moves (h : moves false l = false) : advance false new l = l := by
  induction l with
  | nil => rfl
  | cons x t ih =>
    rw [moves, Bool.false_or, List.any_cons, Bool.or_eq_false_iff] at h
    obtain ⟨hx, ht⟩ := h
    rw [advance, hx, Bool.or_self, if_neg (by decide), ih (by rw [moves, Bool.false_or, ht])]

theorem length_items_le : (items l).length ≤ l.length := by
  induction l with
  | nil => exact Nat.le_refl 0
  | cons x t ih =>
    have hx : x.item.length ≤ 1 := by
      rw [item]
      split_ifs <;> simp
    rw [items_cons, List.length_append, List.length_cons]
    omega

theorem length_items (h : moves false l = false) : (items l).length = l.length := by
  induction l with
  | nil => rfl
  | cons x t ih =>
    rw [moves, Bool.false_or, List.any_cons, Bool.or_eq_false_iff] at h
    obtain ⟨hx, ht⟩ := h
    have hlen := ih (by rw [moves, Bool.false_or, ht])
    have hv : x.valid = true := by simpa using hx
    rw [items_cons, List.length_append, hlen, item, if_pos hv, List.length_singleton,
      List.length_cons, Nat.add_comm]

theorem lead_le : lead l ≤ l.length := by
  induction l with
  | nil => exact Nat.le_refl 0
  | cons x t ih =>
    rw [lead, List.length_cons]
    split_ifs
    · exact Nat.zero_le _
    · exact Nat.succ_le_succ ih

/-- A word that comes in behind does not hold up the first one. -/
theorem lead_append (h : items l ≠ [] ∨ new.valid = true) : lead (l ++ [new]) ≤ lead l := by
  induction l with
  | nil =>
    rcases h with h | h
    · exact absurd rfl h
    · simp [lead, h]
  | cons x t ih =>
    rw [List.cons_append, lead, lead]
    cases hv : x.valid with
    | true => exact Nat.le_refl _
    | false =>
      have hx : x.item = [] := by simp [item, hv]
      rw [items_cons, hx, List.nil_append] at h
      exact Nat.succ_le_succ (ih h)

end AxisStage

namespace AxisFifo

variable {n : Nat} {α : Type} (q : AxisFifo n α) (i : AxisFifoIn α)

def full : Bool := q.wrPtr == q.rdPtr ^^^ BitVec.twoPow (n + 1) n

def empty : Bool := q.wrPtrCommit == q.rdPtr

/-- `s_axis_tready` -/
def sReady : Bool := !q.full

/-- `m_axis` while `m_axis_tvalid` is high. -/
def m : Option α := if q.out.valid then some q.out.data else none

/-- The word that is taken in. -/
def taken : Option α := if q.sReady then i.s else none

/-- The read pipeline, from the output back. -/
def stages : List (AxisStage α) := q.out :: q.pipe

/-- What the memory gives to the pipeline. -/
def read : AxisStage α := ⟨!q.empty, q.mem (addr q.rdPtr)⟩

/-- One clock edge. -/
def cycle : AxisFifo n α where
  wrPtr := if (q.taken i).isSome then q.wrPtr + 1 else q.wrPtr
  wrPtrCommit := if (q.taken i).isSome then q.wrPtr + 1 else q.wrPtrCommit
  rdPtr := if AxisStage.moves i.mReady q.stages && !q.empty then q.rdPtr + 1 else q.rdPtr
  mem :=
    match q.taken i with
    | some d => Function.update q.mem (addr q.wrPtr) d
    | none => q.mem
  out := if i.mReady || !q.out.valid then q.pipe.headD q.read else q.out
  pipe := AxisStage.advance (i.mReady || !q.out.valid) q.read q.pipe

/-- `rst`; the memory and the data registers hold anything. -/
def Init : Prop :=
  q.wrPtr = 0 ∧ q.wrPtrCommit = 0 ∧ q.rdPtr = 0 ∧ ∀ x ∈ q.stages, x.valid = false

/-! ### What it holds -/

/-- The words in the memory; with those in the pipeline before them they are all that is held. -/
structure Holding (lm : List α) : Prop where
  room : lm.length ≤ 2 ^ n
  ptr : q.wrPtr = q.rdPtr + BitVec.ofNat (n + 1) lm.length
  commit : q.wrPtrCommit = q.wrPtr
  cells : Ring.Holds q.mem (addr q.rdPtr) lm

/-- All words that are held, oldest first. -/
def words (lm : List α) : List α := AxisStage.items q.stages ++ lm

variable {q i} {lm : List α}

theorem holding_init (h : q.Init) : q.Holding [] ∧ q.words [] = [] := by
  obtain ⟨hw, hc, hr, hv⟩ := h
  refine ⟨⟨Nat.zero_le _, ?_, by rw [hc, hw], Ring.Holds.nil _ _⟩, ?_⟩
  · rw [hw, hr]
    rfl
  · rw [words, List.append_nil, AxisStage.items, List.flatMap_eq_nil_iff]
    intro x hx
    simp [AxisStage.item, hv x hx]

theorem Holding.full_iff (h : q.Holding lm) : q.full = true ↔ lm.length = 2 ^ n := by
  have hwrap := wrapped_iff q.rdPtr h.room
  rw [← h.ptr] at hwrap
  rw [← hwrap, full, beq_iff_eq, ← same_iff]
  have hcell : addr (q.rdPtr ^^^ BitVec.twoPow (n + 1) n) = addr q.rdPtr := by
    rw [addr, BitVec.setWidth_xor]
    have hz : (BitVec.twoPow (n + 1) n).setWidth n = 0#n := by
      apply BitVec.eq_of_toNat_eq
      rw [BitVec.toNat_setWidth, BitVec.toNat_twoPow, BitVec.toNat_zero,
        Nat.mod_mod_of_dvd _ (Nat.pow_dvd_pow 2 (Nat.le_succ n)), Nat.mod_self]
    rw [hz, BitVec.xor_zero]
    rfl
  have hmsb : (q.rdPtr ^^^ BitVec.twoPow (n + 1) n).msb = !q.rdPtr.msb := by
    simp [BitVec.msb_twoPow]
  rw [hcell, hmsb]
  constructor
  · rintro ⟨ha, hm⟩
    refine ⟨ha.symm, ?_⟩
    rw [hm]
    cases q.rdPtr.msb <;> decide
  · rintro ⟨ha, hm⟩
    refine ⟨ha.symm, ?_⟩
    revert hm
    cases q.rdPtr.msb <;> cases q.wrPtr.msb <;> decide

theorem Holding.empty_iff (h : q.Holding lm) : q.empty = true ↔ lm = [] := by
  have hroom := h.room
  have hpow : 2 ^ (n + 1) = 2 ^ n + 2 ^ n := by rw [Nat.pow_succ]; omega
  have hpos : 0 < 2 ^ n := Nat.two_pow_pos n
  have hdist : (q.wrPtr - q.rdPtr).toNat = lm.length := by
    rw [h.ptr]
    exact sub_offset _ (by omega)
  rw [empty, beq_iff_eq, h.commit]
  constructor
  · intro heq
    rw [heq, BitVec.sub_self] at hdist
    exact List.length_eq_zero_iff.mp hdist.symm
  · rintro rfl
    rw [h.ptr]
    simp

/-- The memory gives its oldest word, if it has one. -/
theorem Holding.read_item (h : q.Holding lm) : q.read.item = lm.head?.toList := by
  have hempty := h.empty_iff
  cases hl : lm with
  | nil =>
    rw [hl] at hempty
    simp [read, AxisStage.item, hempty.mpr rfl]
  | cons a t =>
    have hne : q.empty = false := by
      rw [Bool.eq_false_iff]
      intro he
      rw [hempty.mp he] at hl
      cases hl
    have hcell : q.mem (addr q.rdPtr) = a := by
      have hc := h.cells
      rw [hl] at hc
      exact hc.head
    simp [read, AxisStage.item, hne, hcell]

/-- The words in the memory after a clock edge. -/
def memNext (q : AxisFifo n α) (i : AxisFifoIn α) (lm : List α) : List α :=
  (if AxisStage.moves i.mReady q.stages then lm.tail else lm) ++ (q.taken i).toList

theorem sReady_iff (h : q.Holding lm) : q.sReady = true ↔ lm.length < 2 ^ n := by
  have hfull := h.full_iff
  have hroom := h.room
  rw [sReady, Bool.not_eq_true', Bool.eq_false_iff, Ne, hfull]
  omega

theorem Holding.cycle (h : q.Holding lm) : (q.cycle i).Holding (memNext q i lm) := by
  -- first the word that leaves the memory, then the one that comes in
  obtain ⟨l', hl', hlen, hcells⟩ : ∃ l', memNext q i lm = l' ++ (q.taken i).toList ∧
      q.wrPtr = (q.cycle i).rdPtr + BitVec.ofNat (n + 1) l'.length ∧
      l'.length ≤ lm.length ∧ Ring.Holds q.mem (addr (q.cycle i).rdPtr) l' := by
    have hempty := h.empty_iff
    refine ⟨_, rfl, ?_⟩
    cases hm : AxisStage.moves i.mReady q.stages with
    | false => simpa [AxisFifo.cycle, hm] using ⟨h.ptr, h.cells⟩
    | true =>
      cases hl : lm with
      | nil =>
        have hptr := h.ptr
        rw [hl] at hptr
        have he : q.empty = true := hempty.mpr hl
        simpa [AxisFifo.cycle, hm, he, Ring.Holds.nil] using hptr
      | cons a t =>
        have he : q.empty = false := by
          rw [Bool.eq_false_iff]
          intro he
          rw [hempty.mp he] at hl
          cases hl
        have hptr := h.ptr
        have hcells := h.cells
        rw [hl, List.length_cons, offset_succ] at hptr
        rw [hl] at hcells
        have hrd : (q.cycle i).rdPtr = q.rdPtr + 1 := by simp [AxisFifo.cycle, hm, he]
        rw [hrd, addr_succ]
        exact ⟨hptr, Nat.le_succ _, hcells.tail⟩
  obtain ⟨hle, hcells⟩ := hcells
  have hroom := h.room
  rw [hl']
  cases ht : q.taken i with
  | none =>
    refine ⟨?_, ?_, ?_, ?_⟩
    · simp only [Option.toList_none, List.append_nil]
      omega
    · simpa [AxisFifo.cycle, ht] using hlen
    · simp [AxisFifo.cycle, ht, h.commit]
    · simpa [AxisFifo.cycle, ht] using hcells
  | some d =>
    have hlt : lm.length < 2 ^ n := by
      rw [← sReady_iff h]
      by_contra hf
      simp [taken, hf] at ht
    refine ⟨?_, ?_, ?_, ?_⟩
    · rw [Option.toList_some, List.length_append, List.length_singleton]
      omega
    · have hwr : (q.cycle i).wrPtr = q.wrPtr + 1 := by simp [AxisFifo.cycle, ht]
      rw [hwr, hlen, Option.toList_some, List.length_append, List.length_singleton, BitVec.ofNat_add,
        BitVec.add_assoc]
      rfl
    · simp [AxisFifo.cycle, ht]
    · have hpush := hcells.push (by omega) d
      rw [← addr_add, ← hlen] at hpush
      simpa [AxisFifo.cycle, ht] using hpush

/-- The stages after a clock edge. -/
theorem stages_cycle : (q.cycle i).stages = AxisStage.advance i.mReady q.read q.stages := rfl

/-- What is held after a clock edge: without the word that was taken away, with the one that was
taken in. -/
theorem Holding.words_cycle (h : q.Holding lm) : (q.cycle i).words (memNext q i lm) =
    (if i.mReady && q.out.valid then (q.words lm).tail else q.words lm) ++
      (q.taken i).toList := by
  have hread := h.read_item
  -- what goes into the pipeline and what stays in the memory are what the memory held
  have hsplit : q.read.item ++ lm.tail = lm := by
    rw [hread]
    cases lm <;> rfl
  rw [words, stages_cycle, memNext, words, ← List.append_assoc]
  congr 1
  cases hr : i.mReady with
  | false =>
    rw [AxisStage.items_advance_false, List.append_assoc]
    cases hm : AxisStage.moves false q.stages with
    | false => rfl
    | true => simp [hsplit]
  | true =>
    have hadv : AxisStage.advance true q.read q.stages = q.pipe ++ [q.read] :=
      AxisStage.advance_true _ _
    have hitem : AxisStage.items [q.read] = q.read.item := by simp [AxisStage.items]
    have hm : AxisStage.moves true q.stages = true := rfl
    rw [hadv, AxisStage.items_append, hitem, hm, if_pos rfl, List.append_assoc, hsplit, stages,
      AxisStage.items_cons, List.append_assoc]
    cases hv : q.out.valid <;> simp [AxisStage.item, hv]

/-! ### What comes out -/

/-- The word at the output is the oldest one. -/
theorem words_of_valid (hv : q.out.valid = true) :
    q.words lm = q.out.data :: (AxisStage.items q.pipe ++ lm) := by
  rw [words, stages, AxisStage.items_cons, AxisStage.item, if_pos hv]
  rfl

/-- A word at the output stays until it is taken. -/
theorem out_cycle (hr : i.mReady = false) (hv : q.out.valid = true) : (q.cycle i).out = q.out := by
  simp [AxisFifo.cycle, hr, hv]

/-- The steps that the oldest word still has to make. -/
def gap (q : AxisFifo n α) : Nat := AxisStage.lead q.stages

theorem gap_le : q.gap ≤ q.pipe.length + 1 := AxisStage.lead_le

/-- The oldest word comes closer to the output. -/
theorem Holding.gap_cycle (h : q.Holding lm) (hne : q.words lm ≠ []) (hv : q.out.valid = false) :
    (q.cycle i).gap + 1 ≤ q.gap := by
  have hgap : q.gap = AxisStage.lead q.pipe + 1 := by
    rw [gap, stages, AxisStage.lead, if_neg (by rw [hv]; decide)]
  have hstages : (q.cycle i).stages = q.pipe ++ [q.read] := by
    have hgo : (i.mReady || !q.out.valid) = true := by rw [hv, Bool.not_false, Bool.or_true]
    rw [stages_cycle, stages, AxisStage.advance, hgo, ← AxisStage.advance_true q.out q.pipe,
      AxisStage.advance]
    rfl
  have hin : AxisStage.items q.pipe ≠ [] ∨ q.read.valid = true := by
    by_contra hc
    simp only [not_or, not_not, Bool.not_eq_true] at hc
    obtain ⟨hitems, hval⟩ := hc
    have hread := h.read_item
    rw [AxisStage.item, hval] at hread
    have hl : lm = [] := by
      cases lm with
      | nil => rfl
      | cons a t => cases hread
    apply hne
    rw [words, stages, AxisStage.items_cons, hitems, hl]
    simp [AxisStage.item, hv]
  rw [hgap, gap, hstages]
  exact Nat.succ_le_succ (AxisStage.lead_append hin)

/-- Words wait in the memory only behind a full pipeline, but for the one that just came in. -/
def Brisk (q : AxisFifo n α) (lm : List α) : Prop :=
  AxisStage.moves false q.stages = true → lm.length ≤ 1

theorem brisk_nil : q.Brisk [] := fun _ => Nat.zero_le _

theorem Holding.brisk_cycle (h : q.Holding lm) (hb : q.Brisk lm) :
    (q.cycle i).Brisk (memNext q i lm) := by
  have htaken : (q.taken i).toList.length ≤ 1 := by cases q.taken i <;> simp
  intro hmoves
  rw [stages_cycle] at hmoves
  rw [memNext, List.length_append]
  cases hm : AxisStage.moves i.mReady q.stages with
  | false =>
    -- everything stands still, without a bubble
    rw [AxisStage.moves, Bool.or_eq_false_iff] at hm
    have hfalse : AxisStage.moves false q.stages = false := hm.2
    rw [hm.1, AxisStage.advance_of_not_moves hfalse, hfalse] at hmoves
    cases hmoves
  | true =>
    rw [if_pos rfl, List.length_tail]
    cases hbub : AxisStage.moves false q.stages with
    | true =>
      have hle := hb hbub
      omega
    | false =>
      -- the output took a word, and the memory fills the gap unless it is empty
      have hr : i.mReady = true := by
        rw [AxisStage.moves, Bool.or_eq_true] at hm
        rcases hm with hr | hany
        · exact hr
        · rw [AxisStage.moves, Bool.false_or, hany] at hbub
          cases hbub
      cases hl : lm with
      | nil => simp
      | cons a t =>
        have hread := h.read_item
        rw [hl] at hread
        have hval : q.read.valid = true := by
          rw [AxisStage.item] at hread
          by_contra hv
          rw [if_neg hv] at hread
          cases hread
        rw [hr, stages, AxisStage.advance_true] at hmoves
        simp only [AxisStage.moves, stages, Bool.false_or, List.any_cons, Bool.or_eq_false_iff,
          List.any_append, List.any_nil, Bool.or_false, hval, Bool.not_true] at hbub hmoves
        rw [hbub.2] at hmoves
        cases hmoves

/-- A full memory of at least two cells has a full pipeline before it. -/
theorem Holding.length_of_full (h : q.Holding lm) (hb : q.Brisk lm) (hn : 0 < n)
    (hfull : q.sReady = false) : (q.words lm).length = 2 ^ n + (q.pipe.length + 1) := by
  have hlen : lm.length = 2 ^ n := h.full_iff.mp (by simpa [sReady] using hfull)
  have htwo : 2 ^ 1 ≤ 2 ^ n := Nat.pow_le_pow_right (by decide) hn
  have hbub : AxisStage.moves false q.stages = false := by
    rw [Bool.eq_false_iff]
    intro hm
    have hle := hb hm
    omega
  rw [words, List.length_append, AxisStage.length_items hbub, hlen, Nat.add_comm]
  rfl

theorem Holding.length_le (h : q.Holding lm) :
    (q.words lm).length ≤ 2 ^ n + (q.pipe.length + 1) := by
  have hitems : (AxisStage.items q.stages).length ≤ q.stages.length := AxisStage.length_items_le
  have hroom := h.room
  have hstages : q.stages.length = q.pipe.length + 1 := rfl
  rw [words, List.length_append]
  omega

end AxisFifo

/-! ### Runs -/

/-- The FIFO with all words taken in and all words given out. -/
structure AxisLog (n : Nat) (α : Type) where
  fifo : AxisFifo n α
  accepted : List α
  given : List α

namespace AxisLog

variable {n : Nat} {α : Type}

def next (s : AxisLog n α) (i : AxisFifoIn α) : AxisLog n α where
  fifo := s.fifo.cycle i
  accepted := s.accepted ++ (s.fifo.taken i).toList
  given := s.given ++ if i.mReady then s.fifo.m.toList else []

def step (s : AxisLog n α) (i : AxisFifoIn α) : Option (AxisLog n α) := some (s.next i)

/-- After reset. -/
def Init (s : AxisLog n α) : Prop := s.fifo.Init ∧ s.accepted = [] ∧ s.given = []

/-- The words come out in the order in which they came in. The FIFO refuses a word only when its
memory is full, shows a word until it is taken, and shows one soon if it has any. -/
structure Delivers (s : AxisLog n α) : Prop where
  order : ∃ held, s.accepted = s.given ++ held ∧
    held.length ≤ 2 ^ n + (s.fifo.pipe.length + 1) ∧ (∀ d, s.fifo.m = some d → held.head? = some d) ∧
    (s.fifo.sReady = false → 2 ^ n ≤ held.length)
  stays : ∀ i, i.mReady = false → s.fifo.m ≠ none → (s.next i).fifo.m = s.fifo.m
  soon : s.given ≠ s.accepted → ∀ sched, ∃ k ≤ s.fifo.pipe.length + 1,
    (exec next s sched k).fifo.m.isSome = true

/-- The memory holds the last of the words that are still to come. -/
structure Inv (s : AxisLog n α) (lm : List α) : Prop where
  holding : s.fifo.Holding lm
  order : s.accepted = s.given ++ s.fifo.words lm

variable {s : AxisLog n α} {i : AxisFifoIn α} {lm : List α}

theorem inv_init (h : Init s) : Inv s [] := by
  obtain ⟨hf, ha, hg⟩ := h
  obtain ⟨hh, hw⟩ := AxisFifo.holding_init hf
  exact ⟨hh, by rw [ha, hg, hw, List.nil_append]⟩

theorem Inv.next (h : Inv s lm) : Inv (s.next i) (AxisFifo.memNext s.fifo i lm) := by
  refine ⟨h.holding.cycle, ?_⟩
  show s.accepted ++ _ = (s.given ++ _) ++ (s.fifo.cycle i).words _
  rw [h.holding.words_cycle, h.order]
  cases hr : i.mReady with
  | false => simp
  | true =>
    cases hv : s.fifo.out.valid with
    | false => simp [AxisFifo.m, hv]
    | true =>
      rw [AxisFifo.words_of_valid hv]
      simp [AxisFifo.m, hv]

theorem inv_of_reach (h : Reach Init step Free s) : ∃ lm, Inv s lm := by
  refine h.invariant (I := fun s => ∃ lm, Inv s lm) (fun s hs => ⟨[], inv_init hs⟩) ?_
  rintro s i s' ⟨lm, hi⟩ - hs
  cases hs
  exact ⟨_, hi.next⟩

/-- What is held comes to the output in as many cycles as there are bubbles before it. -/
theorem Inv.shows (h : Inv s lm) (hne : s.fifo.words lm ≠ []) {g : Nat} (hg : s.fifo.gap ≤ g)
    (sched : Nat → AxisFifoIn α) :
    ∃ k ≤ g, (exec AxisLog.next s sched k).fifo.m.isSome = true := by
  induction g generalizing s lm sched with
  | zero =>
    refine ⟨0, Nat.le_refl 0, ?_⟩
    show s.fifo.m.isSome = true
    cases hv : s.fifo.out.valid with
    | true => simp [AxisFifo.m, hv]
    | false =>
      have hdec := h.holding.gap_cycle (i := sched 0) hne hv
      omega
  | succ g ih =>
    cases hv : s.fifo.out.valid with
    | true => exact ⟨0, Nat.zero_le _, by simp [exec, AxisFifo.m, hv]⟩
    | false =>
      have hdec := h.holding.gap_cycle (i := sched 0) hne hv
      have hwords := h.holding.words_cycle (i := sched 0)
      rw [hv, Bool.and_false, if_neg (by decide)] at hwords
      have hne' : (s.next (sched 0)).fifo.words (AxisFifo.memNext s.fifo (sched 0) lm) ≠ [] := by
        show (s.fifo.cycle (sched 0)).words _ ≠ []
        rw [hwords]
        simp [hne]
      have hg' : (s.next (sched 0)).fifo.gap ≤ g := by
        show (s.fifo.cycle (sched 0)).gap ≤ g
        omega
      obtain ⟨k, hk, hvalid⟩ := ih h.next hne' hg' (later sched 1)
      refine ⟨1 + k, by omega, ?_⟩
      rw [exec_add]
      exact hvalid

/-- In every run words come out of `axis_fifo` in the order in which they came in, and soon. -/
theorem axis_fifo_delivers (h : Reach Init step Free s) : Delivers s := by
  obtain ⟨lm, hi⟩ := inv_of_reach h
  refine ⟨⟨_, hi.order, hi.holding.length_le, ?_, ?_⟩, ?_, ?_⟩
  · intro d hd
    cases hv : s.fifo.out.valid with
    | false => simp [AxisFifo.m, hv] at hd
    | true =>
      rw [AxisFifo.words_of_valid hv]
      simpa [AxisFifo.m, hv] using hd
  · intro hfull
    have hlen : lm.length = 2 ^ n := hi.holding.full_iff.mp (by simpa [AxisFifo.sReady] using hfull)
    rw [AxisFifo.words, List.length_append]
    omega
  · intro i hr hm
    have hv : s.fifo.out.valid = true := by
      by_contra hv
      simp [AxisFifo.m, hv] at hm
    show (s.fifo.cycle i).m = s.fifo.m
    rw [AxisFifo.m, AxisFifo.out_cycle hr hv]
    rfl
  · intro hne sched
    have hwords : s.fifo.words lm ≠ [] := by
      intro hnil
      apply hne
      rw [hi.order, hnil, List.append_nil]
    exact hi.shows hwords AxisFifo.gap_le sched

/-- A FIFO of two cells with two pipeline registers takes in four words and then no more. -/
theorem axis_fifo_delivers_run :
    ∃ s : AxisLog 1 Nat, Reach Init step Free s ∧ s.accepted = [1, 2, 3, 4] ∧ s.given = [] ∧
      s.fifo.sReady = false ∧ Delivers s := by
  let b : AxisLog 1 Nat :=
    ⟨⟨0, 0, 0, fun _ => 0, ⟨false, 0⟩, [⟨false, 0⟩]⟩, [], []⟩
  have hb : Init b := by
    refine ⟨⟨rfl, rfl, rfl, ?_⟩, rfl, rfl⟩
    intro x hx
    simp only [b, AxisFifo.stages, List.mem_cons, List.not_mem_nil, or_false, or_self] at hx
    rw [hx]
  have hrun : ∃ s : AxisLog 1 Nat, Reach Init step Free s ∧
      decide (s.accepted = [1, 2, 3, 4] ∧ s.given = [] ∧ s.fifo.sReady = false) = true :=
    Reach.exists_of_run
      [⟨some 1, false⟩, ⟨some 2, false⟩, ⟨some 3, false⟩, ⟨some 4, false⟩, ⟨some 5, false⟩] hb
      (by decide +kernel)
  obtain ⟨s, hs, hp⟩ := hrun
  obtain ⟨ha, hg, hr⟩ := decide_eq_true_iff.mp hp
  exact ⟨s, hs, ha, hg, hr, axis_fifo_delivers hs⟩

end AxisLog

end TcpHw
