import Mathlib.Data.Nat.Log
import Mathlib.Data.Nat.ModEq
import TcpHw.Lib.Trace

/-!
# `peek_fifo_1r1w`

A FIFO of any number of entries that shows the two oldest ones and can be cleared. The pointers
wrap at the number of entries and have a bit each that is turned at every lap; the count is the
difference of the pointers with their bits, less what the range of the pointers has more than
entries.
-/
namespace TcpHw

open Trace

set_option autoImplicit false

structure PeekFifo (els : Nat) (α : Type) where
  mem : BitVec (Nat.clog 2 els) → α
  wrPtr : BitVec (Nat.clog 2 els)
  wrWrapBit : Bool
  rdPtr : BitVec (Nat.clog 2 els)
  rdWrapBit : Bool

/-- `wr_req` with `wr_data`, `rd_req` and `clear_fifo`. -/
structure PeekFifoIn (α : Type) where
  wr : Option α
  rdReq : Bool
  clear : Bool

namespace PeekFifo

variable {els : Nat} {α : Type} (f : PeekFifo els α)

def rdData : α := f.mem f.rdPtr

def peekPtr : BitVec (Nat.clog 2 els) := if f.rdPtr.toNat = els - 1 then 0 else f.rdPtr + 1

def rdDataNext : α := f.mem f.peekPtr

def full : Bool := f.wrWrapBit != f.rdWrapBit && f.wrPtr == f.rdPtr

/-- `num_els`, with `SIZE_SUB_OFF` in the second branch. -/
def numEls : BitVec (Nat.clog 2 els + 1) :=
  if f.wrWrapBit = f.rdWrapBit then f.wrPtr.setWidth _ - f.rdPtr.setWidth _
  else BitVec.cons f.wrWrapBit f.wrPtr - BitVec.cons f.rdWrapBit f.rdPtr -
    BitVec.ofNat _ (2 ^ Nat.clog 2 els - els)

/-- The memory and the write pointer after a write. -/
def wrote (d : α) : PeekFifo els α :=
  if f.wrPtr.toNat = els - 1 then
    { f with mem := Function.update f.mem f.wrPtr d, wrWrapBit := !f.wrWrapBit, wrPtr := 0 }
  else { f with mem := Function.update f.mem f.wrPtr d, wrPtr := f.wrPtr + 1 }

/-- The read pointer after a read. -/
def took : PeekFifo els α :=
  if f.rdPtr.toNat = els - 1 then { f with rdWrapBit := !f.rdWrapBit, rdPtr := 0 }
  else { f with rdPtr := f.rdPtr + 1 }

/-- One clock edge. A write goes to the memory even if the FIFO is cleared. -/
def cycle (i : PeekFifoIn α) : PeekFifo els α :=
  let g := i.wr.elim f f.wrote
  if i.clear then { g with wrPtr := 0, wrWrapBit := false, rdPtr := 0, rdWrapBit := false }
  else if i.rdReq then g.took else g

/-- The cell of entry `j`. -/
def cell (els : Nat) (p : BitVec (Nat.clog 2 els)) (j : Nat) : BitVec (Nat.clog 2 els) :=
  BitVec.ofNat _ ((p.toNat + j) % els)

/-- The registers stand for the list. -/
structure Represents (f : PeekFifo els α) (l : List α) : Prop where
  wrLt : f.wrPtr.toNat < els
  rdLt : f.rdPtr.toNat < els
  room : l.length ≤ els
  ptrs : f.rdPtr.toNat + l.length =
    f.wrPtr.toNat + if f.wrWrapBit = f.rdWrapBit then 0 else els
  cells : ∀ j (h : j < l.length), f.mem (cell els f.rdPtr j) = l[j]

variable {f : PeekFifo els α} {l : List α}

/-! ### Pointers -/

theorem toNat_start : (0 : BitVec (Nat.clog 2 els)).toNat = 0 := BitVec.toNat_zero

theorem toNat_cell (p : BitVec (Nat.clog 2 els)) (j : Nat) (hpos : 0 < els) :
    (cell els p j).toNat = (p.toNat + j) % els := by
  have hle : els ≤ 2 ^ Nat.clog 2 els := Nat.le_pow_clog (by decide) els
  have hlt := Nat.mod_lt (p.toNat + j) hpos
  rw [cell, BitVec.toNat_ofNat, Nat.mod_eq_of_lt (by omega)]

theorem cell_zero {p : BitVec (Nat.clog 2 els)} (hp : p.toNat < els) : cell els p 0 = p := by
  apply BitVec.eq_of_toNat_eq
  rw [toNat_cell p 0 (by omega), Nat.add_zero, Nat.mod_eq_of_lt hp]

/-- A pointer that is not at the end moves on. -/
theorem toNat_succ {p : BitVec (Nat.clog 2 els)} (hp : p.toNat < els) (hne : p.toNat ≠ els - 1) :
    (p + 1).toNat = p.toNat + 1 := by
  have hle : els ≤ 2 ^ Nat.clog 2 els := Nat.le_pow_clog (by decide) els
  have hone : (1 : BitVec (Nat.clog 2 els)).toNat = 1 := by
    show (BitVec.ofNat _ 1).toNat = 1
    rw [BitVec.toNat_ofNat, Nat.mod_eq_of_lt (by omega)]
  rw [BitVec.toNat_add, hone, Nat.mod_eq_of_lt (by omega)]

/-- The next pointer is the cell of the next entry. -/
theorem next_eq_cell {p : BitVec (Nat.clog 2 els)} (hp : p.toNat < els) :
    (if p.toNat = els - 1 then 0 else p + 1) = cell els p 1 := by
  apply BitVec.eq_of_toNat_eq
  rw [toNat_cell p 1 (by omega)]
  split
  · have hend : p.toNat + 1 = els := by omega
    rw [hend, Nat.mod_self, toNat_start]
  · rw [toNat_succ hp ‹_›, Nat.mod_eq_of_lt (by omega)]

theorem cell_cell (p : BitVec (Nat.clog 2 els)) (j k : Nat) (hpos : 0 < els) :
    cell els (cell els p j) k = cell els p (j + k) := by
  apply BitVec.eq_of_toNat_eq
  rw [toNat_cell _ k hpos, toNat_cell p j hpos, toNat_cell p _ hpos, Nat.mod_add_mod, Nat.add_assoc]

theorem cell_inj (p : BitVec (Nat.clog 2 els)) {j k : Nat} (hj : j < els) (hk : k < els)
    (h : cell els p j = cell els p k) : j = k := by
  have hnat := congrArg BitVec.toNat h
  rw [toNat_cell p j (by omega), toNat_cell p k (by omega)] at hnat
  have hmod : j % els = k % els := Nat.ModEq.add_left_cancel' p.toNat hnat
  rwa [Nat.mod_eq_of_lt hj, Nat.mod_eq_of_lt hk] at hmod

/-! ### What is shown -/

/-- Next to be written is the cell behind the entries. -/
theorem Represents.wrPtr_eq (h : Represents f l) : f.wrPtr = cell els f.rdPtr l.length := by
  have hlt := h.wrLt
  apply BitVec.eq_of_toNat_eq
  rw [toNat_cell _ _ (by omega), h.ptrs]
  split
  · rw [Nat.add_zero, Nat.mod_eq_of_lt hlt]
  · rw [Nat.add_mod_right, Nat.mod_eq_of_lt hlt]

theorem Represents.full_iff (h : Represents f l) : f.full = true ↔ l.length = els := by
  have hp := h.ptrs
  have hwr := h.wrLt
  simp only [full, Bool.and_eq_true, bne_iff_ne, beq_iff_eq]
  constructor
  · rintro ⟨hne, heq⟩
    rw [if_neg hne, heq] at hp
    omega
  · intro hlen
    have hne : f.wrWrapBit ≠ f.rdWrapBit := by
      intro heq
      rw [if_pos heq] at hp
      omega
    rw [if_neg hne] at hp
    exact ⟨hne, BitVec.eq_of_toNat_eq (by omega)⟩

theorem Represents.numEls (h : Represents f l) : f.numEls.toNat = l.length := by
  have hle : els ≤ 2 ^ Nat.clog 2 els := Nat.le_pow_clog (by decide) els
  have hpow : 2 ^ (Nat.clog 2 els + 1) = 2 * 2 ^ Nat.clog 2 els := by
    rw [Nat.pow_succ, Nat.mul_comm]
  have hp := h.ptrs
  have hwr := h.wrLt
  have hrd := h.rdLt
  have hroom := h.room
  generalize hN : 2 ^ Nat.clog 2 els = N at hle hpow
  unfold PeekFifo.numEls
  split
  · rename_i heq
    rw [if_pos heq] at hp
    have hsum : 2 * N - f.rdPtr.toNat + f.wrPtr.toNat = l.length + 2 * N := by omega
    rw [BitVec.toNat_sub, BitVec.toNat_setWidth, BitVec.toNat_setWidth, hpow,
      Nat.mod_eq_of_lt (a := f.rdPtr.toNat) (by omega),
      Nat.mod_eq_of_lt (a := f.wrPtr.toNat) (by omega), hsum, Nat.add_mod_right,
      Nat.mod_eq_of_lt (by omega)]
  · rename_i hne
    rw [if_neg hne] at hp
    have hoff : (BitVec.ofNat (Nat.clog 2 els + 1) (N - els)).toNat = N - els := by
      rw [BitVec.toNat_ofNat, hpow, Nat.mod_eq_of_lt (by omega)]
    -- one of the two bits is set, and the difference is the same in both cases
    have hdiff : (BitVec.cons f.wrWrapBit f.wrPtr - BitVec.cons f.rdWrapBit f.rdPtr).toNat =
        N + f.wrPtr.toNat - f.rdPtr.toNat := by
      rw [BitVec.toNat_sub, BitVec.toNat_cons', BitVec.toNat_cons', hpow, Nat.shiftLeft_eq,
        Nat.shiftLeft_eq, hN]
      cases hw : f.wrWrapBit with
      | true =>
        have hr : f.rdWrapBit = false := by
          rw [hw] at hne
          simpa using hne
        have hsum : 2 * N - (0 * N + f.rdPtr.toNat) + (1 * N + f.wrPtr.toNat) =
            N + f.wrPtr.toNat - f.rdPtr.toNat + 2 * N := by omega
        rw [hr, Bool.toNat_true, Bool.toNat_false, hsum, Nat.add_mod_right,
          Nat.mod_eq_of_lt (by omega)]
      | false =>
        have hr : f.rdWrapBit = true := by
          rw [hw] at hne
          simpa using hne
        have hsum : 2 * N - (1 * N + f.rdPtr.toNat) + (0 * N + f.wrPtr.toNat) =
            N + f.wrPtr.toNat - f.rdPtr.toNat := by omega
        rw [hr, Bool.toNat_true, Bool.toNat_false, hsum, Nat.mod_eq_of_lt (by omega)]
    have hsum : 2 * N - (N - els) + (N + f.wrPtr.toNat - f.rdPtr.toNat) = l.length + 2 * N := by
      omega
    rw [hN, BitVec.toNat_sub, hoff, hdiff, hpow, hsum, Nat.add_mod_right,
      Nat.mod_eq_of_lt (by omega)]

theorem Represents.rdData (h : Represents f l) {a : α} {t : List α} (hl : l = a :: t) :
    f.rdData = a := by
  subst hl
  have hcell := h.cells 0 (Nat.succ_pos _)
  rw [cell_zero h.rdLt] at hcell
  exact hcell

theorem Represents.rdDataNext (h : Represents f l) {a b : α} {t : List α} (hl : l = a :: b :: t) :
    f.rdDataNext = b := by
  subst hl
  have hcell := h.cells 1 (Nat.succ_lt_succ (Nat.succ_pos _))
  rw [← next_eq_cell h.rdLt] at hcell
  exact hcell

/-! ### One cycle -/

theorem Represents.wrote (h : Represents f l) (hroom : l.length < els) (d : α) :
    Represents (f.wrote d) (l ++ [d]) := by
  have hp := h.ptrs
  have hlt := h.wrLt
  have hcells : ∀ j (hj : j < (l ++ [d]).length),
      Function.update f.mem f.wrPtr d (cell els f.rdPtr j) = (l ++ [d])[j] := by
    intro j hj
    rw [List.length_append, List.length_singleton] at hj
    rw [h.wrPtr_eq]
    by_cases hlast : j = l.length
    · subst hlast
      rw [Function.update_self, List.getElem_concat_length rfl]
    · rw [Function.update_of_ne, List.getElem_append_left (by omega), h.cells j (by omega)]
      intro heq
      exact hlast (cell_inj f.rdPtr (by omega) hroom heq)
  have hlen : (l ++ [d]).length = l.length + 1 := by simp
  unfold PeekFifo.wrote
  split
  · rename_i hend
    refine ⟨?_, h.rdLt, by omega, ?_, hcells⟩
    · rw [toNat_start]
      omega
    · rw [hlen, toNat_start]
      have hflip : ((!f.wrWrapBit) = f.rdWrapBit) ↔ ¬ f.wrWrapBit = f.rdWrapBit := by
        cases f.wrWrapBit <;> cases f.rdWrapBit <;> simp
      simp only [hflip]
      have hrd := h.rdLt
      split at hp
      · rename_i heq
        rw [if_neg (not_not.mpr heq)]
        omega
      · omega
  · rename_i hne
    have hsucc := toNat_succ hlt hne
    refine ⟨by rw [hsucc]; omega, h.rdLt, by omega, ?_, hcells⟩
    show f.rdPtr.toNat + _ = (f.wrPtr + 1).toNat + if f.wrWrapBit = f.rdWrapBit then 0 else els
    rw [hlen, hsucc]
    omega

theorem Represents.took (h : Represents f l) (hne : l ≠ []) : Represents f.took l.tail := by
  have hp := h.ptrs
  have hrd := h.rdLt
  have hwr := h.wrLt
  have hroom := h.room
  have hpos := List.length_pos_of_ne_nil hne
  have hlen := List.length_tail (l := l)
  have hcells : ∀ j (hj : j < l.tail.length),
      f.mem (cell els (if f.rdPtr.toNat = els - 1 then 0 else f.rdPtr + 1) j) = l.tail[j] := by
    intro j hj
    rw [next_eq_cell hrd, cell_cell _ _ _ (by omega), Nat.add_comm, h.cells (j + 1) (by omega),
      List.getElem_tail]
  unfold PeekFifo.took
  split
  · rename_i hend
    rw [if_pos hend] at hcells
    refine ⟨hwr, ?_, by omega, ?_, hcells⟩
    · rw [toNat_start]
      omega
    · rw [hlen, toNat_start]
      have hflip : (f.wrWrapBit = !f.rdWrapBit) ↔ ¬ f.wrWrapBit = f.rdWrapBit := by
        cases f.wrWrapBit <;> cases f.rdWrapBit <;> simp
      simp only [hflip]
      split at hp
      · rename_i heq
        omega
      · rename_i hdiff
        rw [if_pos hdiff]
        omega
  · rename_i hmid
    rw [if_neg hmid] at hcells
    have hsucc := toNat_succ hrd hmid
    refine ⟨hwr, by rw [hsucc]; omega, by omega, ?_, hcells⟩
    show (f.rdPtr + 1).toNat + _ = f.wrPtr.toNat + if f.wrWrapBit = f.rdWrapBit then 0 else els
    rw [hlen, hsucc]
    omega

end PeekFifo

/-! ### Runs -/

/-- The FIFO with the queue of its entries, oldest first. -/
structure PeekSystem (els : Nat) (α : Type) where
  fifo : PeekFifo els α
  queue : List α

namespace PeekSystem

variable {els : Nat} {α : Type}

def queueNext (l : List α) (i : PeekFifoIn α) : List α :=
  if i.clear then [] else (if i.rdReq then l.tail else l) ++ i.wr.toList

def step (s : PeekSystem els α) (i : PeekFifoIn α) : Option (PeekSystem els α) :=
  some ⟨s.fifo.cycle i, queueNext s.queue i⟩

/-- After reset; the memory holds anything. -/
structure Init (s : PeekSystem els α) : Prop where
  wrPtr : s.fifo.wrPtr = 0
  wrWrapBit : s.fifo.wrWrapBit = false
  rdPtr : s.fifo.rdPtr = 0
  rdWrapBit : s.fifo.rdWrapBit = false
  queue : s.queue = []

/-- A write is made only when the FIFO is not full, and a read only when it is not empty. -/
def Allowed (s : PeekSystem els α) (i : PeekFifoIn α) : Prop :=
  (i.wr.isSome = true → s.fifo.full = false) ∧ (i.rdReq = true → s.fifo.numEls ≠ 0)

instance (s : PeekSystem els α) (i : PeekFifoIn α) : Decidable (Allowed s i) := by
  unfold Allowed
  infer_instance

/-- The outputs tell of the queue, and a clear empties it whatever else is requested. -/
structure Exact (s : PeekSystem els α) : Prop where
  numEls : s.fifo.numEls.toNat = s.queue.length
  full : s.fifo.full = true ↔ s.queue.length = els
  rdData : ∀ a t, s.queue = a :: t → s.fifo.rdData = a
  rdDataNext : ∀ a b t, s.queue = a :: b :: t → s.fifo.rdDataNext = b
  clears : ∀ i, i.clear = true → (s.fifo.cycle i).numEls = 0 ∧ (s.fifo.cycle i).full = false

variable {s : PeekSystem els α} {i : PeekFifoIn α}

/-- Pointers at the start stand for the empty queue. -/
theorem represents_nil {f : PeekFifo els α} (hels : 2 ≤ els) (hw : f.wrPtr = 0)
    (hwb : f.wrWrapBit = false) (hr : f.rdPtr = 0) (hrb : f.rdWrapBit = false) :
    f.Represents [] := by
  have hzero : (0 : BitVec (Nat.clog 2 els)).toNat = 0 := PeekFifo.toNat_start
  refine ⟨?_, ?_, Nat.zero_le els, ?_, fun j h => absurd h (Nat.not_lt_zero j)⟩
  · rw [hw, hzero]
    omega
  · rw [hr, hzero]
    omega
  · rw [hw, hwb, hr, hrb, if_pos rfl]
    rfl

theorem represents_init (hels : 2 ≤ els) (h : Init s) : s.fifo.Represents s.queue := by
  rw [h.queue]
  exact represents_nil hels h.wrPtr h.wrWrapBit h.rdPtr h.rdWrapBit

theorem represents_clear {f : PeekFifo els α} (hels : 2 ≤ els) (hc : i.clear = true) :
    (f.cycle i).Represents [] := by
  apply represents_nil hels
  all_goals simp [PeekFifo.cycle, hc]

theorem exact_of_represents (hels : 2 ≤ els) (h : s.fifo.Represents s.queue) : Exact s := by
  refine ⟨h.numEls, h.full_iff, fun _ _ => h.rdData, fun _ _ _ => h.rdDataNext, ?_⟩
  intro i hc
  have hnil : (s.fifo.cycle i).Represents [] := represents_clear hels hc
  refine ⟨BitVec.eq_of_toNat_eq ?_, ?_⟩
  · rw [hnil.numEls]
    rfl
  · rw [← Bool.not_eq_true, hnil.full_iff]
    show ¬ 0 = els
    omega

/-- A write, a read, both or neither. -/
theorem represents_moves (h : s.fifo.Represents s.queue) (hok : Allowed s i)
    (hc : i.clear = false) : (s.fifo.cycle i).Represents (queueNext s.queue i) := by
  have hwrote : (i.wr.elim s.fifo s.fifo.wrote).Represents (s.queue ++ i.wr.toList) := by
    cases hw : i.wr with
    | none =>
      rw [Option.toList_none, List.append_nil]
      exact h
    | some d =>
      have hnot : s.queue.length ≠ els := by
        intro hlen
        have hfull := h.full_iff.mpr hlen
        rw [hok.1 (by rw [hw]; rfl)] at hfull
        cases hfull
      have hroom := h.room
      exact h.wrote (by omega) d
  cases hr : i.rdReq with
  | false => simpa [PeekFifo.cycle, queueNext, hc, hr] using hwrote
  | true =>
    have hne : s.queue ≠ [] := by
      intro hnil
      apply hok.2 hr
      apply BitVec.eq_of_toNat_eq
      rw [h.numEls, hnil]
      rfl
    have htook := hwrote.took (by simp [hne])
    rw [List.tail_append_of_ne_nil hne] at htook
    simpa [PeekFifo.cycle, queueNext, hc, hr] using htook

/-- In every run that respects the count, the FIFO is a queue of `els` entries that shows the two
oldest ones. -/
theorem peek_fifo_exact (hels : 2 ≤ els) (h : Reach Init step Allowed s) : Exact s := by
  refine exact_of_represents hels (h.invariant (I := fun t => t.fifo.Represents t.queue)
    (fun _ => represents_init hels) ?_)
  intro t i t' ht hok hs
  cases hs
  cases hc : i.clear with
  | false => exact represents_moves ht hok hc
  | true =>
    simp only [queueNext, hc, if_true]
    exact represents_clear hels hc

/-- Three entries, not a power of two: the FIFO runs full behind the end of its memory. -/
theorem peek_fifo_exact_wrapped : ∃ s : PeekSystem 3 Nat, Reach Init step Allowed s ∧
    (s.queue = [6, 7, 8] ∧ s.fifo.wrWrapBit = true ∧ s.fifo.numEls = 3) ∧ Exact s := by
  have hrun : ∃ s : PeekSystem 3 Nat, Reach Init step Allowed s ∧
      decide (s.queue = [6, 7, 8] ∧ s.fifo.wrWrapBit = true ∧ s.fifo.numEls = 3) = true :=
    Reach.exists_of_run (s := ⟨⟨fun _ => 0, 0, false, 0, false⟩, []⟩)
      [⟨some 4, false, false⟩, ⟨some 1, true, true⟩, ⟨some 5, false, false⟩,
        ⟨some 6, false, false⟩, ⟨some 7, true, false⟩, ⟨some 8, false, false⟩]
      ⟨rfl, rfl, rfl, rfl, rfl⟩ (by decide +kernel)
  obtain ⟨s, hr, hp⟩ := hrun
  exact ⟨s, hr, decide_eq_true_iff.mp hp, peek_fifo_exact (by decide) hr⟩

end PeekSystem

end TcpHw
