import Mathlib.Algebra.Ring.Nat
import Mathlib.Data.List.Basic

/-!
# `fifo_2w` at the depth of the scheduler

A queue with two write ports and one read port. It keeps at most `FIFO_DEPTH - 1`
entries, an entry written into an empty queue can be read in the same cycle, and
a write that finds too little room is dropped without a sign. A port's valid bit and
data are one `Option`.
-/
namespace TcpHw

set_option autoImplicit false

/-- The registers, at `FIFO_DEPTH = MAX_FLOW_CNT = 16`. -/
structure Fifo2w (α : Type) where
  fifo : BitVec 4 → α
  headPtr : BitVec 4
  tailPtr : BitVec 4
  usedCnt : Nat
  empty : Bool
  full : Bool

namespace Fifo2w

variable {α : Type}

/-- After reset every cell holds `ELEM_NONE`. -/
def reset (elemNone : α) : Fifo2w α where
  fifo _ := elemNone
  headPtr := 0
  tailPtr := 0
  usedCnt := 0
  empty := true
  full := false

/-- `srtd_w_val_0`, `srtd_w_data_0` -/
def srtdW0 (f : Fifo2w α) (w0 w1 : Option α) : Option α :=
  if f.usedCnt < 15 then w0.or w1 else none

/-- `srtd_w_val_1`, `srtd_w_data_1` -/
def srtdW1 (f : Fifo2w α) (w0 w1 : Option α) : Option α :=
  if f.usedCnt < 14 then (if w0.isSome then w1 else none) else none

def addedCnt (f : Fifo2w α) (w0 w1 : Option α) : Nat :=
  if (f.srtdW1 w0 w1).isSome then 2 else if (f.srtdW0 w0 w1).isSome then 1 else 0

/-- `data_avail` and `r_data`; without data the output is `ELEM_NONE`, which no one reads. -/
def rData (f : Fifo2w α) (w0 w1 : Option α) : Option α :=
  if f.empty then f.srtdW0 w0 w1 else some (f.fifo f.headPtr)

def usedCntNext (f : Fifo2w α) (w0 w1 : Option α) (rVal : Bool) : Nat :=
  if f.usedCnt + f.addedCnt w0 w1 == 0 && rVal then 0
  else f.usedCnt + f.addedCnt w0 w1 - rVal.toNat

def headPtrNext (f : Fifo2w α) (w0 w1 : Option α) (rVal : Bool) : BitVec 4 :=
  if rVal && (!f.empty || (f.srtdW0 w0 w1).isSome) then f.headPtr + 1 else f.headPtr

def fifoNext (f : Fifo2w α) (w0 w1 : Option α) (i : BitVec 4) : α :=
  ((if i = f.tailPtr then f.srtdW0 w0 w1 else none).or
    (if i = f.tailPtr + 1 then f.srtdW1 w0 w1 else none)).getD (f.fifo i)

/-- One clock edge. -/
def step (f : Fifo2w α) (w0 w1 : Option α) (rVal : Bool) : Fifo2w α where
  fifo := f.fifoNext w0 w1
  headPtr := f.headPtrNext w0 w1 rVal
  tailPtr := if f.full then f.tailPtr else f.tailPtr + BitVec.ofNat 4 (f.addedCnt w0 w1)
  usedCnt := if 15 ≤ f.usedCntNext w0 w1 rVal then 15 else f.usedCntNext w0 w1 rVal
  empty := f.usedCntNext w0 w1 rVal == 0
  full := decide (15 ≤ f.usedCntNext w0 w1 rVal)

/-- The registers hold the list `q`, oldest entry first. -/
structure Represents (f : Fifo2w α) (q : List α) : Prop where
  used : f.usedCnt = q.length
  length_le : q.length ≤ 15
  empty_eq : f.empty = q.isEmpty
  full_eq : f.full = decide (15 ≤ q.length)
  tail_eq : f.tailPtr = f.headPtr + BitVec.ofNat 4 q.length
  cells : ∀ i (hi : i < q.length), f.fifo (f.headPtr + BitVec.ofNat 4 i) = q[i]

theorem represents_reset (elemNone : α) : Represents (reset elemNone) [] := by
  constructor <;> simp [reset]

/-- The entries the registers hold, oldest first. -/
def contents (f : Fifo2w α) : List α :=
  (List.range f.usedCnt).map fun i => f.fifo (f.headPtr + BitVec.ofNat 4 i)

theorem Represents.contents_eq {f : Fifo2w α} {q : List α} (h : Represents f q) :
    f.contents = q := by
  apply List.ext_getElem
  · simp [contents, h.used]
  · intro i h1 h2
    simp [contents, h.cells i h2]

/-- The writes that find room, in the order in which they are queued. -/
def accepted (used : Nat) (w0 w1 : Option α) : List α :=
  match w0, w1 with
  | some a, some b => if used < 14 then [a, b] else if used < 15 then [a] else []
  | some a, none => if used < 15 then [a] else []
  | none, some b => if used < 15 then [b] else []
  | none, none => []

theorem srtdW0_eq (f : Fifo2w α) (w0 w1 : Option α) :
    f.srtdW0 w0 w1 = (accepted f.usedCnt w0 w1)[0]? := by
  unfold srtdW0 accepted
  cases w0 <;> cases w1 <;> grind

theorem srtdW1_eq (f : Fifo2w α) (w0 w1 : Option α) :
    f.srtdW1 w0 w1 = (accepted f.usedCnt w0 w1)[1]? := by
  unfold srtdW1 accepted
  cases w0 <;> cases w1 <;> grind

theorem accepted_length_le (used : Nat) (w0 w1 : Option α) :
    (accepted used w0 w1).length ≤ 2 ∧
      (used ≤ 15 → used + (accepted used w0 w1).length ≤ 15) := by
  unfold accepted
  cases w0 <;> cases w1 <;> grind

theorem accepted_all {used : Nat} {w0 w1 : Option α}
    (h : used + w0.toList.length + w1.toList.length ≤ 15) :
    accepted used w0 w1 = w0.toList ++ w1.toList := by
  unfold accepted
  cases w0 <;> cases w1 <;> grind

theorem addedCnt_eq (f : Fifo2w α) (w0 w1 : Option α) :
    f.addedCnt w0 w1 = (accepted f.usedCnt w0 w1).length := by
  have hle := (accepted_length_le f.usedCnt w0 w1).1
  rw [addedCnt, srtdW0_eq, srtdW1_eq]
  grind

/-- What the read port offers is the oldest entry, a fresh one included. -/
theorem rData_eq {f : Fifo2w α} {q : List α} (h : Represents f q) (w0 w1 : Option α) :
    f.rData w0 w1 = (q ++ accepted f.usedCnt w0 w1).head? := by
  unfold rData
  rw [h.empty_eq, srtdW0_eq]
  cases q with
  | nil => simp [List.head?_eq_getElem?]
  | cons a q =>
    have hc := h.cells 0 (by simp)
    simpa using hc

private theorem cell_ne {h : BitVec 4} {i j : Nat} (hij : i < j) (hj : j < i + 16) :
    h + BitVec.ofNat 4 i ≠ h + BitVec.ofNat 4 j := by
  intro he
  have he' := congrArg BitVec.toNat he
  simp only [BitVec.toNat_add, BitVec.toNat_ofNat] at he'
  omega

/-- After the writes of a cycle the cells hold the old list followed by the new entries. -/
theorem fifoNext_cells {f : Fifo2w α} {q : List α} (h : Represents f q) (w0 w1 : Option α)
    (i : Nat) (hi : i < (q ++ accepted f.usedCnt w0 w1).length) :
    f.fifoNext w0 w1 (f.headPtr + BitVec.ofNat 4 i) = (q ++ accepted f.usedCnt w0 w1)[i] := by
  have hused := h.used
  have hacc := (accepted_length_le f.usedCnt w0 w1).2 (h.used ▸ h.length_le)
  have hle := (accepted_length_le f.usedCnt w0 w1).1
  have htail1 : f.tailPtr + 1 = f.headPtr + BitVec.ofNat 4 (q.length + 1) := by
    rw [h.tail_eq, BitVec.ofNat_add, BitVec.add_assoc]
    rfl
  unfold fifoNext
  rw [srtdW0_eq, srtdW1_eq, htail1, h.tail_eq]
  rw [List.length_append] at hi
  by_cases hq : i < q.length
  · -- an old cell is neither of the written ones, also when the queue is nearly full
    have h0 : f.headPtr + BitVec.ofNat 4 i ≠ f.headPtr + BitVec.ofNat 4 q.length :=
      cell_ne hq (by omega)
    rw [if_neg h0, Option.none_or, List.getElem_append_left hq, ← h.cells i hq]
    by_cases ha : (accepted f.usedCnt w0 w1).length = 2
    · have h1 : f.headPtr + BitVec.ofNat 4 i ≠ f.headPtr + BitVec.ofNat 4 (q.length + 1) :=
        cell_ne (by omega) (by omega)
      rw [if_neg h1, Option.getD_none]
    · rw [List.getElem?_eq_none (by omega), ite_self, Option.getD_none]
  · rw [List.getElem_append_right (by omega)]
    by_cases h0 : i = q.length
    · subst h0
      rw [if_pos rfl, List.getElem?_eq_getElem (by omega), Option.some_or, Option.getD_some]
      simp
    · have h1 : i = q.length + 1 := by omega
      subst h1
      have hne : f.headPtr + BitVec.ofNat 4 (q.length + 1) ≠
          f.headPtr + BitVec.ofNat 4 q.length := (cell_ne (by omega) (by omega)).symm
      rw [if_neg hne, if_pos rfl, Option.none_or, List.getElem?_eq_getElem (by omega),
        Option.getD_some]
      simp

/-- One cycle of a queue whose read port is used only when data is available. -/
theorem represents_step {f : Fifo2w α} {q : List α} (h : Represents f q) {w0 w1 : Option α}
    {rVal : Bool} (hr : rVal = true → (f.rData w0 w1).isSome = true) :
    Represents (f.step w0 w1 rVal) ((q ++ accepted f.usedCnt w0 w1).drop rVal.toNat) := by
  have hacc := (accepted_length_le f.usedCnt w0 w1).2 (h.used ▸ h.length_le)
  have hcells := fifoNext_cells h w0 w1
  have hused := h.used
  rw [rData_eq h] at hr
  have hne : rVal = true → 0 < (q ++ accepted f.usedCnt w0 w1).length := by
    intro hv
    have hs := hr hv
    rw [List.isSome_head?] at hs
    exact List.length_pos_iff.mpr (by simpa using hs)
  have hnext : f.usedCntNext w0 w1 rVal =
      (q ++ accepted f.usedCnt w0 w1).length - rVal.toNat := by
    unfold usedCntNext
    rw [addedCnt_eq, List.length_append, hused]
    split
    · rename_i h0
      simp only [Bool.and_eq_true, beq_iff_eq] at h0
      omega
    · rfl
  have hhead : f.headPtrNext w0 w1 rVal = f.headPtr + BitVec.ofNat 4 rVal.toNat := by
    unfold headPtrNext
    cases rVal with
    | false => simp
    | true =>
      have havail : (!f.empty || (f.srtdW0 w0 w1).isSome) = true := by
        rw [h.empty_eq, srtdW0_eq]
        have hpos := hne rfl
        cases q with
        | nil => simpa using hpos
        | cons a q => rfl
      simp [havail]
  generalize hg : q ++ accepted f.usedCnt w0 w1 = r at hnext hcells hne
  have hlen : r.length = q.length + (accepted f.usedCnt w0 w1).length := by
    rw [← hg, List.length_append]
  have hrv : rVal.toNat ≤ r.length := by
    cases hv : rVal with
    | false => exact Nat.zero_le _
    | true => exact hne hv
  constructor
  · rw [List.length_drop]
    change (if 15 ≤ f.usedCntNext w0 w1 rVal then 15 else f.usedCntNext w0 w1 rVal) = _
    rw [hnext]
    split <;> omega
  · rw [List.length_drop]
    omega
  · change (f.usedCntNext w0 w1 rVal == 0) = _
    rw [hnext, Bool.eq_iff_iff, beq_iff_eq, List.isEmpty_iff, List.drop_eq_nil_iff]
    omega
  · change decide (15 ≤ f.usedCntNext w0 w1 rVal) = _
    rw [hnext, List.length_drop]
  · rw [List.length_drop]
    change (if f.full then f.tailPtr else f.tailPtr + BitVec.ofNat 4 (f.addedCnt w0 w1)) =
      f.headPtrNext w0 w1 rVal + _
    rw [hhead, h.full_eq, h.tail_eq, addedCnt_eq, BitVec.add_assoc, BitVec.add_assoc,
      ← BitVec.ofNat_add, ← BitVec.ofNat_add]
    by_cases hfull : 15 ≤ q.length
    · rw [if_pos (by simpa using hfull)]
      congr 2
      omega
    · rw [if_neg (by simpa using hfull)]
      congr 2
      omega
  · intro i hi
    rw [List.length_drop] at hi
    change f.fifoNext w0 w1 (f.headPtrNext w0 w1 rVal + _) = _
    rw [hhead, BitVec.add_assoc, ← BitVec.ofNat_add, List.getElem_drop]
    exact hcells (rVal.toNat + i) (by omega)

end Fifo2w

end TcpHw
