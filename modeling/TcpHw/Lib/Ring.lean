import Mathlib.Algebra.Ring.Nat
import Mathlib.Logic.Function.Basic
import Mathlib.Data.List.GetD

/-!
# Circular memories

A memory addressed by `w` bits, written from an address upwards with wrap-around.
Positions are compared by their distance from the first written address. A queue in such a
memory has pointers with one bit more, which tells a full queue from an empty one.
-/
namespace TcpHw.Ring

variable {α : Type} {w : Nat}

/-- Store a list from address `p` on. -/
def write (m : BitVec w → α) (p : BitVec w) : List α → BitVec w → α
  | [] => m
  | b :: bs => write (Function.update m p b) (p + 1) bs

private theorem toNat_sub_succ {x p : BitVec w} (h : x ≠ p) :
    (x - p).toNat = (x - (p + 1)).toNat + 1 := by
  have hy : (x - p).toNat ≠ 0 := by
    intro h0
    have hz : x - p = 0#w := BitVec.eq_of_toNat_eq (by simpa using h0)
    exact h (by rw [← BitVec.sub_add_cancel x p, hz, BitVec.zero_add])
  have hw : 1 < 2 ^ w := by
    have hlt := (x - p).isLt
    omega
  have h1 : (1#w).toNat = 1 := by rw [BitVec.toNat_ofNat, Nat.mod_eq_of_lt hw]
  have hle : 1#w ≤ x - p := BitVec.le_def.mpr (by omega)
  have hs : (x - (p + 1)).toNat = (x - p).toNat - 1 := by
    rw [← BitVec.sub_sub, ← h1]
    exact BitVec.toNat_sub_of_le hle
  omega

private theorem toNat_sub_self_succ (p : BitVec w) : (p - (p + 1)).toNat = 2 ^ w - 1 := by
  have hn : p - (p + 1) = BitVec.allOnes w := by
    rw [← BitVec.sub_sub, BitVec.sub_self, BitVec.zero_sub]
    exact BitVec.neg_one_eq_allOnes
  rw [hn, BitVec.toNat_allOnes]

/-- The cell at distance `d` from the first address holds the `d`-th stored value, and
keeps its old one beyond the stored list. -/
theorem write_eq (m : BitVec w → α) (p x : BitVec w) {bs : List α} (h : bs.length ≤ 2 ^ w) :
    write m p bs x = bs.getD (x - p).toNat (m x) := by
  induction bs generalizing m p with
  | nil => rfl
  | cons b bs ih =>
    have hl : bs.length + 1 ≤ 2 ^ w := h
    rw [write, ih _ _ (by omega)]
    by_cases hx : x = p
    · subst hx
      have ho : bs.length ≤ (x - (x + 1)).toNat := by rw [toNat_sub_self_succ]; omega
      rw [List.getD_eq_default _ _ ho, Function.update_self, BitVec.sub_self]
      rfl
    · rw [toNat_sub_succ hx, Function.update_of_ne hx]
      rfl

/-! ### Lists held in consecutive cells -/

/-- The cells from `p` on hold the list. -/
def Holds (m : BitVec w → α) (p : BitVec w) (l : List α) : Prop :=
  ∀ k (h : k < l.length), m (p + BitVec.ofNat w k) = l[k]

theorem Holds.nil (m : BitVec w → α) (p : BitVec w) : Holds m p [] := by
  intro k h
  cases h

theorem Holds.head {m : BitVec w → α} {p : BitVec w} {a : α} {l : List α}
    (h : Holds m p (a :: l)) : m p = a := by
  have h0 := h 0 (Nat.zero_lt_succ _)
  simpa using h0

theorem offset_succ (p : BitVec w) (k : Nat) :
    p + BitVec.ofNat w (k + 1) = p + 1 + BitVec.ofNat w k := by
  rw [Nat.add_comm k 1, BitVec.ofNat_add, ← BitVec.add_assoc]
  rfl

theorem Holds.tail {m : BitVec w → α} {p : BitVec w} {a : α} {l : List α}
    (h : Holds m p (a :: l)) : Holds m (p + 1) l := by
  intro k hk
  have hs := h (k + 1) (Nat.succ_lt_succ hk)
  rw [List.getElem_cons_succ, offset_succ] at hs
  exact hs

theorem Holds.left {m : BitVec w → α} {p : BitVec w} {l l' : List α}
    (h : Holds m p (l ++ l')) : Holds m p l := by
  intro k hk
  rw [h k (by rw [List.length_append]; omega), List.getElem_append_left hk]

private theorem offset_inj {p : BitVec w} {j k : Nat} (hj : j < 2 ^ w) (hk : k < 2 ^ w)
    (h : p + BitVec.ofNat w j = p + BitVec.ofNat w k) : j = k := by
  have hjk := congrArg BitVec.toNat ((BitVec.add_right_inj p).mp h)
  simpa [Nat.mod_eq_of_lt hj, Nat.mod_eq_of_lt hk] using hjk

/-- Storing behind the list, as long as it does not reach round to its own head. -/
theorem Holds.push {m : BitVec w → α} {p : BitVec w} {l : List α} (h : Holds m p l)
    (hl : l.length < 2 ^ w) (a : α) :
    Holds (Function.update m (p + BitVec.ofNat w l.length) a) p (l ++ [a]) := by
  intro k hk
  rw [List.length_append, List.length_singleton] at hk
  by_cases he : k = l.length
  · subst he
    simp
  · have hlt : k < l.length := by omega
    have hne : p + BitVec.ofNat w k ≠ p + BitVec.ofNat w l.length :=
      fun heq => he (offset_inj (by omega) hl heq)
    rw [Function.update_of_ne hne, List.getElem_append_left hlt, h k hlt]

/-! ### Slices -/

/-- The `n` cells from `p` on. -/
def slice (m : BitVec w → α) (p : BitVec w) (n : Nat) : List α :=
  (List.range n).map fun k => m (p + BitVec.ofNat w k)

@[simp] theorem slice_zero (m : BitVec w → α) (p : BitVec w) : slice m p 0 = [] := rfl

theorem slice_add (m : BitVec w → α) (p : BitVec w) (a b : Nat) :
    slice m p (a + b) = slice m p a ++ slice m (p + BitVec.ofNat w a) b := by
  unfold slice
  rw [List.range_add, List.map_append, List.map_map]
  congr 1
  refine List.map_congr_left fun k _ => ?_
  rw [Function.comp_apply, BitVec.ofNat_add, BitVec.add_assoc]

theorem slice_push (m : BitVec w → α) (p : BitVec w) {n : Nat} (hn : n < 2 ^ w) (a : α) :
    slice (Function.update m (p + BitVec.ofNat w n) a) p (n + 1) = slice m p n ++ [a] := by
  rw [slice_add]
  congr 1
  · refine List.map_congr_left fun k hk => ?_
    rw [List.mem_range] at hk
    refine Function.update_of_ne (fun heq => ?_) _ _
    have := offset_inj (by omega) hn heq
    omega
  · simp [slice]

/-- Storing behind a slice extends it, as long as it does not reach round to its own head. -/
theorem slice_write (m : BitVec w → α) (p : BitVec w) (n : Nat) {bs : List α}
    (h : n + bs.length ≤ 2 ^ w) :
    slice (write m (p + BitVec.ofNat w n) bs) p (n + bs.length) = slice m p n ++ bs := by
  induction bs generalizing m n with
  | nil => simp [write]
  | cons b bs ih =>
    rw [List.length_cons] at h ⊢
    have hnext : p + BitVec.ofNat w n + 1 = p + BitVec.ofNat w (n + 1) := by
      rw [offset_succ, BitVec.add_assoc, BitVec.add_comm (BitVec.ofNat w n), ← BitVec.add_assoc]
    have hlen : n + (bs.length + 1) = n + 1 + bs.length := by omega
    rw [write, hnext, hlen, ih _ _ (by omega), slice_push _ _ (by omega), List.append_assoc,
      List.singleton_append]

/-! ### Pointers with a wrap bit -/

/-- The cell a pointer with a wrap bit stands for. -/
def addr (p : BitVec (w + 1)) : BitVec w := p.setWidth w

theorem addr_add (p : BitVec (w + 1)) (k : Nat) :
    addr (p + BitVec.ofNat (w + 1) k) = addr p + BitVec.ofNat w k := by
  unfold addr
  rw [BitVec.setWidth_add _ _ (Nat.le_succ w), BitVec.setWidth_ofNat_of_le (Nat.le_succ w)]

theorem addr_succ (p : BitVec (w + 1)) : addr (p + 1) = addr p + 1 := addr_add p 1

theorem sub_offset (p : BitVec w) {k : Nat} (hk : k < 2 ^ w) :
    (p + BitVec.ofNat w k - p).toNat = k := by
  rw [BitVec.add_comm, BitVec.add_sub_cancel, BitVec.toNat_ofNat, Nat.mod_eq_of_lt hk]

/-- Pointers on the same cell and the same wrap are equal. -/
theorem same_iff {p q : BitVec (w + 1)} : addr p = addr q ∧ p.msb = q.msb ↔ p = q := by
  constructor
  · rintro ⟨ha, hm⟩
    rw [← BitVec.cons_msb_setWidth p, ← BitVec.cons_msb_setWidth q, hm]
    exact congrArg _ ha
  · rintro rfl
    exact ⟨rfl, rfl⟩

/-- A pointer is on the same cell and the other wrap exactly at the distance of all cells. -/
theorem wrapped_iff (p : BitVec (w + 1)) {k : Nat} (hk : k ≤ 2 ^ w) :
    (addr p = addr (p + BitVec.ofNat (w + 1) k) ∧
      p.msb ≠ (p + BitVec.ofNat (w + 1) k).msb) ↔ k = 2 ^ w := by
  have hpow : 2 ^ (w + 1) = 2 ^ w + 2 ^ w := by rw [Nat.pow_succ]; omega
  have hpos : 0 < 2 ^ w := Nat.two_pow_pos w
  constructor
  · rintro ⟨ha, hm⟩
    by_contra hne
    rw [addr_add] at ha
    have h0 : k = 0 := by
      have hz : addr p + BitVec.ofNat w 0 = addr p + BitVec.ofNat w k := by simpa using ha
      exact (offset_inj hpos (by omega) hz).symm
    subst h0
    simp at hm
  · rintro rfl
    have ha : addr p = addr (p + BitVec.ofNat (w + 1) (2 ^ w)) := by
      have hz : BitVec.ofNat w (2 ^ w) = 0#w := BitVec.eq_of_toNat_eq (by
        rw [BitVec.toNat_ofNat, Nat.mod_self, BitVec.toNat_zero])
      rw [addr_add, hz, BitVec.add_zero]
    refine ⟨ha, fun hm => ?_⟩
    have heq := same_iff.mp ⟨ha, hm⟩
    have hz : p + BitVec.ofNat (w + 1) 0 = p + BitVec.ofNat (w + 1) (2 ^ w) := by simpa using heq
    have h0 := offset_inj (by omega) (by omega) hz
    omega

end TcpHw.Ring
