import TcpHw.Lib.Bytes
import Mathlib.Logic.Function.Basic

/-!
# Memories of bytes

A memory gives the byte at every address. It may be accessed by lines of `n` bytes: a line is read
as one value and is written with an enable for each of its bytes, the first byte and its enable
being the most significant ones.
-/
namespace TcpHw.Bytes

variable {n : Nat} {mem f : Nat → BitVec 8} {addr : Nat → Nat}

/-! ### Bytes one after the other -/

/-- The first bytes of `f` are stored in order, byte `k` at address `addr k`. -/
def storeBytes (addr : Nat → Nat) (f mem : Nat → BitVec 8) : Nat → Nat → BitVec 8
  | 0 => mem
  | k + 1 => Function.update (storeBytes addr f mem k) (addr k) (f k)

theorem storeBytes_add (p c : Nat) : storeBytes addr f mem (p + c) =
    storeBytes (fun k => addr (p + k)) (fun k => f (p + k)) (storeBytes addr f mem p) c := by
  induction c with
  | zero => rfl
  | succ c ih =>
    show Function.update (storeBytes addr f mem (p + c)) _ _ = _
    rw [ih]
    rfl

theorem storeBytes_frame {n x : Nat} (h : ∀ k < n, addr k ≠ x) :
    storeBytes addr f mem n x = mem x := by
  induction n with
  | zero => rfl
  | succ n ih =>
    rw [storeBytes, Function.update_of_ne (h n (Nat.lt_succ_self n)).symm]
    exact ih fun k hk => h k (by omega)

/-- Bytes at different addresses do not disturb each other. -/
theorem storeBytes_apply {n k : Nat} (hinj : ∀ i < n, ∀ j < n, addr i = addr j → i = j) (hk : k < n) :
    storeBytes addr f mem n (addr k) = f k := by
  induction n with
  | zero => omega
  | succ n ih =>
    rw [storeBytes]
    by_cases he : k = n
    · rw [he, Function.update_self]
    · have hne : addr k ≠ addr n := fun h => he (hinj k hk n (Nat.lt_succ_self n) h)
      rw [Function.update_of_ne hne]
      exact ih (fun i hi j hj => hinj i (by omega) j (by omega)) (by omega)

/-- Stores to neighbouring addresses. -/
theorem storeBytes_block {base c : Nat} (h : ∀ k < c, addr k = base + k) (x : Nat) :
    storeBytes addr f mem c x = if base ≤ x ∧ x < base + c then f (x - base) else mem x := by
  induction c with
  | zero => rw [storeBytes, if_neg (by omega)]
  | succ c ih =>
    have hc : addr c = base + c := h c (Nat.lt_succ_self c)
    rw [storeBytes, hc]
    by_cases hx : x = base + c
    · subst hx
      rw [Function.update_self, if_pos (by omega), Nat.add_sub_cancel_left]
    · rw [Function.update_of_ne hx, ih fun k hk => h k (by omega)]
      by_cases hin : base ≤ x ∧ x < base + c
      · rw [if_pos hin, if_pos (by omega)]
      · rw [if_neg hin, if_neg (by omega)]

/-! ### Lines -/

/-- The line with the given bytes. -/
def lineOf : (n : Nat) → (Nat → BitVec 8) → BitVec (8 * n)
  | 0, _ => 0#0
  | n + 1, f => lineOf n f ++ f n

theorem byte_lineOf {i : Nat} (h : i < n) : byte (lineOf n f) i = f i := by
  refine BitVec.eq_of_getLsbD_eq fun j hj => ?_
  rw [getLsbD_byte _ _ hj]
  induction n with
  | zero => omega
  | succ n ih =>
    show (lineOf n f ++ f n).getLsbD _ = _
    rw [BitVec.getLsbD_append]
    by_cases hi : i = n
    · subst hi
      have hlow : 8 * (i + 1 - 1 - i) + j = j := by omega
      rw [hlow, if_pos hj]
    · have hidx : 8 * (n + 1 - 1 - i) + j - 8 = 8 * (n - 1 - i) + j := by omega
      rw [if_neg (by omega), hidx]
      exact ih (by omega)

/-- The line with the first bytes of a list. -/
theorem lineBytes_lineOf {bs : List (BitVec 8)} (h : n ≤ bs.length) :
    lineBytes (lineOf n fun i => bs.getD i 0) = bs.take n := by
  refine List.ext_getElem (by simp [h]) fun i hi _ => ?_
  rw [length_lineBytes] at hi
  have hlt : i < bs.length := by omega
  simp only [lineBytes, List.getElem_map, List.getElem_range, List.getElem_take, byte_lineOf hi,
    List.getD_eq_getElem?_getD, List.getElem?_eq_getElem hlt, Option.getD_some]

/-- The line number `l`. -/
def readLine (n : Nat) (mem : Nat → BitVec 8) (l : Nat) : BitVec (8 * n) :=
  lineOf n fun j => mem (n * l + j)

theorem byte_readLine {l i : Nat} (h : i < n) : byte (readLine n mem l) i = mem (n * l + i) :=
  byte_lineOf h

/-- The enabled bytes of line number `l` are replaced. -/
def writeLine (mem : Nat → BitVec 8) (l : Nat) (data : BitVec (8 * n)) (en : BitVec n) :
    Nat → BitVec 8 :=
  fun x => if x / n = l ∧ en.getMsbD (x % n) = true then byte data (x % n) else mem x

/-- The enabled bytes are `c` neighbouring ones, from byte `b` of the line on. -/
theorem writeLine_eq_storeBytes {l b c : Nat} {data : BitVec (8 * n)} {en : BitVec n}
    (hfit : b + c ≤ n) (haddr : ∀ k < c, addr k = n * l + b + k)
    (hen : ∀ i < n, en.getMsbD i = true ↔ b ≤ i ∧ i < b + c)
    (hdata : ∀ k < c, byte data (b + k) = f k) :
    writeLine mem l data en = storeBytes addr f mem c := by
  funext x
  rw [storeBytes_block haddr, writeLine]
  by_cases hin : n * l + b ≤ x ∧ x < n * l + b + c
  · obtain ⟨hlo, hhi⟩ := hin
    have hn : 0 < n := by omega
    have hx : x = n * l + (x - n * l) := by omega
    have hlt : x - n * l < n := by omega
    have hdiv : x / n = l := by
      rw [hx, Nat.mul_add_div hn, Nat.div_eq_of_lt hlt, Nat.add_zero]
    have hmod : x % n = x - n * l := by
      have hsum := Nat.div_add_mod x n
      rw [hdiv] at hsum
      omega
    have hb := hdata (x - (n * l + b)) (by omega)
    have hbk : b + (x - (n * l + b)) = x - n * l := by omega
    rw [hbk] at hb
    rw [if_pos ⟨hdiv, (hen _ (by omega)).mpr (by omega)⟩, if_pos ⟨hlo, hhi⟩, hmod, hb]
  · rw [if_neg hin, if_neg]
    rintro ⟨rfl, hbit⟩
    rcases Nat.eq_zero_or_pos n with rfl | hn
    · simp at hbit
    · have hlt := Nat.mod_lt x hn
      have hsum := Nat.div_add_mod x n
      have hi := (hen _ hlt).mp hbit
      omega

end TcpHw.Bytes
