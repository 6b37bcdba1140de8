import Mathlib.Algebra.Ring.Nat
import Mathlib.Data.List.GetD

/-!
# Lines of bytes

A line is a bit vector of `n` bytes and its first byte is the most significant one. Two
neighbouring lines are realigned by shifting their concatenation. A list of lines is a stream
of bytes.
-/
namespace TcpHw.Bytes

variable {n : Nat}

/-- Byte `i` of a line, the most significant byte first. -/
def byte (x : BitVec (8 * n)) (i : Nat) : BitVec 8 := x.extractLsb' (8 * (n - 1 - i)) 8

/-- The upper line of two neighbouring lines shifted left by `k` bits. -/
def upperShl (a b : BitVec (8 * n)) (k : Nat) : BitVec (8 * n) :=
  ((a ++ b) <<< k).extractLsb' (8 * n) (8 * n)

theorem getLsbD_byte (x : BitVec (8 * n)) (i : Nat) {j : Nat} (hj : j < 8) :
    (byte x i).getLsbD j = x.getLsbD (8 * (n - 1 - i) + j) := by
  simp [byte, hj]

/-- Shifting by whole bytes reads on in the next line. -/
theorem byte_upperShl (a b : BitVec (8 * n)) {s i : Nat} (hs : s ≤ n) (hi : i < n) :
    byte (upperShl a b (8 * s)) i = if s + i < n then byte a (s + i) else byte b (s + i - n) := by
  refine BitVec.eq_of_getLsbD_eq fun j hj => ?_
  rw [getLsbD_byte _ _ hj]
  have hin : 8 * (n - 1 - i) + j < 8 * n := by omega
  simp only [upperShl, BitVec.getLsbD_extractLsb', hin, decide_true, Bool.true_and,
    BitVec.getLsbD_shiftLeft, BitVec.getLsbD_append]
  have hlt : 8 * n + (8 * (n - 1 - i) + j) < 8 * n + 8 * n := by omega
  have hge : ¬ 8 * n + (8 * (n - 1 - i) + j) < 8 * s := by omega
  simp only [hlt, hge, decide_true, decide_false, Bool.not_false, Bool.true_and]
  split
  · rename_i hb
    rw [if_neg (by omega : ¬ s + i < n), getLsbD_byte _ _ hj]
    congr 1
    omega
  · rename_i hb
    rw [if_pos (by omega : s + i < n), getLsbD_byte _ _ hj]
    congr 1
    omega

/-- The lower line of two neighbouring lines shifted left by `k` bits. -/
def lowerShl (a b : BitVec (8 * n)) (k : Nat) : BitVec (8 * n) :=
  ((a ++ b) <<< k).extractLsb' 0 (8 * n)

theorem byte_lowerShl (a b : BitVec (8 * n)) {s i : Nat} (hi : s + i < n) :
    byte (lowerShl a b (8 * s)) i = byte b (s + i) := by
  refine BitVec.eq_of_getLsbD_eq fun j hj => ?_
  rw [getLsbD_byte _ _ hj, getLsbD_byte _ _ hj]
  have hin : 8 * (n - 1 - i) + j < 8 * n := by omega
  have hge : ¬ 8 * (n - 1 - i) + j < 8 * s := by omega
  have hlt : 8 * (n - 1 - i) + j < 8 * n + 8 * n := by omega
  have hb : 8 * (n - 1 - i) + j - 8 * s < 8 * n := by omega
  simp only [lowerShl, BitVec.getLsbD_extractLsb', hin, decide_true, Bool.true_and, Nat.zero_add,
    BitVec.getLsbD_shiftLeft, BitVec.getLsbD_append, hge, hlt, decide_false, Bool.not_false, hb,
    if_true]
  congr 1
  omega

/-- Shifting right by whole bytes moves the first bytes back. -/
theorem byte_ushiftRight (a : BitVec (8 * n)) {s i : Nat} (hi : s + i < n) :
    byte (a >>> (8 * s)) (s + i) = byte a i := by
  refine BitVec.eq_of_getLsbD_eq fun j hj => ?_
  rw [getLsbD_byte _ _ hj, getLsbD_byte _ _ hj, BitVec.getLsbD_ushiftRight]
  congr 1
  omega

/-- Shifting left by whole bytes drops the first ones. -/
theorem byte_shiftLeft (a : BitVec (8 * n)) {s i : Nat} (hi : s + i < n) :
    byte (a <<< (8 * s)) i = byte a (s + i) := by
  refine BitVec.eq_of_getLsbD_eq fun j hj => ?_
  have hin : 8 * (n - 1 - i) + j < 8 * n := by omega
  have hge : ¬ 8 * (n - 1 - i) + j < 8 * s := by omega
  have hidx : 8 * (n - 1 - i) + j - 8 * s = 8 * (n - 1 - (s + i)) + j := by omega
  rw [getLsbD_byte _ _ hj, getLsbD_byte _ _ hj, BitVec.getLsbD_shiftLeft, hidx]
  simp only [hin, hge, decide_true, decide_false, Bool.not_false, Bool.true_and]

/-- Two pieces put together. -/
def join {m n : Nat} (a : BitVec (8 * m)) (b : BitVec (8 * n)) : BitVec (8 * (m + n)) :=
  BitVec.cast (Nat.mul_add 8 m n).symm (a ++ b)

theorem byte_join {m n : Nat} (a : BitVec (8 * m)) (b : BitVec (8 * n)) {i : Nat} (hi : i < m + n) :
    byte (join a b) i = if i < m then byte a i else byte b (i - m) := by
  refine BitVec.eq_of_getLsbD_eq fun j hj => ?_
  rw [getLsbD_byte _ _ hj]
  simp only [join, BitVec.getLsbD_cast, BitVec.getLsbD_append]
  by_cases him : i < m
  · have hge : ¬ 8 * (m + n - 1 - i) + j < 8 * n := by omega
    have hidx : 8 * (m + n - 1 - i) + j - 8 * n = 8 * (m - 1 - i) + j := by omega
    rw [if_pos him, if_neg hge, getLsbD_byte _ _ hj, hidx]
  · have hlt : 8 * (m + n - 1 - i) + j < 8 * n := by omega
    have hidx : 8 * (m + n - 1 - i) + j = 8 * (n - 1 - (i - m)) + j := by omega
    rw [if_neg him, if_pos hlt, getLsbD_byte _ _ hj, hidx]

/-! ### Streams -/

/-- Byte `k` of the lines taken one after the other. -/
def streamByte (l : List (BitVec (8 * n))) (k : Nat) : BitVec 8 := byte (l.getD (k / n) 0) (k % n)

theorem streamByte_append (l l' : List (BitVec (8 * n))) {k : Nat} (hk : k < n * l.length) :
    streamByte (l ++ l') k = streamByte l k := by
  have hlt : k / n < l.length := Nat.div_lt_of_lt_mul hk
  unfold streamByte
  rw [List.getD_append _ _ _ _ hlt]

/-- The bytes from a position on are those of the line there and of the next one. -/
theorem byte_upperShl_stream (l : List (BitVec (8 * n))) {m s i : Nat} (hs : s ≤ n) (hi : i < n) :
    byte (upperShl (l.getD m 0) (l.getD (m + 1) 0) (8 * s)) i = streamByte l (n * m + s + i) := by
  have hn : 0 < n := by omega
  rw [byte_upperShl _ _ hs hi]
  unfold streamByte
  have hsum : n * m + s + i = s + i + n * m := by omega
  rw [hsum, Nat.add_mul_div_left _ _ hn, Nat.add_mul_mod_self_left]
  split
  · rename_i hlt
    rw [Nat.div_eq_of_lt hlt, Nat.mod_eq_of_lt hlt, Nat.zero_add]
  · rename_i hge
    have hd : (s + i) / n = 1 := Nat.div_eq_of_lt_le (by omega) (by omega)
    rw [hd, Nat.add_comm 1 m]
    have hm : (s + i) % n = s + i - n := by
      rw [Nat.mod_eq_sub_mod (by omega), Nat.mod_eq_of_lt (by omega)]
    rw [hm]

/-- Two lines of a stream joined are its bytes from the first of them on. -/
theorem byte_join_stream (l : List (BitVec (8 * n))) {m i : Nat} (hi : i < n + n) :
    byte (join (l.getD m 0) (l.getD (m + 1) 0)) i = streamByte l (n * m + i) := by
  have hn : 0 < n := by omega
  rw [byte_join _ _ hi]
  unfold streamByte
  rw [Nat.mul_add_div hn, Nat.mul_add_mod]
  split
  · rename_i hlt
    rw [Nat.div_eq_of_lt hlt, Nat.mod_eq_of_lt hlt, Nat.add_zero]
  · rename_i hge
    have hd : i / n = 1 := Nat.div_eq_of_lt_le (by omega) (by omega)
    have hm : i % n = i - n := by rw [Nat.mod_eq_sub_mod (by omega), Nat.mod_eq_of_lt (by omega)]
    rw [hd, hm]

/-! ### Lines as lists -/

/-- The bytes of a line in order. -/
def lineBytes (x : BitVec (8 * n)) : List (BitVec 8) := (List.range n).map (byte x)

@[simp] theorem length_lineBytes (x : BitVec (8 * n)) : (lineBytes x).length = n := by
  simp [lineBytes]

/-- Bits cleared behind the first `j` bytes do not show in them. -/
theorem take_lineBytes_mask (x : BitVec (8 * n)) {k j : Nat} (hk : k ≤ 8 * (n - j)) :
    (lineBytes (x &&& BitVec.allOnes (8 * n) <<< k)).take j = (lineBytes x).take j := by
  refine List.ext_getElem (by simp) fun i hi _ => ?_
  simp only [List.length_take, length_lineBytes] at hi
  simp only [List.getElem_take, lineBytes, List.getElem_map, List.getElem_range]
  refine BitVec.eq_of_getLsbD_eq fun b hb => ?_
  have hge : ¬ 8 * (n - 1 - i) + b < k := by omega
  have hlt : 8 * (n - 1 - i) + b < 8 * n := by omega
  have hin : 8 * (n - 1 - i) + b - k < 8 * n := by omega
  rw [getLsbD_byte _ _ hb, getLsbD_byte _ _ hb]
  simp only [BitVec.getLsbD_and, BitVec.getLsbD_shiftLeft, BitVec.getLsbD_allOnes, hlt, hge, hin,
    decide_true, decide_false, Bool.not_false, Bool.and_true]

/-- Shifting two neighbouring lines by whole bytes drops as many of their bytes. -/
theorem lineBytes_upperShl (a b : BitVec (8 * n)) {s : Nat} (hs : s ≤ n) :
    lineBytes (upperShl a b (8 * s)) = ((lineBytes a ++ lineBytes b).drop s).take n := by
  refine List.ext_getElem (by simp; omega) ?_
  intro i hi _
  rw [length_lineBytes] at hi
  rw [List.getElem_take, List.getElem_drop, List.getElem_append]
  simp only [lineBytes, List.getElem_map, List.getElem_range, List.length_map, List.length_range]
  rw [byte_upperShl _ _ hs hi]
  split <;> rfl

/-! ### Lines put together -/

variable {m : Nat}

/-- The bytes of `a` and after them the first bytes of `x`, as many as fit. -/
def fill (a : BitVec (8 * m)) (x : BitVec (8 * n)) : BitVec (8 * n) :=
  (a ++ x.extractLsb' (8 * m) (8 * (n - m))).setWidth (8 * n)

theorem lineBytes_fill (a : BitVec (8 * m)) (x : BitVec (8 * n)) (h : m ≤ n) :
    lineBytes (fill a x) = lineBytes a ++ (lineBytes x).take (n - m) := by
  refine List.ext_getElem (by simp; omega) ?_
  intro i hi _
  rw [length_lineBytes] at hi
  rw [List.getElem_append]
  simp only [lineBytes, List.getElem_map, List.getElem_range, List.length_map, List.length_range,
    List.getElem_take]
  refine BitVec.eq_of_getLsbD_eq fun j hj => ?_
  rw [getLsbD_byte _ _ hj]
  have hin : 8 * (n - 1 - i) + j < 8 * n := by omega
  simp only [fill, BitVec.getLsbD_setWidth, hin, decide_true, Bool.true_and,
    BitVec.getLsbD_append]
  by_cases him : i < m
  · have hge : ¬ 8 * (n - 1 - i) + j < 8 * (n - m) := by omega
    have hidx : 8 * (n - 1 - i) + j - 8 * (n - m) = 8 * (m - 1 - i) + j := by omega
    rw [dif_pos him, if_neg hge, getLsbD_byte _ _ hj, hidx]
  · have hlt : 8 * (n - 1 - i) + j < 8 * (n - m) := by omega
    have hidx : 8 * m + (8 * (n - 1 - i) + j) = 8 * (n - 1 - (i - m)) + j := by omega
    rw [dif_neg him, if_pos hlt, getLsbD_byte _ _ hj, BitVec.getLsbD_extractLsb', hidx]
    simp [hlt]

/-- The last bytes of a line. -/
theorem lineBytes_setWidth (x : BitVec (8 * n)) (h : m ≤ n) :
    lineBytes (x.setWidth (8 * m)) = (lineBytes x).drop (n - m) := by
  refine List.ext_getElem (by simp; omega) ?_
  intro i hi _
  rw [length_lineBytes] at hi
  simp only [lineBytes, List.getElem_map, List.getElem_range, List.getElem_drop]
  refine BitVec.eq_of_getLsbD_eq fun j hj => ?_
  have hin : 8 * (m - 1 - i) + j < 8 * m := by omega
  have hidx : 8 * (m - 1 - i) + j = 8 * (n - 1 - (n - m + i)) + j := by omega
  rw [getLsbD_byte _ _ hj, getLsbD_byte _ _ hj, BitVec.getLsbD_setWidth, hidx]
  rw [hidx] at hin
  simp [hin]

/-- The first bytes of a line. -/
theorem byte_extract (x : BitVec (8 * n)) (h : m ≤ n) {i : Nat} (hi : i < m) :
    byte (x.extractLsb' (8 * (n - m)) (8 * m)) i = byte x i := by
  refine BitVec.eq_of_getLsbD_eq fun j hj => ?_
  have hin : 8 * (m - 1 - i) + j < 8 * m := by omega
  have hidx : 8 * (n - m) + (8 * (m - 1 - i) + j) = 8 * (n - 1 - i) + j := by omega
  rw [getLsbD_byte _ _ hj, getLsbD_byte _ _ hj, BitVec.getLsbD_extractLsb', hidx]
  simp [hin]

theorem lineBytes_extract (x : BitVec (8 * n)) (h : m ≤ n) :
    lineBytes (x.extractLsb' (8 * (n - m)) (8 * m)) = (lineBytes x).take m := by
  refine List.ext_getElem (by simp; omega) ?_
  intro i hi _
  rw [length_lineBytes] at hi
  simp only [lineBytes, List.getElem_map, List.getElem_range, List.getElem_take]
  exact byte_extract x h hi

/-- Some bytes of a line, behind `n - a - m` others and before `a` others. -/
theorem lineBytes_middle (x : BitVec (8 * n)) {a : Nat} (h : a + m ≤ n) :
    lineBytes (x.extractLsb' (8 * a) (8 * m)) = ((lineBytes x).take (n - a)).drop (n - a - m) := by
  refine List.ext_getElem (by simp; omega) ?_
  intro i hi _
  rw [length_lineBytes] at hi
  simp only [lineBytes, List.getElem_drop, List.getElem_take, List.getElem_map,
    List.getElem_range]
  refine BitVec.eq_of_getLsbD_eq fun j hj => ?_
  have hin : 8 * (m - 1 - i) + j < 8 * m := by omega
  have hidx : 8 * a + (8 * (m - 1 - i) + j) = 8 * (n - 1 - (n - a - m + i)) + j := by omega
  rw [getLsbD_byte _ _ hj, getLsbD_byte _ _ hj, BitVec.getLsbD_extractLsb', hidx]
  simp [hin]

/-- The two bytes from byte `off` on, counted from the end of the line, are replaced. -/
def setField (x : BitVec (8 * n)) (off : Nat) (c : BitVec 16) : BitVec (8 * n) :=
  x &&& ~~~((BitVec.allOnes 16).setWidth (8 * n) <<< (8 * off)) |||
    c.setWidth (8 * n) <<< (8 * off)

/-- Two neighbouring bytes of a list are replaced. -/
def setPair (bs : List (BitVec 8)) (i : Nat) (c : BitVec 16) : List (BitVec 8) :=
  (bs.set i (c.extractLsb' 8 8)).set (i + 1) (c.extractLsb' 0 8)

theorem lineBytes_setField (x : BitVec (8 * n)) {off : Nat} (c : BitVec 16) (h : off + 2 ≤ n) :
    lineBytes (setField x off c) = setPair (lineBytes x) (n - 2 - off) c := by
  refine List.ext_getElem (by simp [setPair]) ?_
  intro i hi _
  rw [length_lineBytes] at hi
  simp only [setPair, List.getElem_set, lineBytes, List.getElem_map, List.getElem_range]
  refine BitVec.eq_of_getLsbD_eq fun j hj => ?_
  have hin : 8 * (n - 1 - i) + j < 8 * n := by omega
  rw [getLsbD_byte _ _ hj]
  simp only [setField, BitVec.getLsbD_or, BitVec.getLsbD_and, BitVec.getLsbD_not,
    BitVec.getLsbD_shiftLeft, BitVec.getLsbD_setWidth, hin, decide_true, Bool.true_and,
    BitVec.getLsbD_allOnes]
  by_cases hlo : n - 2 - off + 1 = i
  · have hge : ¬ 8 * (n - 1 - i) + j < 8 * off := by omega
    have hidx : 8 * (n - 1 - i) + j - 8 * off = j := by omega
    have h16 : j < 16 := by omega
    have hjn : j < 8 * n := by omega
    simp [hlo, hge, hidx, h16, hjn, hj]
  · by_cases hhi : n - 2 - off = i
    · have hge : ¬ 8 * (n - 1 - i) + j < 8 * off := by omega
      have hidx : 8 * (n - 1 - i) + j - 8 * off = 8 + j := by omega
      have h16 : 8 + j < 16 := by omega
      have hjn : 8 + j < 8 * n := by omega
      simp [hhi, hge, hidx, h16, hjn, hj]
    · rw [if_neg hlo, if_neg hhi, getLsbD_byte _ _ hj]
      by_cases hlt : 8 * (n - 1 - i) + j < 8 * off
      · simp [hlt]
      · have hge : ¬ 8 * (n - 1 - i) + j - 8 * off < 16 := by omega
        have hbig : c.getLsbD (8 * (n - 1 - i) + j - 8 * off) = false :=
          BitVec.getLsbD_of_ge _ _ (by omega)
        simp [hge, hbig]

/-- A line is its bytes. -/
theorem lineBytes_inj {x y : BitVec (8 * n)} (h : lineBytes x = lineBytes y) : x = y := by
  refine BitVec.eq_of_getLsbD_eq fun k hk => ?_
  have hi : n - 1 - k / 8 < n := by omega
  have hbyte : byte x (n - 1 - k / 8) = byte y (n - 1 - k / 8) := by
    have hget := congrArg (fun l => l[n - 1 - k / 8]?) h
    simpa [lineBytes, hi] using hget
  have hj : k % 8 < 8 := Nat.mod_lt _ (by decide)
  have hidx : 8 * (n - 1 - (n - 1 - k / 8)) + k % 8 = k := by omega
  have hbit := congrArg (fun b => b.getLsbD (k % 8)) hbyte
  simp only [getLsbD_byte _ _ hj, hidx] at hbit
  exact hbit

/-- The bytes of two pieces put together. -/
theorem lineBytes_append {m n : Nat} (a : BitVec (8 * m)) (b : BitVec (8 * n)) :
    lineBytes (BitVec.cast (Nat.mul_add 8 m n).symm (a ++ b)) = lineBytes a ++ lineBytes b := by
  refine List.ext_getElem (by simp) ?_
  intro i hi _
  rw [length_lineBytes] at hi
  have hb := byte_join a b hi
  rw [List.getElem_append]
  simp only [lineBytes, List.getElem_map, List.getElem_range, List.length_map, List.length_range]
  exact hb

end TcpHw.Bytes
