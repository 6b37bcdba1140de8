import TcpHw.Frontend.ChksumCalc
import Mathlib.Tactic.Ring

/-!
# What the adders of `chksum_calc` compute

The unit takes the bytes of a line from its low end, so that the two bytes of each word stand the
other way round than in the frame. A one's-complement sum with the bytes of all words swapped is the
sum with its own bytes swapped, and in this order the two bytes are written back.
-/
namespace TcpHw

open Bytes

set_option autoImplicit false

/-! ### The levels -/

/-- The fields of a level stay inside their widths. -/
structure SumLevel.Fits (l : SumLevel) (w n : Nat) : Prop where
  odd : l.odd = false
  init : l.init = 0
  length : l.sum.length = n
  bound : ∀ x ∈ l.sum, x < 2 ^ w

theorem pairSums_spec {w m : Nat} {l : List Nat} (hl : l.length = 2 * m) (hb : ∀ x ∈ l, x < 2 ^ w) :
    (pairSums (w + 1) l).length = m ∧ (∀ x ∈ pairSums (w + 1) l, x < 2 ^ (w + 1)) ∧
      (pairSums (w + 1) l).sum = l.sum := by
  have hpow : 2 ^ (w + 1) = 2 ^ w + 2 ^ w := by rw [Nat.pow_succ]; omega
  induction m generalizing l with
  | zero =>
    have hnil : l = [] := List.length_eq_zero_iff.mp (by omega)
    subst hnil
    exact ⟨rfl, (fun x hx => by cases hx), rfl⟩
  | succ m ih =>
    rcases l with _ | ⟨x, _ | ⟨y, t⟩⟩
    · simp at hl
    · simp at hl
      omega
    · simp only [List.length_cons] at hl
      simp only [List.mem_cons, forall_eq_or_imp] at hb
      obtain ⟨hx, hy, ht⟩ := hb
      obtain ⟨hlen, hbound, hsum⟩ := ih (by omega) ht
      have hmod : (x + y) % 2 ^ (w + 1) = x + y := Nat.mod_eq_of_lt (by omega)
      rw [pairSums, hmod]
      refine ⟨by rw [List.length_cons, hlen], ?_, ?_⟩
      · intro z hz
        rcases List.mem_cons.mp hz with rfl | hz
        · omega
        · exact hbound z hz
      · rw [List.sum_cons, hsum, List.sum_cons, List.sum_cons, Nat.add_assoc]

/-! ### The words of a line -/

/-- The sum of the words with their bytes swapped. -/
def swapSum : List (BitVec 8) → Nat
  | a :: b :: t => b.toNat * 256 + a.toNat + swapSum t
  | [a] => a.toNat
  | [] => 0

/-- The sum of a line without a mask. -/
def lineTotal (l : AxisLine) : Nat := (sum0 l (BitVec.allOnes 64)).sum

theorem swapSum_append {l l' : List (BitVec 8)} {m : Nat} (h : l.length = 2 * m) :
    swapSum (l ++ l') = swapSum l + swapSum l' := by
  induction m generalizing l with
  | zero =>
    have hnil : l = [] := List.length_eq_zero_iff.mp (by omega)
    subst hnil
    exact (Nat.zero_add _).symm
  | succ m ih =>
    rcases l with _ | ⟨a, _ | ⟨b, t⟩⟩
    · simp at h
    · simp at h
      omega
    · simp only [List.length_cons] at h
      rw [List.cons_append, List.cons_append, swapSum, swapSum, ih (by omega)]
      omega

/-- The sum by places, with zeros behind the list. -/
theorem swapSum_eq (l : List (BitVec 8)) {m : Nat} (h : l.length ≤ 2 * m) :
    swapSum l = ((List.range m).map fun s =>
      (l.getD (2 * s + 1) 0).toNat * 256 + (l.getD (2 * s) 0).toNat).sum := by
  induction m generalizing l with
  | zero =>
    have hnil : l = [] := List.length_eq_zero_iff.mp (by omega)
    subst hnil
    rfl
  | succ m ih =>
    rw [List.range_succ_eq_map, List.map_cons, List.sum_cons, List.map_map]
    rcases l with _ | ⟨a, _ | ⟨b, t⟩⟩
    · simp [swapSum, Function.comp_def]
    · simp [swapSum, Function.comp_def]
    · simp only [List.length_cons] at h
      rw [swapSum, ih t (by omega)]
      rfl

/-- The words of a line from the other end. -/
theorem sum_words (f : Nat → Nat) : ((List.range 16).map fun t => f (4 * t) + f (4 * t + 2)).sum =
    ((List.range 32).map fun s => f (62 - 2 * s)).sum := by
  simp only [List.range, List.range.loop, List.map_cons, List.map_nil, List.sum_cons, List.sum_nil,
    Nat.reduceMul, Nat.reduceAdd, Nat.reduceSub, Nat.add_zero]
  ring

theorem maskedByte_eq (l : AxisLine) {n j : Nat} (hn : n ≤ 64) (hj : j < 64)
    (hk : l.keep = BitVec.allOnes 64 <<< (64 - n)) :
    maskedByte l (BitVec.allOnes 64) j = ((lineBytes l.data).take n).getD (63 - j) 0 := by
  have hones : (BitVec.allOnes 64).getLsbD j = true := by
    rw [BitVec.getLsbD_allOnes, decide_eq_true hj]
  have hkeep : l.keep.getLsbD j = decide (63 - j < n) := by
    have hiff : (63 - j < n) ↔ ¬ j < 64 - n := by omega
    have hin : j - (64 - n) < 64 := by omega
    rw [hk, BitVec.getLsbD_shiftLeft, decide_eq_decide.mpr hiff, BitVec.getLsbD_allOnes,
      decide_eq_true hj, decide_eq_true hin, Bool.true_and, Bool.and_true, decide_not]
  rw [maskedByte, hkeep, hones, Bool.and_true]
  by_cases hlt : 63 - j < n
  · have hlen : 63 - j < ((lineBytes l.data).take n).length := by
      rw [List.length_take, length_lineBytes]
      omega
    rw [decide_eq_true hlt, if_pos rfl, List.getD_eq_getElem _ _ hlen, List.getElem_take]
    simp only [lineBytes, List.getElem_map, List.getElem_range]
    have hidx : 8 * j = 8 * (64 - 1 - (63 - j)) := by omega
    rw [hidx]
    rfl
  · have hlen : ((lineBytes l.data).take n).length ≤ 63 - j := by
      rw [List.length_take, length_lineBytes]
      omega
    rw [decide_eq_false hlt, if_neg (by decide), List.getD_eq_default _ _ hlen]

theorem maskedWord_toNat (l : AxisLine) (mask : BitVec 64) (j : Nat) :
    (maskedWord l mask j).toNat =
      (maskedByte l mask j).toNat * 256 + (maskedByte l mask (j + 1)).toNat := by
  have hlt := (maskedByte l mask (j + 1)).isLt
  rw [maskedWord, BitVec.toNat_append, ← Nat.shiftLeft_add_eq_or_of_lt hlt, Nat.shiftLeft_eq]

theorem maskedWord_le (l : AxisLine) (mask : BitVec 64) (j : Nat) :
    (maskedWord l mask j).toNat ≤ 65535 := Nat.le_of_lt_succ (maskedWord l mask j).isLt

theorem lineTotal_words (l : AxisLine) (mask : BitVec 64) : (sum0 l mask).sum =
    ((List.range 32).map fun s => (maskedWord l mask (62 - 2 * s)).toNat).sum := by
  rw [← sum_words fun j => (maskedWord l mask j).toNat, sum0]
  refine congrArg List.sum (List.map_congr_left fun t _ => ?_)
  have h1 := maskedWord_le l mask (4 * t)
  have h2 := maskedWord_le l mask (4 * t + 2)
  exact Nat.mod_eq_of_lt (by omega)

/-- The adders sum the kept bytes of a line, in words with their bytes swapped. -/
theorem lineTotal_eq (l : AxisLine) {n : Nat} (hn : n ≤ 64)
    (hk : l.keep = BitVec.allOnes 64 <<< (64 - n)) :
    lineTotal l = swapSum (keptBytes l.data l.keep) := by
  rw [lineTotal, lineTotal_words, hk, keptBytes_allOnes _ hn,
    swapSum_eq (m := 32) _ (by rw [List.length_take, length_lineBytes]; omega)]
  refine congrArg List.sum (List.map_congr_left fun s hs => ?_)
  have hlt := List.mem_range.mp hs
  have hhi : 63 - (62 - 2 * s) = 2 * s + 1 := by omega
  have hlo : 63 - (62 - 2 * s + 1) = 2 * s := by omega
  rw [maskedWord_toNat, maskedByte_eq l hn (by omega) hk, maskedByte_eq l hn (by omega) hk, hhi, hlo]

theorem sum0_fits (l : AxisLine) (mask : BitVec 64) :
    (sum0 l mask).length = 16 ∧ ∀ x ∈ sum0 l mask, x < 2 ^ 17 := by
  refine ⟨by simp [sum0], ?_⟩
  intro x hx
  obtain ⟨t, -, rfl⟩ := List.mem_map.mp hx
  exact Nat.mod_lt _ (by decide)

theorem lineTotal_lt (l : AxisLine) : lineTotal l < 2 ^ 21 := by
  have hle : ∀ ts : List Nat, (ts.map fun s =>
      (maskedWord l (BitVec.allOnes 64) (62 - 2 * s)).toNat).sum ≤ ts.length * 65535 := by
    intro ts
    induction ts with
    | nil => exact Nat.le_refl 0
    | cons t ts ih =>
      have ht := maskedWord_le l (BitVec.allOnes 64) (62 - 2 * t)
      rw [List.map_cons, List.sum_cons, List.length_cons]
      omega
  have h32 := hle (List.range 32)
  rw [List.length_range] at h32
  rw [lineTotal, lineTotal_words]
  omega

/-! ### One's-complement sums with swapped bytes -/

theorem sumAccTemp_eq {s x : Nat} (hs : s < 2 ^ 21) (hx : x ≤ 65535) :
    sumAccTemp s x = foldCarry (s + x) := by
  have ht : s + x < 2 ^ 22 := by omega
  have h0 : (s + x) % 2 ^ 22 = s + x := Nat.mod_eq_of_lt ht
  have h1 : ((s + x) % 2 ^ 16 + (s + x) / 2 ^ 16) % 2 ^ 22 =
      (s + x) % 2 ^ 16 + (s + x) / 2 ^ 16 := Nat.mod_eq_of_lt (by omega)
  -- the carry of the second addition is at most one
  have hcarry : ((s + x) % 2 ^ 16 + (s + x) / 2 ^ 16) / 2 ^ 16 % 2 =
      ((s + x) % 2 ^ 16 + (s + x) / 2 ^ 16) / 2 ^ 16 := Nat.mod_eq_of_lt (by omega)
  simp only [sumAccTemp, h0, h1, hcarry]
  generalize s + x = t at *
  generalize hu : t % 2 ^ 16 + t / 2 ^ 16 = u at *
  have hend : (u % 2 ^ 16 + u / 2 ^ 16) % 2 ^ 22 = u % 2 ^ 16 + u / 2 ^ 16 :=
    Nat.mod_eq_of_lt (by omega)
  rw [hend, foldCarry]
  by_cases hz : t = 0
  · rw [if_pos hz]
    omega
  · have hsplit : t - 1 = u - 1 + 65535 * (t / 2 ^ 16) := by omega
    have hmod : (t - 1) % 65535 = (u - 1) % 65535 := by
      rw [hsplit, Nat.add_mul_mod_self_left]
    have hu' : 0 < u ∧ u ≤ 65535 + 63 := by omega
    rw [if_neg hz, hmod]
    omega

theorem foldCarry_mod (t : Nat) : foldCarry t % 65535 = t % 65535 := by
  unfold foldCarry
  split_ifs <;> omega

theorem foldCarry_eq_zero (t : Nat) : foldCarry t = 0 ↔ t = 0 := by
  rw [foldCarry]
  constructor
  · intro h
    by_contra hne
    rw [if_neg hne] at h
    omega
  · intro h
    rw [if_pos h]

/-- Swapping the bytes of all words multiplies by 256, modulo 65535. -/
theorem wordSum_swap (bs : List (BitVec 8)) : wordSum bs % 65535 = 256 * swapSum bs % 65535 ∧
    (wordSum bs = 0 ↔ swapSum bs = 0) := by
  induction bs using wordSum.induct with
  | case1 a b t ih =>
    rw [wordSum, swapSum]
    omega
  | case2 a =>
    rw [wordSum, swapSum]
    omega
  | case3 => exact ⟨rfl, Iff.rfl⟩

theorem swapBytes_toNat (x : BitVec 16) :
    (swapBytes x).toNat = x.toNat % 256 * 256 + x.toNat / 256 := by
  have hx := x.isLt
  have hlt := (x.extractLsb' 8 8).isLt
  rw [swapBytes, BitVec.toNat_append, ← Nat.shiftLeft_add_eq_or_of_lt hlt, Nat.shiftLeft_eq,
    BitVec.extractLsb'_toNat, BitVec.extractLsb'_toNat, Nat.shiftRight_zero,
    Nat.shiftRight_eq_div_pow]
  omega

theorem swapBytes_not (x : BitVec 16) : swapBytes (~~~ x) = ~~~ swapBytes x := by
  apply BitVec.eq_of_toNat_eq
  have hx := x.isLt
  rw [BitVec.toNat_not, swapBytes_toNat, swapBytes_toNat, BitVec.toNat_not]
  omega

/-- The checksum that the adders find has its bytes swapped. -/
theorem swap_chksum (bs : List (BitVec 8)) :
    ~~~ BitVec.ofNat 16 (foldCarry (swapSum bs)) = swapBytes (onesChksum bs) := by
  rw [onesChksum, swapBytes_not, onesSum_zero]
  refine congrArg (~~~ ·) (BitVec.eq_of_toNat_eq ?_)
  obtain ⟨hmod, hzero⟩ := wordSum_swap bs
  have hle := foldCarry_le (swapSum bs)
  have hle' := foldCarry_le (wordSum bs)
  have hm := foldCarry_mod (swapSum bs)
  have hm' := foldCarry_mod (wordSum bs)
  have hz := foldCarry_eq_zero (swapSum bs)
  have hz' := foldCarry_eq_zero (wordSum bs)
  have hlt : foldCarry (swapSum bs) % 2 ^ 16 = foldCarry (swapSum bs) :=
    Nat.mod_eq_of_lt (by omega)
  have hlt' : foldCarry (wordSum bs) % 2 ^ 16 = foldCarry (wordSum bs) :=
    Nat.mod_eq_of_lt (by omega)
  rw [swapBytes_toNat, BitVec.toNat_ofNat, BitVec.toNat_ofNat, hlt, hlt']
  generalize foldCarry (swapSum bs) = y at *
  generalize foldCarry (wordSum bs) = x at *
  have hxy : x % 65535 = 256 * y % 65535 := by omega
  -- `x` is `y` with its bytes swapped
  have hx : x = y % 256 * 256 + y / 256 := by omega
  omega

theorem swapBytes_swapBytes (x : BitVec 16) : swapBytes (swapBytes x) = x := by
  apply BitVec.eq_of_toNat_eq
  have hx := x.isLt
  rw [swapBytes_toNat, swapBytes_toNat]
  omega

theorem getLsbD_setByte (x : Line) (j : Nat) (b : BitVec 8) {k : Nat} (hk : k < 512) :
    (setByte x j b).getLsbD k =
      if 8 * j ≤ k ∧ k < 8 * j + 8 then b.getLsbD (k - 8 * j) else x.getLsbD k := by
  have hin : k - 8 * j < 512 := by omega
  simp only [setByte, BitVec.getLsbD_or, BitVec.getLsbD_and, BitVec.getLsbD_not,
    BitVec.getLsbD_shiftLeft, BitVec.getLsbD_setWidth, hk, hin, decide_true, Bool.true_and,
    BitVec.getLsbD_allOnes]
  by_cases hlo : k < 8 * j
  · have hno : ¬ (8 * j ≤ k ∧ k < 8 * j + 8) := by omega
    simp [hlo, hno]
  · by_cases hhi : k - 8 * j < 8
    · have hyes : 8 * j ≤ k ∧ k < 8 * j + 8 := by omega
      simp [hlo, hhi, hyes]
    · have hno : ¬ (8 * j ≤ k ∧ k < 8 * j + 8) := by omega
      have hz : b.getLsbD (k - 8 * j) = false := BitVec.getLsbD_of_ge _ _ (by omega)
      simp [hlo, hhi, hno, hz]

/-- The two bytes are written in the order that undoes the swap. -/
theorem setByte_setByte (x : Line) (c : BitVec 16) (off : Nat) :
    setByte (setByte x off (c.extractLsb' 8 8)) (off + 1) (c.extractLsb' 0 8) =
      setField x off (swapBytes c) := by
  refine BitVec.eq_of_getLsbD_eq fun k hk => ?_
  have hin : k - 8 * off < 512 := by omega
  have hin' : k - 8 * off < 8 * 64 := by omega
  rw [getLsbD_setByte _ _ _ hk, getLsbD_setByte _ _ _ hk]
  simp only [setField, BitVec.getLsbD_or, BitVec.getLsbD_and, BitVec.getLsbD_not,
    BitVec.getLsbD_shiftLeft, BitVec.getLsbD_setWidth, hk, hin', decide_true, Bool.true_and,
    BitVec.getLsbD_allOnes, swapBytes, BitVec.getLsbD_append, BitVec.getLsbD_extractLsb']
  by_cases hlow : k < 8 * off
  · have h0 : ¬ (8 * (off + 1) ≤ k ∧ k < 8 * (off + 1) + 8) := by omega
    have h1 : ¬ (8 * off ≤ k ∧ k < 8 * off + 8) := by omega
    simp [hlow, h0, h1]
  · by_cases hfirst : k < 8 * off + 8
    · have h0 : ¬ (8 * (off + 1) ≤ k ∧ k < 8 * (off + 1) + 8) := by omega
      have h1 : 8 * off ≤ k ∧ k < 8 * off + 8 := by omega
      have h8 : k - 8 * off < 8 := by omega
      have h16 : k - 8 * off < 16 := by omega
      simp [hlow, h0, h1, h8, h16]
    · by_cases hsecond : k < 8 * off + 16
      · have h0 : 8 * (off + 1) ≤ k ∧ k < 8 * (off + 1) + 8 := by omega
        have h8 : ¬ k - 8 * off < 8 := by omega
        have h16 : k - 8 * off < 16 := by omega
        have hidx : k - 8 * (off + 1) = k - 8 * off - 8 := by omega
        simp [hlow, h0, h8, h16, hidx]
      · have h0 : ¬ (8 * (off + 1) ≤ k ∧ k < 8 * (off + 1) + 8) := by omega
        have h1 : ¬ (8 * off ≤ k ∧ k < 8 * off + 8) := by omega
        have h8 : ¬ k - 8 * off < 8 := by omega
        have h16 : ¬ k - 8 * off < 16 := by omega
        have h24 : ¬ k - 8 * off - 8 < 8 := by omega
        simp [hlow, h0, h1, h8, h16, h24]

/-! ### Frames -/

/-- `tkeep` marks the first bytes of the line, and all of them unless it is the last of its frame. -/
def AxisLine.Leading (l : AxisLine) : Prop :=
  ∃ n < 65, l.keep = BitVec.allOnes 64 <<< (64 - n) ∧ (l.last = false → n = 64)

instance (l : AxisLine) : Decidable l.Leading := by
  unfold AxisLine.Leading
  infer_instance

/-- The sum of some lines as it is built up. -/
def accOf (fr : List AxisLine) : Nat := fr.foldl (fun acc l => sumAccTemp (lineTotal l) acc) 0

/-- The plain sum of some lines. -/
def frameTotal (fr : List AxisLine) : Nat := (fr.map lineTotal).sum

theorem accOf_append (fr : List AxisLine) (l : AxisLine) :
    accOf (fr ++ [l]) = sumAccTemp (lineTotal l) (accOf fr) := by
  rw [accOf, List.foldl_append]
  rfl

theorem accOf_eq (fr : List AxisLine) : accOf fr = foldCarry (frameTotal fr) := by
  induction fr using List.reverseRecOn with
  | nil => rfl
  | append_singleton fr l ih =>
    rw [accOf_append, ih, sumAccTemp_eq (lineTotal_lt l) (foldCarry_le _), Nat.add_comm,
      foldCarry_add, frameTotal, frameTotal, List.map_append, List.sum_append, List.map_singleton,
      List.sum_singleton]

theorem AxisLine.Leading.total {l : AxisLine} (h : l.Leading) :
    lineTotal l = swapSum (keptBytes l.data l.keep) := by
  obtain ⟨n, hn, hk, -⟩ := h
  exact lineTotal_eq l (by omega) hk

theorem AxisLine.Leading.length_kept {l : AxisLine} (h : l.Leading) (hl : l.last = false) :
    (keptBytes l.data l.keep).length = 64 := by
  obtain ⟨n, hn, hk, hfull⟩ := h
  rw [hk, hfull hl, keptBytes_allOnes _ (Nat.le_refl 64), List.length_take, length_lineBytes]
  rfl

theorem length_kept {fr : List AxisLine} (h : ∀ l ∈ fr, l.Leading ∧ l.last = false) :
    (ChksumUnit.kept fr).length = 2 * (32 * fr.length) := by
  induction fr with
  | nil => rfl
  | cons l t ih =>
    simp only [List.mem_cons, forall_eq_or_imp] at h
    obtain ⟨⟨hl, hlast⟩, ht⟩ := h
    have hlen := ih ht
    rw [ChksumUnit.kept] at hlen
    rw [ChksumUnit.kept, List.flatMap_cons, List.length_append, hlen, hl.length_kept hlast,
      List.length_cons]
    omega

theorem frameTotal_eq {fr : List AxisLine} (h : ∀ l ∈ fr, l.Leading ∧ l.last = false) :
    frameTotal fr = swapSum (ChksumUnit.kept fr) := by
  induction fr with
  | nil => rfl
  | cons l t ih =>
    simp only [List.mem_cons, forall_eq_or_imp] at h
    obtain ⟨⟨hl, hlast⟩, ht⟩ := h
    have hlen := hl.length_kept hlast
    have hsum := ih ht
    rw [frameTotal, ChksumUnit.kept] at hsum
    rw [frameTotal, ChksumUnit.kept, List.map_cons, List.sum_cons, List.flatMap_cons,
      swapSum_append (m := 32) hlen, hsum, hl.total]

/-- The checksum that goes into the checksum FIFO for a frame. -/
theorem frame_chksum {fr : List AxisLine} {l : AxisLine}
    (h : ∀ x ∈ fr, x.Leading ∧ x.last = false) (hl : l.Leading) :
    ~~~ BitVec.ofNat 16 (accOf (fr ++ [l])) = swapBytes (onesChksum (ChksumUnit.kept (fr ++ [l]))) := by
  have hkept : ChksumUnit.kept (fr ++ [l]) = ChksumUnit.kept fr ++ keptBytes l.data l.keep := by
    rw [ChksumUnit.kept, List.flatMap_append, List.flatMap_singleton]
    rfl
  have htotal : frameTotal (fr ++ [l]) = swapSum (ChksumUnit.kept (fr ++ [l])) := by
    have hfr := frameTotal_eq h
    rw [frameTotal] at hfr
    rw [frameTotal, List.map_append, List.sum_append, hfr, List.map_singleton, List.sum_singleton,
      hl.total, hkept, swapSum_append (length_kept h)]
  rw [accOf_eq, htotal, swap_chksum]

end TcpHw
