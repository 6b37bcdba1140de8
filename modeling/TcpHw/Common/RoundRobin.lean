import TcpHw.Lib.Trace
import Mathlib.Data.Nat.Log
import Mathlib.Data.List.Basic
import Mathlib.Data.Nat.Find

/-!
# `bsg_arb_round_robin`

The arbiter keeps a thermometer code: the requesters below the last one that was served go first,
from the highest of them down, and then all others in the same order. The scan marks everything up
to the highest set bit, so that its only falling edge is that bit.
-/
namespace TcpHw

open Trace

set_option autoImplicit false

/-! ### `bsg_scan` -/

variable {n w : Nat}

/-- One row of the prefix tree. -/
def scanRow (x : BitVec n) (j : Nat) : BitVec n := x ||| x >>> (1 <<< j)

/-- `bsg_scan` with `or_p` set. -/
def bsgScan (x : BitVec n) : BitVec n := (List.range (Nat.clog 2 n)).foldl scanRow x

/-- After `k` rows each bit has gathered the `2 ^ k` bits from it on. -/
theorem getLsbD_scanRows (x : BitVec n) (k i : Nat) :
    ((List.range k).foldl scanRow x).getLsbD i = true ↔
      ∃ j, i ≤ j ∧ j < i + 2 ^ k ∧ x.getLsbD j = true := by
  induction k generalizing i with
  | zero =>
    constructor
    · exact fun h => ⟨i, Nat.le_refl i, Nat.lt_succ_self i, h⟩
    · rintro ⟨j, hle, hlt, h⟩
      have hj : j = i := by
        rw [Nat.pow_zero] at hlt
        omega
      exact hj ▸ h
  | succ k ih =>
    have hpow : 2 ^ (k + 1) = 2 ^ k + 2 ^ k := by rw [Nat.pow_succ]; omega
    have hone : 1 <<< k = 2 ^ k := Nat.one_shiftLeft k
    rw [List.range_succ, List.foldl_append, List.foldl_cons, List.foldl_nil, scanRow, hone,
      BitVec.getLsbD_or, BitVec.getLsbD_ushiftRight, Bool.or_eq_true, ih, ih]
    constructor
    · rintro (⟨j, hle, hlt, h⟩ | ⟨j, hle, hlt, h⟩)
      · exact ⟨j, hle, by omega, h⟩
      · exact ⟨j, by omega, by omega, h⟩
    · rintro ⟨j, hle, hlt, h⟩
      by_cases hj : j < i + 2 ^ k
      · exact .inl ⟨j, hle, hj, h⟩
      · exact .inr ⟨j, by omega, by omega, h⟩

/-- The scan marks everything up to the highest set bit. -/
theorem getLsbD_bsgScan (x : BitVec n) (i : Nat) :
    (bsgScan x).getLsbD i = true ↔ ∃ j, i ≤ j ∧ x.getLsbD j = true := by
  rw [bsgScan, getLsbD_scanRows]
  constructor
  · rintro ⟨j, hle, -, h⟩
    exact ⟨j, hle, h⟩
  · rintro ⟨j, hle, h⟩
    have hj : j < n := BitVec.lt_of_getLsbD h
    have hn : n ≤ 2 ^ Nat.clog 2 n := Nat.le_pow_clog (by decide) n
    exact ⟨j, hle, by omega, h⟩

theorem exists_bit {x : BitVec n} (h : x ≠ 0) : ∃ i, x.getLsbD i = true := by
  by_contra hnone
  apply h
  refine BitVec.eq_of_getLsbD_eq fun i _ => ?_
  have hi : ¬ x.getLsbD i = true := fun hc => hnone ⟨i, hc⟩
  simpa using hi

/-- The highest set bit. -/
def Top (x : BitVec n) (m : Nat) : Prop :=
  x.getLsbD m = true ∧ ∀ j, m < j → x.getLsbD j = false

theorem exists_top {x : BitVec n} {i : Nat} (h : x.getLsbD i = true) : ∃ m, Top x m := by
  have hi : i < n := BitVec.lt_of_getLsbD h
  refine ⟨Nat.findGreatest (fun j => x.getLsbD j = true) n, ?_, ?_⟩
  · exact Nat.findGreatest_spec (P := fun j => x.getLsbD j = true) (Nat.le_of_lt hi) h
  · intro j hj
    by_cases hn : j ≤ n
    · simpa using Nat.findGreatest_is_greatest hj hn
    · exact BitVec.getLsbD_of_ge x j (by omega)

/-- The scan marks the bits up to the top one. -/
theorem Top.scan {x : BitVec n} {m : Nat} (h : Top x m) (i : Nat) :
    (bsgScan x).getLsbD i = decide (i ≤ m) := by
  have hiff := getLsbD_bsgScan x i
  by_cases hi : i ≤ m
  · rw [decide_eq_true hi, hiff]
    exact ⟨m, hi, h.1⟩
  · rw [decide_eq_false hi, Bool.eq_false_iff, Ne, hiff]
    rintro ⟨j, hle, hj⟩
    rw [h.2 j (by omega)] at hj
    cases hj

/-- Its falling edge is the top bit. -/
theorem Top.edge {x : BitVec n} {m : Nat} (h : Top x m) (i : Nat) :
    (~~~ (bsgScan x >>> 1) &&& bsgScan x).getLsbD i = decide (i = m) := by
  have hm : m < n := BitVec.lt_of_getLsbD h.1
  rw [BitVec.getLsbD_and, BitVec.getLsbD_not, BitVec.getLsbD_ushiftRight, h.scan, h.scan]
  by_cases hi : i = m
  · subst hi
    simp [hm]
  · by_cases hle : i ≤ m
    · have hlt : 1 + i ≤ m := by omega
      simp [hi, hlt]
    · simp [hi, hle]

/-! ### The arbiter -/

/-- The arbiter for `w + 1` requesters. -/
structure BsgArbRoundRobin (w : Nat) where
  thermocode : BitVec w
  deriving DecidableEq

namespace BsgArbRoundRobin

variable (a : BsgArbRoundRobin w) (reqs : BitVec (w + 1))

/-- `scan_li` -/
def scanIn : BitVec (1 + w + (w + 1)) := 0#1 ++ (a.thermocode &&& reqs.setWidth w) ++ reqs

/-- `scan_lo` -/
def scanOut : BitVec (1 + w + (w + 1)) := bsgScan (a.scanIn reqs)

/-- `edge_detect` -/
def edgeDetect : BitVec (1 + w + (w + 1)) := ~~~ (a.scanOut reqs >>> 1) &&& a.scanOut reqs

/-- `grants_o` -/
def grants : BitVec (w + 1) :=
  (a.edgeDetect reqs).extractLsb' (w + 1) (w + 1) ||| (a.edgeDetect reqs).extractLsb' 0 (w + 1)

/-- `thermocode_n` -/
def thermocodeNext : BitVec w :=
  if (a.scanIn reqs).extractLsb' (w + 1) (w + 1) ≠ 0 then (a.scanOut reqs).extractLsb' (w + 2) w
  else (a.scanOut reqs).extractLsb' 1 w

/-- One clock edge with `yumi_i`. -/
def next (yumi : Bool) : BsgArbRoundRobin w :=
  if yumi then ⟨a.thermocodeNext reqs⟩ else a

def reset : BsgArbRoundRobin w := ⟨0⟩

/-! ### Whose turn it is -/

/-- The requesters below `p` go first. -/
def From (p : Nat) : Prop := p ≤ w ∧ ∀ k, a.thermocode.getLsbD k = decide (k < p)

/-- The place of a requester in the order `p - 1, .., 0, w, .., p`. -/
def rank (w p r : Nat) : Nat := if r < p then p - 1 - r else p + w - r

variable {a reqs} {p : Nat}

theorem from_reset : (reset : BsgArbRoundRobin w).From 0 := by
  refine ⟨Nat.zero_le w, fun k => ?_⟩
  simp [reset]

theorem getLsbD_scanIn (reqs : BitVec (w + 1)) (h : a.From p) (i : Nat) : (a.scanIn reqs).getLsbD i =
    if i < w + 1 then reqs.getLsbD i else decide (i - (w + 1) < p) && reqs.getLsbD (i - (w + 1)) := by
  have hp := h.1
  rw [scanIn, BitVec.getLsbD_append]
  by_cases hi : i < w + 1
  · simp [hi]
  · rw [if_neg hi]
    simp only [hi, BitVec.getLsbD_append, BitVec.getLsbD_and, h.2, BitVec.getLsbD_setWidth]
    by_cases hw : i - (w + 1) < w
    · simp [hw]
    · have hnot : ¬ i - (w + 1) < p := by omega
      simp [hw, hnot]

/-- A requester that is served, and with it the order of the others for the next time. -/
structure Serves (a : BsgArbRoundRobin w) (reqs : BitVec (w + 1)) (p g : Nat) : Prop where
  asked : reqs.getLsbD g = true
  grants : ∀ k, (a.grants reqs).getLsbD k = decide (k = g)
  next : (⟨a.thermocodeNext reqs⟩ : BsgArbRoundRobin w).From g
  first : ∀ r, reqs.getLsbD r = true → rank w p g ≤ rank w p r

/-- If there is a request, the first requester in the order is served. -/
theorem From.serves (h : a.From p) {r : Nat} (hr : reqs.getLsbD r = true) :
    ∃ g, Serves a reqs p g := by
  have hp := h.1
  have hrw : r < w + 1 := BitVec.lt_of_getLsbD hr
  have hin := getLsbD_scanIn reqs h
  have hset : (a.scanIn reqs).getLsbD r = true := by rw [hin, if_pos hrw, hr]
  obtain ⟨m, hm⟩ := exists_top hset
  have hedge : ∀ i, (a.edgeDetect reqs).getLsbD i = decide (i = m) := hm.edge
  have hscan : ∀ i, (a.scanOut reqs).getLsbD i = decide (i ≤ m) := hm.scan
  have htop := hm.1
  rw [hin] at htop
  by_cases hlow : m < w + 1
  · -- none of the first requesters asks, the order wraps around
    rw [if_pos hlow] at htop
    have hnone : ∀ k, k < p → reqs.getLsbD k = false := by
      intro k hk
      have hz := hm.2 (k + (w + 1)) (by omega)
      rw [hin, if_neg (by omega), Nat.add_sub_cancel, decide_eq_true hk, Bool.true_and] at hz
      exact hz
    have hpm : ¬ m < p := fun hc => by
      rw [hnone m hc] at htop
      cases htop
    refine ⟨m, htop, ?_, ?_, ?_⟩
    · intro k
      rw [BsgArbRoundRobin.grants, BitVec.getLsbD_or, BitVec.getLsbD_extractLsb',
        BitVec.getLsbD_extractLsb', hedge, hedge]
      by_cases hk : k = m
      · subst hk
        simp [hlow]
      · have hne : w + 1 + k ≠ m := by omega
        simp [hk, hne]
    · have hz : (a.scanIn reqs).extractLsb' (w + 1) (w + 1) = 0 := by
        refine BitVec.eq_of_getLsbD_eq fun i hi => ?_
        rw [BitVec.getLsbD_extractLsb', hm.2 (w + 1 + i) (by omega)]
        simp
      refine ⟨by omega, fun k => ?_⟩
      rw [thermocodeNext, if_neg (by rw [hz]; exact fun hc => hc rfl), BitVec.getLsbD_extractLsb',
        hscan]
      by_cases hk : k < m
      · have hkw : k < w := by omega
        have hle : 1 + k ≤ m := by omega
        simp [hk, hkw, hle]
      · have hle : ¬ 1 + k ≤ m := by omega
        simp [hk, hle]
    · intro k hk
      have hle : ¬ m < k := fun hc => by
        have hkw : k < w + 1 := BitVec.lt_of_getLsbD hk
        have hz := hm.2 k hc
        rw [hin, if_pos hkw, hk] at hz
        cases hz
      have hkp : ¬ k < p := fun hc => by
        rw [hnone k hc] at hk
        cases hk
      rw [rank, rank, if_neg hpm, if_neg hkp]
      omega
  · rw [if_neg hlow, Bool.and_eq_true, decide_eq_true_eq] at htop
    obtain ⟨hg, hask⟩ := htop
    obtain ⟨g, rfl⟩ := Nat.exists_eq_add_of_le (Nat.le_of_not_lt hlow)
    rw [Nat.add_sub_cancel_left] at hg hask
    refine ⟨g, hask, ?_, ?_, ?_⟩
    · intro k
      rw [BsgArbRoundRobin.grants, BitVec.getLsbD_or, BitVec.getLsbD_extractLsb',
        BitVec.getLsbD_extractLsb', hedge, hedge]
      by_cases hk : k = g
      · subst hk
        have hkw : k < w + 1 := by omega
        simp [hkw]
      · by_cases hkw : k < w + 1
        · have hne : k ≠ w + 1 + g := by omega
          simp [hk, hne]
        · simp [hk, hkw]
    · have hz : (a.scanIn reqs).extractLsb' (w + 1) (w + 1) ≠ 0 := by
        intro hc
        have hbit := congrArg (fun x : BitVec (w + 1) => x.getLsbD g) hc
        have hgw : g < w + 1 := by omega
        simp only [BitVec.getLsbD_extractLsb', hm.1, hgw, decide_true, Bool.true_and] at hbit
        simp at hbit
      refine ⟨by omega, fun k => ?_⟩
      rw [thermocodeNext, if_pos hz, BitVec.getLsbD_extractLsb', hscan]
      by_cases hk : k < g
      · have hkw : k < w := by omega
        have hle : w + 2 + k ≤ w + 1 + g := by omega
        simp [hk, hkw, hle]
      · have hle : ¬ w + 2 + k ≤ w + 1 + g := by omega
        simp [hk, hle]
    · intro k hk
      have hle : k < p → ¬ g < k := by
        intro hkp hc
        have hz := hm.2 (k + (w + 1)) (by omega)
        rw [hin, if_neg (by omega), Nat.add_sub_cancel, decide_eq_true hkp, Bool.true_and, hk] at hz
        cases hz
      have hkw : k < w + 1 := BitVec.lt_of_getLsbD hk
      rw [rank, rank, if_pos hg]
      split_ifs with hkp
      · have hgk := hle hkp
        omega
      · omega

/-- Without a request nobody is served. -/
theorem grants_zero (h : a.From p) : a.grants 0 = 0 ∧
    (⟨a.thermocodeNext 0⟩ : BsgArbRoundRobin w).From 0 := by
  have hin : ∀ i, (a.scanIn 0#(w + 1)).getLsbD i = false := by
    intro i
    rw [getLsbD_scanIn _ h]
    split_ifs <;> simp
  have hscan : ∀ i, (a.scanOut 0#(w + 1)).getLsbD i = false := by
    intro i
    rw [scanOut, Bool.eq_false_iff, Ne, getLsbD_bsgScan]
    rintro ⟨j, -, hj⟩
    rw [hin] at hj
    cases hj
  refine ⟨?_, Nat.zero_le w, fun k => ?_⟩
  · refine BitVec.eq_of_getLsbD_eq fun i _ => ?_
    simp [grants, edgeDetect, hscan]
  · show (a.thermocodeNext 0).getLsbD k = _
    rw [thermocodeNext]
    split_ifs <;> simp [hscan]

/-! ### Runs -/

/-- `reqs_i` and `yumi_i` -/
structure ArbIn (w : Nat) where
  reqs : BitVec (w + 1)
  yumi : Bool

def step (a : BsgArbRoundRobin w) (i : ArbIn w) : Option (BsgArbRoundRobin w) :=
  some (a.next i.reqs i.yumi)

/-- How often a requester was served in a run. -/
def served (r : Nat) : BsgArbRoundRobin w → List (ArbIn w) → Nat
  | _, [] => 0
  | a, i :: is =>
    (i.yumi && (a.grants i.reqs).getLsbD r).toNat + served r (a.next i.reqs i.yumi) is

/-- How often anyone was served. -/
def accepted (is : List (ArbIn w)) : Nat := is.countP ArbIn.yumi

/-- One requester is served if there is any, and one that goes on asking gets its share. -/
structure RoundRobin (a : BsgArbRoundRobin w) : Prop where
  none : a.grants 0 = 0
  one : ∀ reqs : BitVec (w + 1), reqs ≠ 0 → ∃ g, reqs.getLsbD g = true ∧
    ∀ k, (a.grants reqs).getLsbD k = decide (k = g)
  share : ∀ (r : Nat) (is : List (ArbIn w)), (∀ i ∈ is, i.reqs.getLsbD r = true) →
    accepted is ≤ (w + 1) * served r a is + w

theorem From.next (h : a.From p) (i : ArbIn w) : ∃ p', (a.next i.reqs i.yumi).From p' := by
  cases hy : i.yumi with
  | false => exact ⟨p, h⟩
  | true =>
    by_cases hz : i.reqs = 0
    · rw [hz]
      exact ⟨0, (grants_zero h).2⟩
    · obtain ⟨r, hr⟩ := exists_bit hz
      obtain ⟨g, hg⟩ := h.serves hr
      exact ⟨g, hg.next⟩

theorem from_of_reach (h : Reach (fun a : BsgArbRoundRobin w => a = reset) step Free a) :
    ∃ p, a.From p := by
  refine h.invariant (I := fun a => ∃ p, a.From p) ?_ ?_
  · rintro a rfl
    exact ⟨0, from_reset⟩
  · rintro a i a' ⟨p, hp⟩ - hs
    cases hs
    exact hp.next i

/-- A requester that asks all the time is passed over as often as there are others before it. -/
theorem From.share (h : a.From p) {r : Nat} {is : List (ArbIn w)}
    (hr : ∀ i ∈ is, i.reqs.getLsbD r = true) :
    accepted is ≤ (w + 1) * served r a is + rank w p r := by
  induction is generalizing a p with
  | nil => exact Nat.zero_le _
  | cons i is ih =>
    have hi := hr i List.mem_cons_self
    have ht := fun j hj => hr j (List.mem_cons_of_mem i hj)
    have hrw : r < w + 1 := BitVec.lt_of_getLsbD hi
    cases hy : i.yumi with
    | false =>
      have hnext : a.next i.reqs false = a := rfl
      have hrec := ih h ht
      rw [served, accepted, List.countP_cons, hy, hnext, Bool.false_and, Bool.toNat_false,
        Nat.zero_add, if_neg (by decide), Nat.add_zero]
      exact hrec
    | true =>
      obtain ⟨g, hg⟩ := h.serves hi
      have hrec := ih hg.next ht
      have hfirst := hg.first r hi
      have hgp : g < w + 1 := BitVec.lt_of_getLsbD hg.asked
      have hp := h.1
      have hnext : a.next i.reqs true = ⟨a.thermocodeNext i.reqs⟩ := rfl
      rw [accepted] at hrec
      rw [served, accepted, List.countP_cons, hy, hnext, Bool.true_and, hg.grants, if_pos rfl]
      by_cases hrg : r = g
      · -- it is served, and then all others come first
        subst hrg
        rw [decide_eq_true rfl, Bool.toNat_true, Nat.mul_add, Nat.mul_one]
        rw [rank, if_neg (Nat.lt_irrefl r)] at hrec
        omega
      · rw [decide_eq_false hrg, Bool.toNat_false, Nat.zero_add]
        unfold rank at hfirst hrec ⊢
        split_ifs at hfirst hrec ⊢ <;> omega

/-- In every run the arbiter serves one requester at a time, and of `w + 1` services one goes to a
requester that goes on asking. -/
theorem round_robin_fair (h : Reach (fun a : BsgArbRoundRobin w => a = reset) step Free a) :
    RoundRobin a := by
  obtain ⟨p, hp⟩ := from_of_reach h
  refine ⟨(grants_zero hp).1, ?_, ?_⟩
  · intro reqs hne
    obtain ⟨r, hr⟩ := exists_bit hne
    obtain ⟨g, hg⟩ := hp.serves hr
    exact ⟨g, hg.asked, hg.grants⟩
  · intro r is his
    cases is with
    | nil => exact Nat.zero_le _
    | cons i t =>
      have hshare := hp.share his
      have hpw := hp.1
      have hrw : r < w + 1 := BitVec.lt_of_getLsbD (his i List.mem_cons_self)
      have hrank : rank w p r ≤ w := by
        unfold rank
        split_ifs <;> omega
      omega

/-- Of three requesters that all ask, the third is served last. -/
theorem round_robin_fair_three : ∃ a : BsgArbRoundRobin 2,
    Reach (fun a : BsgArbRoundRobin 2 => a = reset) step Free a ∧ a.grants 0b111#3 = 0b001#3 ∧
      RoundRobin a := by
  have hrun : ∃ a : BsgArbRoundRobin 2, Reach (fun a : BsgArbRoundRobin 2 => a = reset) step Free a ∧
      decide (a.grants 0b111#3 = 0b001#3) = true :=
    Reach.exists_of_run [⟨0b111#3, true⟩, ⟨0b111#3, false⟩, ⟨0b111#3, true⟩] rfl (by decide +kernel)
  obtain ⟨a, ha, hp⟩ := hrun
  exact ⟨a, ha, decide_eq_true_iff.mp hp, round_robin_fair ha⟩

end BsgArbRoundRobin

end TcpHw
