import Mathlib.Data.List.FinRange
import TcpHw.Lib.Trace

/-!
# `bsg_cam_1r1w_unmanaged`

The tag array compares the tag of every entry, and its match lines select the data through a one-hot
multiplexer. The response is the data of an entry only if no two entries match, which the CAM leaves
to whoever writes it.
-/
namespace TcpHw

set_option autoImplicit false

variable {n w : Nat} {Tag : Type}

/-! ### `bsg_mux_one_hot` -/

def bsgMuxOneHot (data : Fin n → BitVec w) (sel : Fin n → Bool) : BitVec w :=
  (List.finRange n).foldr (fun i acc => (data i &&& if sel i then .allOnes w else 0) ||| acc) 0

theorem foldr_masked {data : Fin n → BitVec w} {sel : Fin n → Bool} {j : Fin n}
    (hone : ∀ i, sel i = true → i = j) (l : List (Fin n)) :
    l.foldr (fun i acc => (data i &&& if sel i then .allOnes w else 0) ||| acc) 0 =
      if sel j && decide (j ∈ l) then data j else 0 := by
  induction l with
  | nil => simp
  | cons i l ih =>
    rw [List.foldr_cons, ih]
    cases hi : sel i with
    | false =>
      have hmask : (data i &&& if false = true then BitVec.allOnes w else 0) = 0 := by simp
      rw [hmask]
      by_cases hj : j = i
      · simp [hj, hi]
      · simp [hj]
    | true =>
      obtain rfl := hone i hi
      simp only [if_true, BitVec.and_allOnes, hi, Bool.true_and, List.mem_cons, true_or,
        decide_true]
      by_cases hl : i ∈ l
      · simp [hl]
      · simp [hl]

/-- One selected input goes through. -/
theorem bsgMuxOneHot_eq {data : Fin n → BitVec w} {sel : Fin n → Bool} {j : Fin n}
    (hj : sel j = true) (hone : ∀ i, sel i = true → i = j) : bsgMuxOneHot data sel = data j := by
  rw [bsgMuxOneHot, foldr_masked hone, hj, decide_eq_true (List.mem_finRange j)]
  rfl

/-! ### The CAM -/

/-- `v_r`, `tag_r` and `data_r`. -/
structure BsgCam (n : Nat) (Tag : Type) (w : Nat) where
  v : Fin n → Bool
  tag : Fin n → Tag
  data : Fin n → BitVec w

/-- The write port. -/
structure CamWr (n : Nat) (Tag : Type) (w : Nat) where
  wV : BitVec n
  setNotClear : Bool
  tag : Tag
  data : BitVec w

namespace BsgCam

variable (c : BsgCam n Tag w) (x : CamWr n Tag w)

/-- One clock edge. -/
def next : BsgCam n Tag w where
  v i := if x.wV.getLsbD i then x.setNotClear else c.v i
  tag i := if x.wV.getLsbD i && x.setNotClear then x.tag else c.tag i
  data i := if x.wV.getLsbD i then x.data else c.data i

/-- What an entry holds. -/
def entry (i : Fin n) : Option (Tag × BitVec w) := if c.v i then some (c.tag i, c.data i) else none

section Read

variable [DecidableEq Tag] (rV : Bool) (rTag : Tag)

/-- `r_match_o` -/
def rMatch (i : Fin n) : Bool := rV && c.v i && decide (c.tag i = rTag)

/-- `r_v_o` -/
def rVal : Bool := (List.finRange n).any (c.rMatch rV rTag)

/-- `r_data_o` -/
def rData : BitVec w := bsgMuxOneHot c.data (c.rMatch rV rTag)

end Read

variable {c x}

/-- A write sets or clears the entries that it selects. -/
theorem entry_next (i : Fin n) : (c.next x).entry i =
    if x.wV.getLsbD i then (if x.setNotClear then some (x.tag, x.data) else none)
    else c.entry i := by
  cases hw : x.wV.getLsbD i with
  | false => simp only [entry, next, hw, Bool.false_and, Bool.false_eq_true, if_false]
  | true =>
    cases hs : x.setNotClear with
    | false => simp only [entry, next, hw, hs, if_true, Bool.false_eq_true, if_false]
    | true => simp only [entry, next, hw, hs, Bool.and_self, if_true]

variable [DecidableEq Tag] {rTag : Tag}

theorem rMatch_iff {i : Fin n} : c.rMatch true rTag i = true ↔ ∃ d, c.entry i = some (rTag, d) := by
  cases hv : c.v i with
  | false => simp [rMatch, entry, hv]
  | true =>
    constructor
    · intro hm
      have ht : c.tag i = rTag := by simpa [rMatch, hv] using hm
      exact ⟨c.data i, by simp [entry, hv, ht]⟩
    · rintro ⟨d, hd⟩
      have ht : c.tag i = rTag ∧ c.data i = d := by simpa [entry, hv] using hd
      simp [rMatch, hv, ht.1]

/-- The read of a tag that one entry holds. -/
theorem read_hit {j : Fin n} {d : BitVec w} (hj : c.entry j = some (rTag, d))
    (hone : ∀ i, c.rMatch true rTag i = true → i = j) :
    c.rVal true rTag = true ∧ c.rData true rTag = d := by
  have hm : c.rMatch true rTag j = true := rMatch_iff.mpr ⟨d, hj⟩
  refine ⟨List.any_eq_true.mpr ⟨j, List.mem_finRange j, hm⟩, ?_⟩
  rw [rData, bsgMuxOneHot_eq hm hone]
  have hv : c.v j = true := by
    by_contra hv
    simp [entry, hv] at hj
  have hd : c.tag j = rTag ∧ c.data j = d := by simpa [entry, hv] using hj
  exact hd.2

/-- The read of a tag that no entry holds. -/
theorem read_miss (h : ∀ i d, c.entry i ≠ some (rTag, d)) : c.rVal true rTag = false := by
  rw [rVal, List.any_eq_false]
  intro i _ hm
  obtain ⟨d, hd⟩ := rMatch_iff.mp hm
  exact h i d hd

end BsgCam

end TcpHw
