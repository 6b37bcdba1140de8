import Mathlib.Algebra.Ring.Nat
import Mathlib.Data.List.Basic

/-!
# Packets cut into lines

A packet of bytes travels in lines of `n` bytes. Every line but the last is full, and the last
one is marked and tells how many of its bytes are padding. A prefix of a packet settles the
lines it fills, as long as more bytes follow.
-/
namespace TcpHw.Framing

set_option autoImplicit false

variable {α : Type}

/-- What one line delivers: the bytes that are not padding and the marks. -/
structure Beat (α : Type) where
  bytes : List α
  last : Bool
  padbytes : Nat
  deriving DecidableEq

/-- The `j`th of `k` lines. -/
def beat (n : Nat) (bs : List α) (k j : Nat) : Beat α :=
  ⟨(bs.drop (n * j)).take n, j + 1 == k, if j + 1 == k then n * k - bs.length else 0⟩

/-- All lines of a packet. -/
def beats (n : Nat) (bs : List α) : List (Beat α) :=
  (List.range ((bs.length + n - 1) / n)).map (beat n bs ((bs.length + n - 1) / n))

/-- The lines a prefix of a packet fills. -/
def whole (n : Nat) (bs : List α) : List (Beat α) :=
  (List.range (bs.length / n)).map fun j => ⟨(bs.drop (n * j)).take n, false, 0⟩

/-- The bytes of a prefix after the lines it fills. -/
def rest (n : Nat) (bs : List α) : List α := bs.drop (n * (bs.length / n))

variable {n : Nat} {bs cs : List α}

theorem beats_last (h0 : 0 < bs.length) (hn : bs.length ≤ n) :
    beats n bs = [⟨bs, true, n - bs.length⟩] := by
  have hk : (bs.length + n - 1) / n = 1 := Nat.div_eq_of_lt_le (by omega) (by omega)
  simp [beats, beat, hk, List.take_of_length_le hn]

theorem beats_full (h0 : 0 < n) (hn : n < bs.length) :
    beats n bs = ⟨bs.take n, false, 0⟩ :: beats n (bs.drop n) := by
  have hk : (bs.length + n - 1) / n = ((bs.drop n).length + n - 1) / n + 1 := by
    rw [List.length_drop, ← Nat.add_div_right _ h0]
    congr 1
    omega
  unfold beats
  rw [hk, List.range_succ_eq_map, List.map_cons, List.map_map]
  generalize hm : ((bs.drop n).length + n - 1) / n = m
  have hpos : 0 < m := by
    rw [← hm]
    exact Nat.div_pos (by simp; omega) h0
  congr 1
  · simp [beat, Nat.ne_of_gt hpos]
  · refine List.map_congr_left fun j _ => ?_
    simp only [Function.comp, beat, List.drop_drop, List.length_drop, Nat.succ_eq_add_one]
    have hj : n * (j + 1) = n + n * j := by rw [Nat.mul_succ, Nat.add_comm]
    have hs : n * (m + 1) - bs.length = n * m - (bs.length - n) := by
      rw [Nat.mul_succ]
      omega
    rw [hj, hs]
    simp

theorem whole_short (h : bs.length < n) : whole n bs = [] := by
  simp [whole, Nat.div_eq_of_lt h]

theorem rest_short (h : bs.length < n) : rest n bs = bs := by
  simp [rest, Nat.div_eq_of_lt h]

theorem whole_full (h0 : 0 < n) (hn : n ≤ bs.length) :
    whole n bs = ⟨bs.take n, false, 0⟩ :: whole n (bs.drop n) := by
  have hk : bs.length / n = (bs.drop n).length / n + 1 := by
    rw [List.length_drop, Nat.div_eq_sub_div h0 hn]
  unfold whole
  rw [hk, List.range_succ_eq_map, List.map_cons, List.map_map]
  congr 1
  refine List.map_congr_left fun j _ => ?_
  have hj : n * (j + 1) = n + n * j := by rw [Nat.mul_succ, Nat.add_comm]
  simp [Function.comp, List.drop_drop, hj]

theorem rest_full (h0 : 0 < n) (hn : n ≤ bs.length) : rest n bs = rest n (bs.drop n) := by
  have hk : bs.length / n = (bs.drop n).length / n + 1 := by
    rw [List.length_drop, Nat.div_eq_sub_div h0 hn]
  unfold rest
  rw [hk, List.drop_drop, Nat.mul_succ, Nat.add_comm]

theorem length_rest (h0 : 0 < n) : (rest n bs).length < n := by
  have hd := Nat.div_add_mod bs.length n
  have hm := Nat.mod_lt bs.length h0
  simp only [rest, List.length_drop]
  omega

/-- The lines a prefix fills are lines of the packet, whatever follows. -/
theorem beats_append (h0 : 0 < n) (hc : cs ≠ []) :
    beats n (bs ++ cs) = whole n bs ++ beats n (rest n bs ++ cs) := by
  have hcs : 0 < cs.length := List.length_pos_of_ne_nil hc
  generalize hl : bs.length = m
  induction m using Nat.strongRecOn generalizing bs with
  | _ m ih =>
    by_cases hb : bs.length < n
    · rw [whole_short hb, rest_short hb, List.nil_append]
    · have hn : n ≤ bs.length := Nat.le_of_not_lt hb
      rw [beats_full h0 (by rw [List.length_append]; omega), whole_full h0 hn, rest_full h0 hn,
        List.take_append_of_le_length hn, List.drop_append_of_le_length hn,
        ih (bs.drop n).length (by rw [List.length_drop]; omega) rfl, List.cons_append]

theorem length_whole : (whole n bs).length = bs.length / n := by simp [whole]

theorem length_beats : (beats n bs).length = (bs.length + n - 1) / n := by simp [beats]

/-! ### Packets with some bytes put in front

Some bytes held back from the line before, or a header, come first; every line then takes its
last bytes from the next line. -/

section shift

variable (hold : List α)

/-- A full line goes on, and its last bytes are held. -/
theorem beats_shift (h0 : 0 < n) (hh : hold.length ≤ n) (hn : n < bs.length) :
    beats n (hold ++ bs) = ⟨hold ++ bs.take (n - hold.length), false, 0⟩ ::
      beats n ((bs.take n).drop (n - hold.length) ++ bs.drop n) := by
  have hdrop : (bs.take n).drop (n - hold.length) ++ bs.drop n = bs.drop (n - hold.length) := by
    have hle : n - hold.length ≤ (bs.take n).length := by
      rw [List.length_take]
      omega
    rw [← List.drop_append_of_le_length hle, List.take_append_drop]
  rw [beats_full h0 (by rw [List.length_append]; omega), List.take_append, List.drop_append,
    List.take_of_length_le hh, List.drop_of_length_le hh, List.nil_append, hdrop]

/-- The last line fits behind what is held. -/
theorem beats_shift_fits (hb : 0 < bs.length) (hn : hold.length + bs.length ≤ n) :
    beats n (hold ++ bs) = [⟨hold ++ bs, true, n - (hold.length + bs.length)⟩] := by
  rw [beats_last (by rw [List.length_append]; omega) (by rw [List.length_append]; omega),
    List.length_append]

/-- The last line does not fit, and one more line follows it. -/
theorem beats_shift_spills (hh : hold.length ≤ n) (hb : bs.length ≤ n)
    (hn : n < hold.length + bs.length) :
    beats n (hold ++ bs) = [⟨hold ++ bs.take (n - hold.length), false, 0⟩,
      ⟨bs.drop (n - hold.length), true, n - (bs.length - (n - hold.length))⟩] := by
  rw [beats_full (by omega) (by rw [List.length_append]; omega), List.take_append,
    List.drop_append, List.take_of_length_le hh, List.drop_of_length_le hh, List.nil_append,
    beats_last (by rw [List.length_drop]; omega) (by rw [List.length_drop]; omega),
    List.length_drop]

end shift

@[simp] theorem beats_nil : beats n ([] : List α) = [] := by
  cases n with
  | zero => simp [beats]
  | succ n => simp [beats, Nat.div_eq_of_lt]

/-- The lines of a packet carry its bytes. -/
theorem flatMap_bytes_beats (h0 : 0 < n) : (beats n bs).flatMap Beat.bytes = bs := by
  generalize hl : bs.length = m
  induction m using Nat.strongRecOn generalizing bs with
  | _ m ih =>
    by_cases hn : n < bs.length
    · rw [beats_full h0 hn, List.flatMap_cons,
        ih (bs.drop n).length (by rw [List.length_drop]; omega) rfl, List.take_append_drop]
    · cases bs with
      | nil => rw [beats_nil]; rfl
      | cons b t =>
        rw [beats_last (by simp) (Nat.le_of_not_lt hn), List.flatMap_cons, List.flatMap_nil,
          List.append_nil]

theorem beats_ne_nil (h0 : 0 < n) (hb : 0 < bs.length) : beats n bs ≠ [] := by
  intro hnil
  have hbytes : (beats n bs).flatMap Beat.bytes = bs := flatMap_bytes_beats h0
  rw [hnil, List.flatMap_nil] at hbytes
  simp [← hbytes] at hb

/-! ### Marks -/

/-- Only the last of the lines is marked. -/
def MarkedEnd : List (Beat α) → Prop
  | [] => False
  | b :: t => b.last = true ∧ t = [] ∨ b.last = false ∧ MarkedEnd t

theorem markedEnd_beats (h0 : 0 < n) (hb : 0 < bs.length) : MarkedEnd (beats n bs) := by
  generalize hl : bs.length = m
  induction m using Nat.strongRecOn generalizing bs with
  | _ m ih =>
    by_cases hn : n < bs.length
    · have hlen : (bs.drop n).length = bs.length - n := List.length_drop
      rw [beats_full h0 hn]
      exact .inr ⟨rfl, ih (bs.drop n).length (by omega) (by omega) rfl⟩
    · rw [beats_last hb (Nat.le_of_not_lt hn)]
      exact .inl ⟨rfl, rfl⟩

theorem last_of_mem_whole {b : Beat α} (h : b ∈ whole n bs) : b.last = false := by
  obtain ⟨j, -, rfl⟩ := List.mem_map.mp h
  rfl

/-- Lines without marks in front. -/
theorem MarkedEnd.append {p q : List (Beat α)} (hp : ∀ b ∈ p, b.last = false) (hq : MarkedEnd q) :
    MarkedEnd (p ++ q) := by
  induction p with
  | nil => exact hq
  | cons b p ih =>
    exact .inr ⟨hp b List.mem_cons_self, ih fun b' hb' => hp b' (List.mem_cons_of_mem b hb')⟩

theorem MarkedEnd.ne_nil {q : List (Beat α)} (h : MarkedEnd q) : q ≠ [] := by
  rintro rfl
  exact h

/-! ### Queues -/

/-- The first line of a stream is the first one of the packet in front. -/
theorem first_of_append {x : α} {cur tail : List α} (hne : cur ≠ [])
    (h : ∃ t, cur ++ tail = x :: t) : ∃ t, cur = x :: t := by
  obtain ⟨t, ht⟩ := h
  rcases List.append_eq_cons_iff.mp ht with ⟨hnil, -⟩ | ⟨t', ht', -⟩
  · exact absurd hnil hne
  · exact ⟨t', ht'⟩

theorem length_tail_if {l : List α} {b : Bool} (h : b = true → l ≠ []) :
    (if b then l.tail else l).length + b.toNat = l.length := by
  cases b with
  | false => rfl
  | true =>
    have hpos := List.length_pos_of_ne_nil (h rfl)
    simp only [if_true, List.length_tail, Bool.toNat_true]
    omega

/-- A list and the list it is mapped to lose their first elements together. -/
theorem map_tail_if {β : Type} (f : α → β) (b : Bool) (l : List α) :
    (if b then (l.map f).tail else l.map f) = (if b then l.tail else l).map f := by
  cases b with
  | false => rfl
  | true => simp

end TcpHw.Framing
