import Mathlib.Algebra.Ring.Nat
import Mathlib.Data.Finset.Card
import Mathlib.Data.Finset.Option
import Mathlib.Data.Finset.Dedup

/-!
# Pools of reusable names

Names are in use or wait in a list of freed ones, never both. A name leaves the list at its
head, comes back at its end, and new names may enter. Nothing here names a particular kind of
name.
-/
namespace TcpHw

set_option autoImplicit false

variable {α : Type}

/-- The names `all` are split between those in use and those freed. -/
structure Pool (all : α → Prop) (used : Finset α) (freed : List α) : Prop where
  nodup : freed.Nodup
  apart : ∀ x ∈ freed, x ∉ used
  cover : ∀ x, all x ↔ x ∈ used ∨ x ∈ freed

namespace Pool

variable {all : α → Prop} {used : Finset α} {freed : List α}

theorem empty {all : α → Prop} (h : ∀ x, ¬ all x) : Pool all ∅ [] where
  nodup := List.nodup_nil
  apart := by simp
  cover := fun x => by simp [h x]

theorem congr {all' : α → Prop} (h : Pool all used freed) (ha : ∀ x, all' x ↔ all x) :
    Pool all' used freed :=
  ⟨h.nodup, h.apart, fun x => (ha x).trans (h.cover x)⟩

variable [DecidableEq α]

/-- The oldest freed name is used again. -/
theorem pop {x : α} (h : Pool all used (x :: freed)) : Pool all (insert x used) freed := by
  obtain ⟨hx, hnodup⟩ := List.nodup_cons.mp h.nodup
  refine ⟨hnodup, fun y hy hmem => ?_, fun y => ?_⟩
  · rcases Finset.mem_insert.mp hmem with rfl | hu
    · exact hx hy
    · exact h.apart y (List.mem_cons_of_mem x hy) hu
  · rw [h.cover y, Finset.mem_insert, List.mem_cons]
    tauto

/-- A new name is used. -/
theorem fresh {x : α} (h : Pool all used freed) (hx : ¬ all x) :
    Pool (fun y => all y ∨ y = x) (insert x used) freed := by
  refine ⟨h.nodup, fun y hy hmem => ?_, fun y => ?_⟩
  · rcases Finset.mem_insert.mp hmem with rfl | hu
    · exact hx ((h.cover y).mpr (.inr hy))
    · exact h.apart y hy hu
  · rw [h.cover y, Finset.mem_insert]
    tauto

/-- A name in use, or none, is given back. -/
theorem giveBack (h : Pool all used freed) {o : Option α} (ho : ∀ x ∈ o, x ∈ used) :
    Pool all (used \ o.toFinset) (freed ++ o.toList) := by
  cases o with
  | none => simpa using h
  | some r =>
    have hr : r ∈ used := ho r rfl
    have hfree : r ∉ freed := fun hmem => h.apart r hmem hr
    refine ⟨?_, fun y hy => ?_, fun y => ?_⟩
    · rw [Option.toList_some, List.nodup_append]
      refine ⟨h.nodup, List.nodup_singleton r, fun a ha b hb => ?_⟩
      rw [List.mem_singleton.mp hb]
      exact fun he => hfree (he ▸ ha)
    · simp only [Option.toList_some, List.mem_append, List.mem_singleton] at hy
      simp only [Option.toFinset_some, Finset.mem_sdiff, Finset.mem_singleton, not_and, not_not]
      rcases hy with hy | rfl
      · exact fun hu => absurd hu (h.apart y hy)
      · exact fun _ => rfl
    · simp only [h.cover y, Option.toFinset_some, Finset.mem_sdiff, Finset.mem_singleton,
        Option.toList_some, List.mem_append, List.mem_singleton]
      by_cases hy : y = r
      · simp [hy, hr]
      · simp [hy]

/-- While a name is in use, the list has room for it. -/
theorem length_lt (h : Pool all used freed) {S : Finset α} (hS : ∀ x, all x → x ∈ S) {x : α}
    (hx : x ∈ used) : freed.length < S.card := by
  have hfree : x ∉ freed := fun hmem => h.apart x hmem hx
  have hsub : insert x freed.toFinset ⊆ S := by
    intro y hy
    refine hS y ((h.cover y).mpr ?_)
    rcases Finset.mem_insert.mp hy with rfl | hf
    · exact .inl hx
    · exact .inr (List.mem_toFinset.mp hf)
  have hcard := Finset.card_le_card hsub
  rw [Finset.card_insert_of_notMem (by simpa using hfree),
    List.toFinset_card_of_nodup h.nodup] at hcard
  exact hcard

end Pool

end TcpHw
