import Mathlib.Algebra.Ring.Nat
import Mathlib.Data.List.Basic
import Mathlib.Data.List.Count

/-!
# Counting tokens in registers and queues

Each item that moves through a pipeline may carry a token. A stage register or a queue
loses a token only by handing it on, which the balance equations below say for one clock
edge. Nothing here names a particular pipeline.
-/
namespace TcpHw.Tokens

set_option autoImplicit false

variable {T X Y : Type} [DecidableEq T] (tok : X → Option T) (a : T)

/-- How many of the items carry the token `a`. -/
def held (l : List X) : Nat := (l.filterMap tok).count a

@[simp]
theorem held_nil : held tok a [] = 0 := rfl

@[simp]
theorem held_append (l l' : List X) : held tok a (l ++ l') = held tok a l + held tok a l' := by
  simp [held]

@[simp]
theorem held_map (f : Y → X) (l : List Y) :
    held tok a (l.map f) = held (fun y => tok (f y)) a l := by
  simp [held, List.filterMap_map]

theorem held_cons (x : X) (l : List X) :
    held tok a (x :: l) = held tok a [x] + held tok a l := by
  rw [← held_append, List.singleton_append]

@[simp]
theorem held_singleton (x : X) :
    held tok a [x] = if tok x = some a then 1 else 0 := by
  cases h : tok x with
  | none => simp [held, h]
  | some b => simp [held, h, List.count_singleton]

/-- The tokens of the items that pass a test and of those that do not. -/
theorem held_filter (p : X → Bool) (o : Option X) :
    held tok a (o.filter p).toList + held tok a (o.filter fun x => !p x).toList =
      held tok a o.toList := by
  cases o with
  | none => rfl
  | some x => cases h : p x <;> simp [Option.filter, h]

/-- A queue, with its oldest item taken or not and a new item behind. -/
theorem held_queue (pop : Bool) (q : List X) (new : Option X) :
    held tok a ((if pop then q.tail else q) ++ new.toList) +
        held tok a (if pop then q.head? else none).toList =
      held tok a q + held tok a new.toList := by
  cases pop with
  | false => simp
  | true =>
    cases q with
    | nil => simp
    | cons x q =>
      rw [held_cons tok a x q]
      simp
      omega

end TcpHw.Tokens
