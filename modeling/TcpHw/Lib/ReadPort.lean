import Mathlib.Algebra.Ring.Nat
import Mathlib.Data.List.Basic

/-!
# A read port with one request in flight

A memory accepts a request when it has none, or in the cycle in which it answers the last
one, and answers after any number of cycles; when it is ready and when it answers is up to
the memory. A user that keeps asking gets several answers. What he may rely on is
`Serves`: the answer is caught already, or the port is working on his request. Nothing
here names a particular memory.
-/
namespace TcpHw

set_option autoImplicit false

/-- What the memory does in one cycle. -/
structure PortIn (D : Type) where
  rdy : Bool
  respond : Bool
  data : D

/-- The request in flight, and the answers so far, which no hardware reads. -/
structure ReadPort (R D : Type) where
  pending : Option R
  answers : List (R × D)

namespace ReadPort

variable {R D : Type}

def reset : ReadPort R D where
  pending := none
  answers := []

/-- `rd_resp_val` and the data. -/
def resp (p : ReadPort R D) (x : PortIn D) : Option D :=
  if p.pending.isSome && x.respond then some x.data else none

/-- `rd_req_rdy` -/
def reqRdy (p : ReadPort R D) (x : PortIn D) : Bool := x.rdy && (p.pending.isNone || x.respond)

/-- One clock edge. -/
def step (p : ReadPort R D) (x : PortIn D) (req : Option R) : ReadPort R D where
  pending := if p.reqRdy x then req else if x.respond then none else p.pending
  answers := p.answers ++ (p.pending.bind fun r => (p.resp x).map fun d => (r, d)).toList

/-- The answer to `r` is caught, or the port is working on it. -/
def Serves (p : ReadPort R D) (r : R) (caught : Option D) : Prop :=
  match caught with
  | some d => (r, d) ∈ p.answers
  | none => p.pending = some r

variable {p : ReadPort R D} {x : PortIn D} {req : Option R} {r : R} {caught : Option D}

theorem mem_answers_step {a : R × D} (h : a ∈ p.answers) : a ∈ (p.step x req).answers :=
  List.mem_append_left _ h

theorem mem_answers_of_resp {d : D} (hp : p.pending = some r) (hd : p.resp x = some d) :
    (r, d) ∈ (p.step x req).answers := by
  refine List.mem_append_right _ ?_
  simp [hp, hd]

/-- The answer a user goes on with is one to his own request. -/
theorem Serves.take (h : p.Serves r caught) {d : D} (hd : caught.or (p.resp x) = some d) :
    (r, d) ∈ (p.step x req).answers := by
  cases caught with
  | some e =>
    cases hd
    exact mem_answers_step h
  | none => exact mem_answers_of_resp h hd

/-- A user that waits, and catches what comes, stays served whatever is asked for meanwhile. -/
theorem Serves.hold (h : p.Serves r caught) :
    (p.step x req).Serves r (caught.or (p.resp x)) := by
  cases caught with
  | some e => exact mem_answers_step h
  | none =>
    have hp : p.pending = some r := h
    cases hx : x.respond with
    | true =>
      have hd : p.resp x = some x.data := by simp [resp, hp, hx]
      rw [hd]
      exact mem_answers_of_resp hp hd
    | false =>
      have hd : p.resp x = none := by simp [resp, hx]
      rw [hd]
      show (p.step x req).pending = some r
      simp [step, reqRdy, hp, hx]

/-- A request that is accepted is worked on. -/
theorem serves_of_reqRdy (h : p.reqRdy x = true) : (p.step x (some r)).Serves r none := by
  show (p.step x (some r)).pending = some r
  simp [step, h]

/-- A memory that does not dawdle has the answer. -/
theorem Serves.available (h : p.Serves r caught) (hx : x.respond = true) :
    (caught.or (p.resp x)).isSome = true := by
  cases caught with
  | some d => rfl
  | none =>
    have hp : p.pending = some r := h
    simp [resp, hp, hx]

end ReadPort

end TcpHw
