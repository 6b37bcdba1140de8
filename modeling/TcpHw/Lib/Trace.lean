import Mathlib.Algebra.Ring.Nat
import Mathlib.Data.List.Basic

/-!
# Runs of a machine whose steps may be refused

A machine is a predicate on initial states and a partial step function. A third
parameter restricts the steps of a run by a condition on the state before the
step; the unrestricted machine has the condition that always holds. Nothing here
names a particular machine.
-/
namespace TcpHw.Trace

variable {S A : Type} {init : S → Prop} {step : S → A → Option S} {ok : S → A → Prop}

/-- The states of all runs from `init` whose steps meet `ok`. -/
inductive Reach (init : S → Prop) (step : S → A → Option S) (ok : S → A → Prop) : S → Prop
  | start {s : S} : init s → Reach init step ok s
  | next {s s' : S} (a : A) : Reach init step ok s → ok s a → step s a = some s' →
      Reach init step ok s'

/-- The condition of the unrestricted machine. -/
def Free : S → A → Prop := fun _ _ => True

instance (s : S) (a : A) : Decidable (Free s a) := .isTrue trivial

/-- What holds initially and is kept by every step holds in every state of every run. -/
theorem Reach.invariant {I : S → Prop} (hinit : ∀ s, init s → I s)
    (hstep : ∀ s a s', I s → ok s a → step s a = some s' → I s')
    {s : S} (h : Reach init step ok s) : I s := by
  induction h with
  | start h0 => exact hinit _ h0
  | next a _ hok hs ih => exact hstep _ a _ ih hok hs

/-- An invariant proved once may be used while proving the next one. -/
theorem Reach.invariant_of {I J : S → Prop} (hJ : ∀ s, Reach init step ok s → J s)
    (hinit : ∀ s, init s → I s)
    (hstep : ∀ s a s', J s → I s → ok s a → step s a = some s' → I s')
    {s : S} (h : Reach init step ok s) : I s := by
  induction h with
  | start h0 => exact hinit _ h0
  | next a hr hok hs ih => exact hstep _ a _ (hJ _ hr) ih hok hs

/-- A run under a condition is a run under a weaker one. -/
theorem Reach.mono {ok' : S → A → Prop} (hok : ∀ s a, ok s a → ok' s a) {s : S}
    (h : Reach init step ok s) : Reach init step ok' s := by
  induction h with
  | start h0 => exact .start h0
  | next a _ ha hs ih => exact ih.next a (hok _ a ha) hs

/-- A run from some states is a run from more states. -/
theorem Reach.of_init {init' : S → Prop} (hinit : ∀ s, init s → init' s) {s : S}
    (h : Reach init step ok s) : Reach init' step ok s := by
  induction h with
  | start h0 => exact .start (hinit _ h0)
  | next a _ ha hs ih => exact ih.next a ha hs

/-- Where every step of a machine is matched by one of another machine, so is every run. -/
theorem Reach.simulated {T B : Type} {init' : T → Prop} {step' : T → B → Option T}
    {ok' : T → B → Prop} {R : S → T → Prop} (hinit : ∀ s, init s → ∃ t, init' t ∧ R s t)
    (hstep : ∀ s a s' t, R s t → ok s a → step s a = some s' →
      ∃ b t', ok' t b ∧ step' t b = some t' ∧ R s' t')
    {s : S} (h : Reach init step ok s) : ∃ t, Reach init' step' ok' t ∧ R s t := by
  induction h with
  | start h0 =>
    obtain ⟨t, ht, hr⟩ := hinit _ h0
    exact ⟨t, .start ht, hr⟩
  | next a _ ha hs ih =>
    obtain ⟨t, ht, hr⟩ := ih
    obtain ⟨b, t', hb, hs', hr'⟩ := hstep _ a _ t hr ha hs
    exact ⟨t', ht.next b hb hs', hr'⟩

/-- Execute a list of steps. A refused step, or one that misses the condition, ends the
execution without a result. -/
def run (step : S → A → Option S) (ok : S → A → Prop) [∀ s a, Decidable (ok s a)] :
    S → List A → Option S
  | s, [] => some s
  | s, a :: as => if ok s a then (step s a).bind fun s' => run step ok s' as else none

theorem Reach.of_run [∀ s a, Decidable (ok s a)] {as : List A} {s s' : S}
    (hs : Reach init step ok s) (hr : run step ok s as = some s') : Reach init step ok s' := by
  induction as generalizing s with
  | nil =>
    cases hr
    exact hs
  | cons a as ih =>
    unfold run at hr
    split at hr
    · rename_i hok
      obtain ⟨t, ht, hr'⟩ := Option.bind_eq_some_iff.mp hr
      exact ih (hs.next a hok ht) hr'
    · cases hr

/-- A property computed at the end of one execution holds in some reachable state. -/
theorem Reach.exists_of_run [∀ s a, Decidable (ok s a)] {p : S → Bool} (as : List A) {s : S}
    (hs : init s) (hp : (run step ok s as).any p = true) :
    ∃ s', Reach init step ok s' ∧ p s' = true := by
  cases hr : run step ok s as with
  | none => simp [hr] at hp
  | some s' => exact ⟨s', Reach.of_run (.start hs) hr, by simpa [hr] using hp⟩

/-! ### Progress -/

/-- How many steps of an execution are favourable. -/
def tally (step : S → A → Option S) (good : S → A → Bool) : S → List A → Nat
  | _, [] => 0
  | s, a :: as => (if good s a then 1 else 0) + (step s a).elim 0 fun s' => tally step good s' as

/-- Work that no step increases and every favourable step decreases is done after as many
favourable steps, whatever the other steps are. -/
theorem run_finishes [∀ s a, Decidable (ok s a)] {I F : S → Prop} {good : S → A → Bool}
    (work : S → Nat)
    (hkeep : ∀ s a s', I s → ok s a → step s a = some s' → I s')
    (hdone : ∀ s a s', F s → step s a = some s' → F s')
    (hwork : ∀ s a s', I s → ok s a → step s a = some s' →
      F s' ∨ work s' + (if good s a then 1 else 0) ≤ work s)
    {as : List A} {s s' : S} (hI : I s) (hr : run step ok s as = some s')
    (ht : work s < tally step good s as) : F s' := by
  have hstay : ∀ (as : List A) (s : S), F s → run step ok s as = some s' → F s' := by
    intro as
    induction as with
    | nil =>
      intro s hs hr
      cases hr
      exact hs
    | cons a as ih =>
      intro s hs hr
      unfold run at hr
      split at hr
      · obtain ⟨t, ht, hr'⟩ := Option.bind_eq_some_iff.mp hr
        exact ih t (hdone s a t hs ht) hr'
      · cases hr
  induction as generalizing s with
  | nil => simp [tally] at ht
  | cons a as ih =>
    unfold run at hr
    split at hr
    · rename_i hok
      obtain ⟨t, hst, hr'⟩ := Option.bind_eq_some_iff.mp hr
      simp only [tally, hst, Option.elim_some] at ht
      rcases hwork s a t hI hok hst with hf | hle
      · exact hstay as t hf hr'
      · exact ih (hkeep s a t hI hok hst) hr' (by omega)
    · cases hr

/-- Something that is busy until it is done is done after as many favourable steps as it has
work. -/
theorem run_finishes_busy [∀ s a, Decidable (ok s a)] {I B F : S → Prop} {good : S → A → Bool}
    (work : S → Nat)
    (hkeep : ∀ s a s', I s → ok s a → step s a = some s' → I s')
    (hdone : ∀ s a s', F s → step s a = some s' → F s')
    (hbusy : ∀ s a s', I s → B s → ok s a → step s a = some s' →
      F s' ∨ B s' ∧ work s' + (if good s a then 1 else 0) ≤ work s)
    {as : List A} {s s' : S} (hI : I s) (hB : B s) (hr : run step ok s as = some s')
    (ht : work s < tally step good s as) : F s' := by
  refine run_finishes (F := F) (I := fun s => I s ∧ (F s ∨ B s)) work ?_ hdone ?_
    ⟨hI, .inr hB⟩ hr ht
  · rintro s a s' ⟨hi, hF | hb⟩ hok hs
    · exact ⟨hkeep s a s' hi hok hs, .inl (hdone s a s' hF hs)⟩
    · exact ⟨hkeep s a s' hi hok hs, (hbusy s a s' hi hb hok hs).imp_right And.left⟩
  · rintro s a s' ⟨hi, hF | hb⟩ hok hs
    · exact .inl (hdone s a s' hF hs)
    · exact (hbusy s a s' hi hb hok hs).imp_right And.right

/-! ### Fair schedules -/

/-- The state after the first `n` steps of an endless schedule of a machine that refuses none. -/
def exec (next : S → A → S) (s : S) (sched : Nat → A) : Nat → S
  | 0 => s
  | n + 1 => next (exec next s sched n) (sched n)

/-- An execution of a machine that is never refused a step is a run. -/
theorem Reach.of_exec {next : S → A → S} (hstep : ∀ s a, step s a = some (next s a)) {s : S}
    (h : Reach init step ok s) {sched : Nat → A} (hok : ∀ n, ok (exec next s sched n) (sched n))
    (n : Nat) : Reach init step ok (exec next s sched n) := by
  induction n with
  | zero => exact h
  | succ n ih => exact ih.next (sched n) (hok n) (hstep _ _)

/-- Every kind of event occurs again and again. -/
def Fair {K : Type} (given : A → K → Prop) (sched : Nat → A) : Prop :=
  ∀ k n, ∃ m, n ≤ m ∧ given (sched m) k

/-- What a map makes of an execution is an execution of the machine it maps to. -/
theorem exec_map {T : Type} {next : S → A → S} {next' : T → A → T} {f : S → T}
    (h : ∀ s a, f (next s a) = next' (f s) a) (s : S) (sched : Nat → A) (n : Nat) :
    f (exec next s sched n) = exec next' (f s) sched n := by
  induction n with
  | zero => rfl
  | succ n ih => rw [exec, exec, h, ih]

/-- What holds until the goal is reached and is kept by every step short of it. -/
theorem exec_invariant {next : S → A → S} {I G : S → Prop}
    (hkeep : ∀ s a, I s → ok s a → ¬ G s → I (next s a)) {s : S} {sched : Nat → A} (hI : I s)
    (hok : ∀ n, ok (exec next s sched n) (sched n)) (hnot : ∀ n, ¬ G (exec next s sched n)) (n : Nat) :
    I (exec next s sched n) := by
  induction n with
  | zero => exact hI
  | succ n ih => exact hkeep _ _ ih (hok n) (hnot n)

/-- In every state short of the goal some kind of event is awaited. Work never increases, it
decreases when the event occurs, and where it does not decrease the event is still awaited. Then a
fair schedule reaches the goal. -/
theorem exec_reaches_until {K : Type} {next : S → A → S} {given : A → K → Prop} {I G : S → Prop}
    (work : S → Nat) (awaits : S → K → Prop)
    (hkeep : ∀ s a, I s → ok s a → ¬ G s → I (next s a))
    (hsome : ∀ s, I s → ¬ G s → ∃ k, awaits s k)
    (hwork : ∀ s a k, I s → ok s a → ¬ G s → awaits s k →
      work (next s a) < work s ∨
        work (next s a) ≤ work s ∧ awaits (next s a) k ∧ ¬ given a k)
    {s : S} {sched : Nat → A} (hI : I s) (hok : ∀ n, ok (exec next s sched n) (sched n))
    (hfair : Fair given sched) : ∃ n, G (exec next s sched n) := by
  by_contra hnone
  have hnot : ∀ n, ¬ G (exec next s sched n) := fun n h => hnone ⟨n, h⟩
  have hInv := exec_invariant hkeep hI hok hnot
  -- from any time on, an awaited event comes no later than work decreases
  have hdec : ∀ d n k, awaits (exec next s sched n) k → given (sched (n + d)) k →
      ∃ m, work (exec next s sched m) < work (exec next s sched n) := by
    intro d
    induction d with
    | zero =>
      intro n k ha hg
      rcases hwork _ (sched n) k (hInv n) (hok n) (hnot n) ha with hlt | ⟨-, -, hng⟩
      · exact ⟨n + 1, hlt⟩
      · exact absurd hg hng
    | succ d ih =>
      intro n k ha hg
      rcases hwork _ (sched n) k (hInv n) (hok n) (hnot n) ha with hlt | ⟨hle, haw, -⟩
      · exact ⟨n + 1, hlt⟩
      · have hshift : n + (d + 1) = n + 1 + d := by omega
        rw [hshift] at hg
        obtain ⟨m, hm⟩ := ih (n + 1) k haw hg
        exact ⟨m, Nat.lt_of_lt_of_le hm hle⟩
  have hnever : ∀ w n, work (exec next s sched n) = w → False := by
    intro w
    induction w using Nat.strongRecOn with
    | _ w ih =>
      rintro n rfl
      obtain ⟨k, hk⟩ := hsome _ (hInv n) (hnot n)
      obtain ⟨m, hle, hg⟩ := hfair k n
      obtain ⟨j, hj⟩ := hdec (m - n) n k hk (by rwa [Nat.add_sub_cancel' hle])
      exact ih _ hj j rfl
  exact hnever _ 0 rfl

/-- The same for what every step keeps. -/
theorem exec_reaches_of {K : Type} {next : S → A → S} {given : A → K → Prop} {I G : S → Prop}
    (work : S → Nat) (awaits : S → K → Prop)
    (hkeep : ∀ s a, I s → ok s a → I (next s a))
    (hsome : ∀ s, I s → ¬ G s → ∃ k, awaits s k)
    (hwork : ∀ s a k, I s → ok s a → ¬ G s → awaits s k →
      work (next s a) < work s ∨
        work (next s a) ≤ work s ∧ awaits (next s a) k ∧ ¬ given a k)
    {s : S} {sched : Nat → A} (hI : I s) (hok : ∀ n, ok (exec next s sched n) (sched n))
    (hfair : Fair given sched) : ∃ n, G (exec next s sched n) :=
  exec_reaches_until work awaits (fun s a hi ha _ => hkeep s a hi ha) hsome hwork hI hok hfair

/-- A schedule from step `m` on. -/
def later (sched : Nat → A) (m : Nat) : Nat → A := fun n => sched (m + n)

theorem Fair.later {K : Type} {given : A → K → Prop} {sched : Nat → A} (hf : Fair given sched)
    (m : Nat) : Fair given (later sched m) := by
  intro k n
  obtain ⟨j, hj, hg⟩ := hf k (m + n)
  refine ⟨j - m, by omega, ?_⟩
  have hback : m + (j - m) = j := by omega
  show given (sched (m + (j - m))) k
  rw [hback]
  exact hg

theorem exec_add (next : S → A → S) (s : S) (sched : Nat → A) (m n : Nat) :
    exec next s sched (m + n) = exec next (exec next s sched m) (later sched m) n := by
  induction n with
  | zero => rfl
  | succ n ih =>
    show next (exec next s sched (m + n)) (sched (m + n)) = _
    rw [ih]
    rfl

/-- What moves in a step lowers the work. Short of the goal something moves in any case, or an event
is awaited; its coming makes something move, and it is awaited as long as nothing moves. -/
theorem exec_reaches_moving_of {K : Type} {next : S → A → S} {given : A → K → Prop} {I G : S → Prop}
    (ok : S → A → Prop) (work : S → Nat) (moved : S → A → Nat) (awaits : S → K → Prop)
    (hkeep : ∀ s a, I s → ok s a → I (next s a))
    (hwork : ∀ s a, I s → ok s a → work (next s a) + moved s a ≤ work s)
    (hsome : ∀ s, I s → ¬ G s → ∃ k, (∀ a, 0 < moved s a) ∨ awaits s k)
    (hmoves : ∀ s a k, I s → ok s a → awaits s k → given a k → 0 < moved s a)
    (hstill : ∀ s a k, I s → ok s a → awaits s k → moved s a = 0 → awaits (next s a) k)
    {s : S} {sched : Nat → A} (hI : I s) (hok : ∀ n, ok (exec next s sched n) (sched n))
    (hfair : Fair given sched) : ∃ n, G (exec next s sched n) := by
  refine exec_reaches_of work (fun s k => (∀ a, 0 < moved s a) ∨ awaits s k) hkeep hsome ?_ hI hok
    hfair
  intro s a k hi hoka _ hk
  have hle := hwork s a hi hoka
  by_cases hz : moved s a = 0
  · right
    rcases hk with hall | ha
    · have hpos := hall a
      omega
    · refine ⟨by omega, .inr (hstill s a k hi hoka ha hz), fun hg => ?_⟩
      have hpos := hmoves s a k hi hoka ha hg
      omega
  · left
    omega

/-- The same for a machine in all of whose runs it holds. -/
theorem exec_reaches_moving {K : Type} {next : S → A → S} {given : A → K → Prop} {I G : S → Prop}
    (work : S → Nat) (moved : S → A → Nat) (awaits : S → K → Prop)
    (hkeep : ∀ s a, I s → I (next s a))
    (hwork : ∀ s a, I s → work (next s a) + moved s a ≤ work s)
    (hsome : ∀ s, I s → ¬ G s → ∃ k, (∀ a, 0 < moved s a) ∨ awaits s k)
    (hmoves : ∀ s a k, I s → awaits s k → given a k → 0 < moved s a)
    (hstill : ∀ s a k, I s → awaits s k → moved s a = 0 → awaits (next s a) k)
    {s : S} {sched : Nat → A} (hI : I s) (hfair : Fair given sched) :
    ∃ n, G (exec next s sched n) := by
  have hfree : ∀ n, Free (exec next s sched n) (sched n) := fun _ => trivial
  exact exec_reaches_moving_of Free work moved awaits (fun s a hi _ => hkeep s a hi)
    (fun s a hi _ => hwork s a hi) hsome (fun s a k hi _ => hmoves s a k hi)
    (fun s a k hi _ => hstill s a k hi) hI hfree hfair

/-- The same where one kind of event is awaited at a time. -/
theorem exec_reaches {K : Type} {next : S → A → S} {given : A → K → Prop} {I Goal : S → Prop}
    (work : S → Nat) (awaits : S → K)
    (hkeep : ∀ s a, I s → ok s a → I (next s a))
    (hwork : ∀ s a, I s → ok s a → ¬ Goal s → work (next s a) < work s ∨
      work (next s a) ≤ work s ∧ awaits (next s a) = awaits s ∧ ¬ given a (awaits s))
    {s : S} {sched : Nat → A} (hI : I s) (hok : ∀ n, ok (exec next s sched n) (sched n))
    (hfair : Fair given sched) : ∃ n, Goal (exec next s sched n) := by
  refine exec_reaches_of work (fun s k => awaits s = k) hkeep (fun s _ _ => ⟨awaits s, rfl⟩) ?_ hI
    hok hfair
  rintro s a _ hi ha hn rfl
  exact hwork s a hi ha hn

end TcpHw.Trace
