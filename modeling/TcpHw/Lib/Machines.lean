import TcpHw.Lib.Framing
import TcpHw.Lib.Trace

/-!
# Machines that handle one unit after the other

A machine takes from a source and gives out headers and data. The source holds units, one after the
other. A machine that handles each unit by itself, whatever follows, gives out for a list of units
what it owes for each of them, in order. Nothing here names a particular machine.
-/
namespace TcpHw.Machines

open Framing Trace

set_option autoImplicit false

variable {C Q W A H D X K : Type}

/-- What the surroundings do in a cycle is an `A`; `wires` adds what the source shows, and `pops` is
what the source holds after the cycle. -/
structure Machine (C Q W A H D : Type) where
  wires : A → Q → W
  next : C → W → C
  pops : C → W → Q → Q
  hdrGiven : C → W → List H
  dataGiven : C → W → List D

/-- A machine with its source and all that was given out. -/
structure System (C Q H D : Type) where
  ctrl : C
  src : Q
  hdrs : List H
  data : List D

/-- A source that holds nothing, a source with a unit in front, the size of a source, and what is
owed for a unit. -/
structure Kind (X Q H D : Type) where
  empty : Q
  load : X → Q → Q
  size : Q → Nat
  hdrs : X → List H
  data : X → List D

/-- What is known of a machine. It is idle between two units. Inside one, the source holds the rest
of the unit with some units behind it, and some headers and data are owed. It has some steps to make
by itself, at most `most`. -/
structure Phases (C Q H D K : Type) where
  idle : C → Prop
  inside : C → Q → Q → List H → List D → Prop
  left : C → Nat
  most : Nat
  awaits : C → K

namespace Machine

variable (m : Machine C Q W A H D) (u : Kind X Q H D) (p : Phases C Q H D K)

/-- One clock cycle. -/
def cycle (s : System C Q H D) (a : A) : System C Q H D where
  ctrl := m.next s.ctrl (m.wires a s.src)
  src := m.pops s.ctrl (m.wires a s.src) s.src
  hdrs := s.hdrs ++ m.hdrGiven s.ctrl (m.wires a s.src)
  data := s.data ++ m.dataGiven s.ctrl (m.wires a s.src)

def step (s : System C Q H D) (a : A) : Option (System C Q H D) := some (m.cycle s a)

/-- Something moves: out of the source, out of the machine or in the machine. -/
def Moves (c : C) (a : A) (q : Q) : Prop :=
  u.size (m.pops c (m.wires a q) q) < u.size q ∨ m.hdrGiven c (m.wires a q) ≠ [] ∨
    m.dataGiven c (m.wires a q) ≠ [] ∨ p.left (m.next c (m.wires a q)) < p.left c

/-- One cycle inside a unit leaves what is behind it alone and pays what is owed. It leaves the unit
when nothing is to come and nothing is owed. -/
def Advances (c : C) (a : A) (q tail : Q) (h : List H) (d : List D) : Prop :=
  ∃ h' d', m.hdrGiven c (m.wires a q) ++ h' = h ∧ m.dataGiven c (m.wires a q) ++ d' = d ∧
    (p.inside (m.next c (m.wires a q)) (m.pops c (m.wires a q) q) tail h' d' ∨
      p.idle (m.next c (m.wires a q)) ∧ m.pops c (m.wires a q) q = tail ∧ h' = [] ∧ d' = [])

end Machine

/-- The machine handles every unit that meets `ok`. -/
structure Handles (m : Machine C Q W A H D) (u : Kind X Q H D) (p : Phases C Q H D K)
    (given : A → K → Prop) (ok : X → Prop) : Prop where
  size_load : ∀ x tail, u.size tail < u.size (u.load x tail)
  size_pops : ∀ c a q, u.size (m.pops c (m.wires a q) q) ≤ u.size q
  left_most : ∀ c, p.left c ≤ p.most
  idle_gives : ∀ c w, p.idle c → m.hdrGiven c w = [] ∧ m.dataGiven c w = []
  idle_empty : ∀ c a, p.idle c → p.idle (m.next c (m.wires a u.empty)) ∧
    m.pops c (m.wires a u.empty) u.empty = u.empty
  begins : ∀ x tail c a, ok x → p.idle c →
    p.idle (m.next c (m.wires a (u.load x tail))) ∧
        m.pops c (m.wires a (u.load x tail)) (u.load x tail) = u.load x tail ∨
      p.inside (m.next c (m.wires a (u.load x tail)))
        (m.pops c (m.wires a (u.load x tail)) (u.load x tail)) tail (u.hdrs x) (u.data x)
  advances : ∀ c q tail h d a, p.inside c q tail h d → m.Advances p c a q tail h d
  left_idle : ∀ x tail c a, ok x → p.idle c →
    u.size (u.load x tail) ≤
        u.size (m.pops c (m.wires a (u.load x tail)) (u.load x tail)) →
      p.left (m.next c (m.wires a (u.load x tail))) ≤ p.left c
  left_inside : ∀ c q tail h d a, p.inside c q tail h d →
    u.size q ≤ u.size (m.pops c (m.wires a q) q) → p.left (m.next c (m.wires a q)) ≤ p.left c
  idle_stirs : ∀ x tail c a, ok x → p.idle c → given a (p.awaits c) →
    m.Moves u p c a (u.load x tail)
  stirs : ∀ c q tail h d a, p.inside c q tail h d → given a (p.awaits c) → m.Moves u p c a q
  idle_awaits : ∀ x tail c a, ok x → p.idle c → ¬ m.Moves u p c a (u.load x tail) →
    p.awaits (m.next c (m.wires a (u.load x tail))) = p.awaits c
  awaits : ∀ c q tail h d a, p.inside c q tail h d → ¬ m.Moves u p c a q →
    p.awaits (m.next c (m.wires a q)) = p.awaits c

/-! ### One unit -/

/-- The machine is before the unit, in it, or behind it, with the units `tail` untouched; `hs` and
`ds` are what was given out before. -/
inductive InUnit (u : Kind X Q H D) (p : Phases C Q H D K) (x : X) (tail : Q) (hs : List H)
    (ds : List D) (s : System C Q H D) : Prop
  | before (hr : p.idle s.ctrl) (hsrc : s.src = u.load x tail) (hh : s.hdrs = hs)
      (hd : s.data = ds)
  | phase (h : List H) (d : List D) (hp : p.inside s.ctrl s.src tail h d)
      (hh : s.hdrs ++ h = hs ++ u.hdrs x) (hd : s.data ++ d = ds ++ u.data x)
      (hlow : hs <+: s.hdrs ∧ ds <+: s.data)
  | behind (hr : p.idle s.ctrl) (hsrc : s.src = tail) (hh : s.hdrs = hs ++ u.hdrs x)
      (hd : s.data = ds ++ u.data x)

/-- The machine is behind the unit. -/
def Behind (u : Kind X Q H D) (p : Phases C Q H D K) (x : X) (tail : Q) (hs : List H)
    (ds : List D) (s : System C Q H D) : Prop :=
  p.idle s.ctrl ∧ s.src = tail ∧ s.hdrs = hs ++ u.hdrs x ∧ s.data = ds ++ u.data x

/-- What comes out of the source may give the machine steps to make by itself. -/
def work (u : Kind X Q H D) (p : Phases C Q H D K) (x : X) (hs : List H) (ds : List D)
    (s : System C Q H D) : Nat :=
  (p.most + 1) * u.size s.src + ((hs ++ u.hdrs x).length - s.hdrs.length) +
    ((ds ++ u.data x).length - s.data.length) + p.left s.ctrl

variable {m : Machine C Q W A H D} {u : Kind X Q H D} {p : Phases C Q H D K}
  {given : A → K → Prop} {ok : X → Prop} {x : X} {tail : Q} {hs : List H} {ds : List D}
  {s : System C Q H D} {a : A}

/-- Every cycle short of the end of a unit stays in it. -/
theorem InUnit.keeps (hm : Handles m u p given ok) (hx : ok x) (hi : InUnit u p x tail hs ds s)
    (hn : ¬ Behind u p x tail hs ds s) : InUnit u p x tail hs ds (m.cycle s a) := by
  cases hi with
  | before hr hsrc hh hd =>
    obtain ⟨hgh, hgd⟩ := hm.idle_gives _ (m.wires a s.src) hr
    have hhdrs : (m.cycle s a).hdrs = hs := by simp [Machine.cycle, hgh, hh]
    have hdata : (m.cycle s a).data = ds := by simp [Machine.cycle, hgd, hd]
    have hb := hm.begins x tail s.ctrl a hx hr
    rw [← hsrc] at hb
    rcases hb with ⟨hr', hpops⟩ | hp
    · exact .before hr' (hpops.trans hsrc) hhdrs hdata
    · refine .phase _ _ hp (by rw [hhdrs]) (by rw [hdata]) ?_
      rw [hhdrs, hdata]
      exact ⟨List.prefix_refl _, List.prefix_refl _⟩
  | phase h d hp hh hd hlow =>
    obtain ⟨h', d', hh', hd', hnext⟩ := hm.advances _ _ _ _ _ a hp
    have hhdrs : (m.cycle s a).hdrs ++ h' = hs ++ u.hdrs x := by
      rw [← hh, ← hh', ← List.append_assoc]
      rfl
    have hdata : (m.cycle s a).data ++ d' = ds ++ u.data x := by
      rw [← hd, ← hd', ← List.append_assoc]
      rfl
    rcases hnext with hp' | ⟨hr, hsrc, rfl, rfl⟩
    · exact .phase h' d' hp' hhdrs hdata
        ⟨hlow.1.trans (List.prefix_append _ _), hlow.2.trans (List.prefix_append _ _)⟩
    · refine .behind hr hsrc ?_ ?_
      · simpa using hhdrs
      · simpa using hdata
  | behind hr hsrc hh hd => exact absurd ⟨hr, hsrc, hh, hd⟩ hn

/-- What was given out since the machine came to the unit is a part of what is owed for it. -/
theorem InUnit.beginning (hi : InUnit u p x tail hs ds s) :
    (hs <+: s.hdrs ∧ s.hdrs <+: hs ++ u.hdrs x) ∧ ds <+: s.data ∧ s.data <+: ds ++ u.data x := by
  cases hi with
  | before hr hsrc hh hd =>
    rw [hh, hd]
    exact ⟨⟨List.prefix_refl _, List.prefix_append _ _⟩, List.prefix_refl _,
      List.prefix_append _ _⟩
  | phase h d hp hh hd hlow => exact ⟨⟨hlow.1, ⟨h, hh⟩⟩, hlow.2, ⟨d, hd⟩⟩
  | behind hr hsrc hh hd =>
    rw [hh, hd]
    exact ⟨⟨List.prefix_append _ _, List.prefix_refl _⟩, List.prefix_append _ _,
      List.prefix_refl _⟩

/-- The machine gets steps to make by itself only with something out of the source. -/
theorem InUnit.left_le (hm : Handles m u p given ok) (hx : ok x) (hi : InUnit u p x tail hs ds s)
    (hn : ¬ Behind u p x tail hs ds s) (hsize : u.size s.src ≤ u.size (m.cycle s a).src) :
    p.left (m.cycle s a).ctrl ≤ p.left s.ctrl := by
  cases hi with
  | before hr hsrc hh hd =>
    have hle := hm.left_idle x tail s.ctrl a hx hr
    rw [← hsrc] at hle
    exact hle hsize
  | phase h d hp hh hd hlow => exact hm.left_inside _ _ _ _ _ a hp hsize
  | behind hr hsrc hh hd => exact absurd ⟨hr, hsrc, hh, hd⟩ hn

/-- What moves is work done. -/
theorem InUnit.work_le (hm : Handles m u p given ok) (hx : ok x) (hi : InUnit u p x tail hs ds s)
    (hn : ¬ Behind u p x tail hs ds s) : work u p x hs ds (m.cycle s a) ≤ work u p x hs ds s ∧
      (m.Moves u p s.ctrl a s.src → work u p x hs ds (m.cycle s a) < work u p x hs ds s) := by
  obtain ⟨⟨-, hpre⟩, -, hpre'⟩ := (hi.keeps (a := a) hm hx hn).beginning
  have hh := hpre.length_le
  have hd := hpre'.length_le
  have hhdrs : (m.cycle s a).hdrs.length =
      s.hdrs.length + (m.hdrGiven s.ctrl (m.wires a s.src)).length := List.length_append
  have hdata : (m.cycle s a).data.length =
      s.data.length + (m.dataGiven s.ctrl (m.wires a s.src)).length := List.length_append
  have hmost := hm.left_most (m.cycle s a).ctrl
  have hpops : u.size (m.cycle s a).src ≤ u.size s.src := hm.size_pops s.ctrl a s.src
  unfold work
  by_cases hsize : u.size s.src ≤ u.size (m.cycle s a).src
  · have heq : u.size (m.cycle s a).src = u.size s.src := Nat.le_antisymm hpops hsize
    have hleft := hi.left_le hm hx hn hsize
    rw [heq]
    refine ⟨by omega, ?_⟩
    rintro (hlt | hne | hne | hlt)
    · have hlt' : u.size (m.cycle s a).src < u.size s.src := hlt
      omega
    · have hpos := List.length_pos_of_ne_nil hne
      omega
    · have hpos := List.length_pos_of_ne_nil hne
      omega
    · have hlt' : p.left (m.cycle s a).ctrl < p.left s.ctrl := hlt
      omega
  · have hmul : (p.most + 1) * (u.size (m.cycle s a).src + 1) ≤ (p.most + 1) * u.size s.src :=
      Nat.mul_le_mul_left _ (by omega)
    rw [Nat.mul_add, Nat.mul_one] at hmul
    refine ⟨by omega, fun _ => by omega⟩

/-- Short of the end of a unit something moves when the awaited event comes. -/
theorem InUnit.moves_of_given (hm : Handles m u p given ok) (hx : ok x)
    (hi : InUnit u p x tail hs ds s) (hn : ¬ Behind u p x tail hs ds s)
    (hg : given a (p.awaits s.ctrl)) : m.Moves u p s.ctrl a s.src := by
  cases hi with
  | before hr hsrc hh hd =>
    rw [hsrc]
    exact hm.idle_stirs x tail s.ctrl a hx hr hg
  | phase h d hp hh hd hlow => exact hm.stirs _ _ _ _ _ a hp hg
  | behind hr hsrc hh hd => exact absurd ⟨hr, hsrc, hh, hd⟩ hn

/-- Where nothing moves, the same event is awaited. -/
theorem InUnit.awaits_still (hm : Handles m u p given ok) (hx : ok x)
    (hi : InUnit u p x tail hs ds s) (hn : ¬ Behind u p x tail hs ds s)
    (hmv : ¬ m.Moves u p s.ctrl a s.src) : p.awaits (m.cycle s a).ctrl = p.awaits s.ctrl := by
  cases hi with
  | before hr hsrc hh hd =>
    have hidle := hm.idle_awaits x tail s.ctrl a hx hr
    rw [← hsrc] at hidle
    exact hidle hmv
  | phase h d hp hh hd hlow => exact hm.awaits _ _ _ _ _ a hp hmv
  | behind hr hsrc hh hd => exact absurd ⟨hr, hsrc, hh, hd⟩ hn

/-- Under a fair schedule the machine comes to the end of the unit. -/
theorem InUnit.ends (hm : Handles m u p given ok) (hx : ok x) (hi : InUnit u p x tail hs ds s)
    {sched : Nat → A} (hf : Fair given sched) :
    ∃ n, Behind u p x tail hs ds (exec m.cycle s sched n) := by
  have hfree : ∀ n, Free (exec m.cycle s sched n) (sched n) := fun _ => trivial
  apply exec_reaches_until (I := InUnit u p x tail hs ds) (work u p x hs ds)
    (fun s k => p.awaits s.ctrl = k) ?_ ?_ ?_ hi hfree hf
  · intro s a hi _ hn
    exact hi.keeps hm hx hn
  · intro s _ _
    exact ⟨p.awaits s.ctrl, rfl⟩
  · rintro s a _ hi _ hn rfl
    obtain ⟨hle, hlt⟩ := hi.work_le (a := a) hm hx hn
    by_cases hmv : m.Moves u p s.ctrl a s.src
    · exact .inl (hlt hmv)
    · exact .inr ⟨hle, hi.awaits_still hm hx hn hmv, fun hg => hmv (hi.moves_of_given hm hx hn hg)⟩

/-! ### All units -/

/-- The source holds the units. -/
def Kind.loadAll (u : Kind X Q H D) (xs : List X) : Q := xs.foldr u.load u.empty

/-- The units `pre` were handled, and the units `post` are to come. -/
def Between (u : Kind X Q H D) (p : Phases C Q H D K) (pre post : List X)
    (s : System C Q H D) : Prop :=
  p.idle s.ctrl ∧ s.src = u.loadAll post ∧ s.hdrs = pre.flatMap u.hdrs ∧ s.data = pre.flatMap u.data

/-- The machine is at one of the units or behind them all. -/
inductive InRun (u : Kind X Q H D) (p : Phases C Q H D K) (xs : List X) (s : System C Q H D) : Prop
  | atUnit (pre : List X) (x : X) (post : List X) (hxs : xs = pre ++ x :: post)
      (hi : InUnit u p x (u.loadAll post) (pre.flatMap u.hdrs) (pre.flatMap u.data) s)
      (hn : ¬ Behind u p x (u.loadAll post) (pre.flatMap u.hdrs) (pre.flatMap u.data) s)
  | done (hd : Between u p xs [] s)

variable {xs pre post : List X}

/-- Behind a unit is between it and the next one. -/
theorem Behind.between
    (hb : Behind u p x (u.loadAll post) (pre.flatMap u.hdrs) (pre.flatMap u.data) s) :
    Between u p (pre ++ [x]) post s := by
  obtain ⟨hr, hsrc, hh, hd⟩ := hb
  refine ⟨hr, hsrc, ?_, ?_⟩
  · simpa using hh
  · simpa using hd

/-- Between two units is before the second one, or the end. -/
theorem Between.inRun (hm : Handles m u p given ok) (hb : Between u p pre post s)
    (hxs : xs = pre ++ post) : InRun u p xs s := by
  cases post with
  | nil =>
    rw [List.append_nil] at hxs
    subst hxs
    exact .done hb
  | cons x post =>
    obtain ⟨hr, hsrc, hh, hd⟩ := hb
    refine .atUnit pre x post hxs (.before hr hsrc hh hd) ?_
    rintro ⟨-, hbehind, -⟩
    have hlt := hm.size_load x (u.loadAll post)
    have heq : u.load x (u.loadAll post) = u.loadAll post := hsrc.symm.trans hbehind
    rw [heq] at hlt
    exact absurd hlt (Nat.lt_irrefl _)

theorem InRun.keeps (hm : Handles m u p given ok) (hx : ∀ x ∈ xs, ok x) (hi : InRun u p xs s) :
    InRun u p xs (m.cycle s a) := by
  cases hi with
  | done hd =>
    obtain ⟨hr, hsrc, hh, hdata⟩ := hd
    obtain ⟨hgh, hgd⟩ := hm.idle_gives _ (m.wires a s.src) hr
    have hempty : s.src = u.empty := hsrc
    obtain ⟨hr', hpops⟩ := hm.idle_empty s.ctrl a hr
    rw [← hempty] at hr' hpops
    refine .done ⟨hr', hpops.trans hsrc, ?_, ?_⟩
    · simpa [Machine.cycle, hgh] using hh
    · simpa [Machine.cycle, hgd] using hdata
  | atUnit pre x post hxs hi hn =>
    have hmem : x ∈ xs := by simp [hxs]
    have hi' := hi.keeps (a := a) hm (hx x hmem) hn
    by_cases hb : Behind u p x (u.loadAll post) (pre.flatMap u.hdrs) (pre.flatMap u.data)
        (m.cycle s a)
    · exact hb.between.inRun hm (by simp [hxs])
    · exact .atUnit pre x post hxs hi' hb

theorem InRun.idle_or_inside (hi : InRun u p xs s) :
    p.idle s.ctrl ∨ ∃ tail h d, p.inside s.ctrl s.src tail h d := by
  cases hi with
  | done hd => exact .inl hd.1
  | atUnit pre x post _ hi =>
    cases hi with
    | before hr => exact .inl hr
    | phase h d hp => exact .inr ⟨_, h, d, hp⟩
    | behind hr => exact .inl hr

/-- What was given out: all for the units that were handled, and a part for the one in hand. -/
structure Paid (u : Kind X Q H D) (pre post : List X) (s : System C Q H D) : Prop where
  hdrs : pre.flatMap u.hdrs <+: s.hdrs ∧ s.hdrs <+: (pre ++ post.take 1).flatMap u.hdrs
  data : pre.flatMap u.data <+: s.data ∧ s.data <+: (pre ++ post.take 1).flatMap u.data

theorem InUnit.paid
    (hi : InUnit u p x (u.loadAll post) (pre.flatMap u.hdrs) (pre.flatMap u.data) s) :
    Paid u pre (x :: post) s := by
  have hone : ∀ {β : Type} (f : X → List β),
      (pre ++ (x :: post).take 1).flatMap f = pre.flatMap f ++ f x := fun f => by simp
  obtain ⟨hh, hd⟩ := hi.beginning
  refine ⟨?_, ?_⟩
  · rw [hone]
    exact hh
  · rw [hone]
    exact hd

/-- Headers and data are given out for the same unit at any time. -/
theorem InRun.paid (hi : InRun u p xs s) : ∃ pre post, xs = pre ++ post ∧ Paid u pre post s := by
  cases hi with
  | done hd =>
    obtain ⟨-, -, hh, hdata⟩ := hd
    refine ⟨xs, [], (List.append_nil xs).symm, ⟨?_, ?_⟩⟩
    · rw [hh, List.take_nil, List.append_nil]
      exact ⟨List.prefix_refl _, List.prefix_refl _⟩
    · rw [hdata, List.take_nil, List.append_nil]
      exact ⟨List.prefix_refl _, List.prefix_refl _⟩
  | atUnit pre x post hxs hi hn => exact ⟨pre, x :: post, hxs, hi.paid⟩

/-- What was given out is the beginning of what is owed. -/
theorem Paid.beginning (hp : Paid u pre post s) :
    s.hdrs <+: (pre ++ post).flatMap u.hdrs ∧ s.data <+: (pre ++ post).flatMap u.data := by
  have hall : ∀ {β : Type} (f : X → List β),
      (pre ++ post.take 1).flatMap f <+: (pre ++ post).flatMap f := by
    intro β f
    refine ⟨(post.drop 1).flatMap f, ?_⟩
    rw [← List.flatMap_append, List.append_assoc, List.take_append_drop]
  exact ⟨hp.hdrs.2.trans (hall _), hp.data.2.trans (hall _)⟩

theorem InRun.beginning (hi : InRun u p xs s) :
    s.hdrs <+: xs.flatMap u.hdrs ∧ s.data <+: xs.flatMap u.data := by
  obtain ⟨pre, post, rfl, hp⟩ := hi.paid
  exact hp.beginning

/-- Under a fair schedule one unit after the other comes to its end. -/
theorem InUnit.ends_all (hm : Handles m u p given ok) (hx : ∀ x ∈ xs, ok x) (post : List X) :
    ∀ pre x s sched, xs = pre ++ x :: post → Fair given sched →
      InUnit u p x (u.loadAll post) (pre.flatMap u.hdrs) (pre.flatMap u.data) s →
      ∃ n, Between u p xs [] (exec m.cycle s sched n) := by
  induction post with
  | nil =>
    intro pre x s sched hxs hf hi
    obtain ⟨n, hb⟩ := hi.ends hm (hx x (by simp [hxs])) hf
    rw [hxs]
    exact ⟨n, hb.between⟩
  | cons y post ih =>
    intro pre x s sched hxs hf hi
    obtain ⟨k, hb⟩ := hi.ends hm (hx x (by simp [hxs])) hf
    obtain ⟨hr, hsrc, hh, hd⟩ := hb.between
    obtain ⟨n, hn⟩ := ih (pre ++ [x]) y _ _ (by simp [hxs]) (hf.later k) (.before hr hsrc hh hd)
    exact ⟨k + n, by rwa [exec_add]⟩

theorem InRun.ends (hm : Handles m u p given ok) (hx : ∀ x ∈ xs, ok x) (hi : InRun u p xs s)
    {sched : Nat → A} (hf : Fair given sched) :
    ∃ n, Between u p xs [] (exec m.cycle s sched n) := by
  cases hi with
  | done hd => exact ⟨0, hd⟩
  | atUnit pre x post hxs hi hn => exact InUnit.ends_all hm hx post pre x s sched hxs hf hi

/-- The invariant of all runs that start between no units and `xs`. -/
theorem inRun_of_reach (hm : Handles m u p given ok) (hx : ∀ x ∈ xs, ok x)
    (h : Reach (Between u p [] xs) m.step Free s) : InRun u p xs s := by
  refine h.invariant (I := InRun u p xs) (fun _ hb => hb.inRun hm rfl) ?_
  intro s a s' hi _ hstep
  cases hstep
  exact hi.keeps hm hx

/-! ### Units of lines -/

section lines

variable {L : Type}

/-- A machine that takes one line after the other. -/
structure LineMachine (C L W A H D : Type) where
  wires : A → List L → W
  next : C → W → C
  takes : C → W → Bool
  hdrGiven : C → W → List H
  dataGiven : C → W → List D

def LineMachine.machine (m : LineMachine C L W A H D) : Machine C (List L) W A H D where
  wires := m.wires
  next := m.next
  pops c w q := if m.takes c w then q.tail else q
  hdrGiven := m.hdrGiven
  dataGiven := m.dataGiven

structure LineKind (X L H D : Type) where
  lines : X → List L
  hdrs : X → List H
  data : X → List D

def LineKind.kind (u : LineKind X L H D) : Kind X (List L) H D where
  empty := []
  load x tail := u.lines x ++ tail
  size := List.length
  hdrs := u.hdrs
  data := u.data

/-- Inside a unit some of its lines are to come; the machine is busy until it leaves the unit. -/
structure LinePhases (C L H D K : Type) where
  idle : C → Prop
  inside : C → List L → List H → List D → Prop
  busy : C → Bool
  awaits : C → K

def LinePhases.phases (p : LinePhases C L H D K) : Phases C (List L) H D K where
  idle := p.idle
  inside c q tail h d := ∃ cur, q = cur ++ tail ∧ p.inside c cur h d
  left c := (p.busy c).toNat
  most := 1
  awaits := p.awaits

/-- Something moves: a line, a header or data, or the machine out of a unit. -/
def LineMachine.moves (m : LineMachine C L W A H D) (p : LinePhases C L H D K) (c : C)
    (w : W) : Bool :=
  m.takes c w || !(m.hdrGiven c w).isEmpty || !(m.dataGiven c w).isEmpty ||
    p.busy c && !p.busy (m.next c w)

/-- One cycle inside a unit. -/
def LineMachine.Advances (m : LineMachine C L W A H D) (p : LinePhases C L H D K) (c : C) (w : W)
    (cur tail : List L) (h : List H) (d : List D) : Prop :=
  ∃ cur' h' d', (if m.takes c w then (cur ++ tail).tail else cur ++ tail) = cur' ++ tail ∧
    m.hdrGiven c w ++ h' = h ∧ m.dataGiven c w ++ d' = d ∧
    (p.inside (m.next c w) cur' h' d' ∨ p.idle (m.next c w) ∧ cur' = [] ∧ h' = [] ∧ d' = [])

structure LineHandles (m : LineMachine C L W A H D) (u : LineKind X L H D)
    (p : LinePhases C L H D K) (given : A → K → Prop) (ok : X → Prop) : Prop where
  lines_ne : ∀ x, u.lines x ≠ []
  idle_busy : ∀ c, p.idle c → p.busy c = false
  inside_busy : ∀ c cur h d, p.inside c cur h d → p.busy c = true
  takes_ne : ∀ c a src, m.takes c (m.wires a src) = true → src ≠ []
  idle_gives : ∀ c w, p.idle c → m.hdrGiven c w = [] ∧ m.dataGiven c w = []
  idle_still : ∀ c a src, p.idle c → m.takes c (m.wires a src) = false →
    p.idle (m.next c (m.wires a src))
  idle_stirs : ∀ c a src, p.idle c → src ≠ [] → given a (p.awaits c) →
    m.takes c (m.wires a src) = true
  begins : ∀ x tail c a, ok x → p.idle c → m.takes c (m.wires a (u.lines x ++ tail)) = true →
    p.inside (m.next c (m.wires a (u.lines x ++ tail))) (u.lines x).tail (u.hdrs x) (u.data x)
  advances : ∀ c cur h d a tail, p.inside c cur h d →
    m.Advances p c (m.wires a (cur ++ tail)) cur tail h d
  stirs : ∀ c cur h d a tail, p.inside c cur h d → given a (p.awaits c) →
    m.moves p c (m.wires a (cur ++ tail)) = true
  awaits_still : ∀ c w, m.moves p c w = false → p.awaits (m.next c w) = p.awaits c

variable {m : LineMachine C L W A H D} {u : LineKind X L H D} {p : LinePhases C L H D K}
  {given : A → K → Prop} {ok : X → Prop} {c : C} {a : A} {q : List L}

theorem moves_iff (hm : LineHandles m u p given ok) :
    m.machine.Moves u.kind p.phases c a q ↔ m.moves p c (m.wires a q) = true := by
  have htakes : u.kind.size (m.machine.pops c (m.machine.wires a q) q) < u.kind.size q ↔
      m.takes c (m.wires a q) = true := by
    have hlen := length_tail_if (hm.takes_ne c a q)
    have hle := Bool.toNat_le (m.takes c (m.wires a q))
    rw [← Bool.toNat_eq_one]
    show (if m.takes c (m.wires a q) then q.tail else q).length < q.length ↔ _
    omega
  have hleft : p.phases.left (m.machine.next c (m.machine.wires a q)) < p.phases.left c ↔
      (p.busy c && !p.busy (m.next c (m.wires a q))) = true := by
    show (p.busy (m.next c (m.wires a q))).toNat < (p.busy c).toNat ↔ _
    cases p.busy c <;> cases p.busy (m.next c (m.wires a q)) <;> simp
  have hh : m.machine.hdrGiven c (m.machine.wires a q) ≠ [] ↔
      (!(m.hdrGiven c (m.wires a q)).isEmpty) = true := by
    simp [LineMachine.machine]
  have hd : m.machine.dataGiven c (m.machine.wires a q) ≠ [] ↔
      (!(m.dataGiven c (m.wires a q)).isEmpty) = true := by
    simp [LineMachine.machine]
  rw [Machine.Moves, htakes, hleft, hh, hd, LineMachine.moves, Bool.or_eq_true, Bool.or_eq_true,
    Bool.or_eq_true, or_assoc, or_assoc]

/-- Nothing is taken where the source stays as long as it was. -/
theorem takes_eq_false (hm : LineHandles m u p given ok)
    (hsize : u.kind.size q ≤ u.kind.size (m.machine.pops c (m.machine.wires a q) q)) :
    m.takes c (m.wires a q) = false := by
  have hlen := length_tail_if (hm.takes_ne c a q)
  have hle : q.length ≤ (if m.takes c (m.wires a q) then q.tail else q).length := hsize
  rw [← Bool.toNat_eq_zero]
  omega

theorem LineHandles.handles (hm : LineHandles m u p given ok) :
    Handles m.machine u.kind p.phases given ok where
  size_load x tail := by
    have hpos := List.length_pos_of_ne_nil (hm.lines_ne x)
    show tail.length < (u.lines x ++ tail).length
    rw [List.length_append]
    omega
  size_pops c a q := by
    have hlen := length_tail_if (hm.takes_ne c a q)
    show (if m.takes c (m.wires a q) then q.tail else q).length ≤ q.length
    omega
  left_most c := Bool.toNat_le _
  idle_gives := hm.idle_gives
  idle_empty c a hr := by
    have ht : m.takes c (m.wires a []) = false := by
      cases ht : m.takes c (m.wires a []) with
      | false => rfl
      | true => exact absurd rfl (hm.takes_ne c a [] ht)
    refine ⟨hm.idle_still c a [] hr ht, ?_⟩
    show (if m.takes c (m.wires a []) then ([] : List L).tail else []) = []
    split <;> rfl
  begins x tail c a hx hr := by
    show p.idle _ ∧ (if m.takes c (m.wires a (u.lines x ++ tail)) then (u.lines x ++ tail).tail
        else u.lines x ++ tail) = _ ∨ ∃ cur, (if m.takes c (m.wires a (u.lines x ++ tail)) then
          (u.lines x ++ tail).tail else u.lines x ++ tail) = cur ++ tail ∧ p.inside _ _ _ _
    cases ht : m.takes c (m.wires a (u.lines x ++ tail)) with
    | false => exact .inl ⟨hm.idle_still _ _ _ hr ht, rfl⟩
    | true =>
      exact .inr ⟨(u.lines x).tail, List.tail_append_of_ne_nil (hm.lines_ne x),
        hm.begins x tail c a hx hr ht⟩
  advances c q tail h d a hp := by
    obtain ⟨cur, rfl, hp⟩ := hp
    obtain ⟨cur', h', d', hcur, hh, hd, hnext⟩ := hm.advances c cur h d a tail hp
    refine ⟨h', d', hh, hd, ?_⟩
    rcases hnext with hp' | ⟨hr, rfl, hh', hd'⟩
    · exact .inl ⟨cur', hcur, hp'⟩
    · exact .inr ⟨hr, hcur, hh', hd'⟩
  left_idle x tail c a _ hr hsize := by
    have ht := takes_eq_false hm hsize
    have hb := hm.idle_busy _ (hm.idle_still c a _ hr ht)
    show (p.busy (m.next c (m.wires a (u.kind.load x tail)))).toNat ≤ _
    rw [hb]
    exact Nat.zero_le _
  left_inside c q tail h d a hp _ := by
    obtain ⟨cur, -, hp⟩ := hp
    show _ ≤ (p.busy c).toNat
    rw [hm.inside_busy c cur h d hp]
    exact Bool.toNat_le _
  idle_stirs x tail c a _ hr hg := by
    have hne : u.lines x ++ tail ≠ [] :=
      fun hnil => hm.lines_ne x (List.append_eq_nil_iff.mp hnil).1
    rw [moves_iff hm, LineMachine.moves]
    have ht : m.takes c (m.wires a (u.kind.load x tail)) = true := hm.idle_stirs c a _ hr hne hg
    rw [ht]
    rfl
  stirs c q tail h d a hp hg := by
    obtain ⟨cur, rfl, hp⟩ := hp
    exact (moves_iff hm).mpr (hm.stirs c cur h d a tail hp hg)
  idle_awaits x tail c a _ _ hmv := by
    rw [moves_iff hm, Bool.not_eq_true] at hmv
    exact hm.awaits_still c _ hmv
  awaits c q tail h d a _ hmv := by
    rw [moves_iff hm, Bool.not_eq_true] at hmv
    exact hm.awaits_still c _ hmv

theorem loadAll_lines (u : LineKind X L H D) (xs : List X) :
    u.kind.loadAll xs = xs.flatMap u.lines := by
  induction xs with
  | nil => rfl
  | cons x xs ih =>
    show u.lines x ++ u.kind.loadAll xs = _
    rw [ih, List.flatMap_cons]

end lines

/-! ### Units with a command and lines -/

section commands

variable {L : Type}

/-- A machine that takes the commands of units from one queue and their lines from another. -/
structure PairMachine (C X L W A H D : Type) where
  wires : A → List X × List L → W
  next : C → W → C
  takesHdr : C → W → Bool
  takesData : C → W → Bool
  hdrGiven : C → W → List H
  dataGiven : C → W → List D

def PairMachine.machine (m : PairMachine C X L W A H D) : Machine C (List X × List L) W A H D where
  wires := m.wires
  next := m.next
  pops c w q :=
    (if m.takesHdr c w then q.1.tail else q.1, if m.takesData c w then q.2.tail else q.2)
  hdrGiven := m.hdrGiven
  dataGiven := m.dataGiven

def LineKind.pairs (u : LineKind X L H D) : Kind X (List X × List L) H D where
  empty := ([], [])
  load x q := (x :: q.1, u.lines x ++ q.2)
  size q := q.1.length + q.2.length
  hdrs := u.hdrs
  data := u.data

/-- Inside a unit its command was taken and some of its lines are to come. -/
structure PairPhases (C L H D K : Type) where
  idle : C → Prop
  inside : C → List L → List H → List D → Prop
  left : C → Nat
  most : Nat
  awaits : C → K

def PairPhases.phases (p : PairPhases C L H D K) : Phases C (List X × List L) H D K where
  idle := p.idle
  inside c q tail h d := q.1 = tail.1 ∧ ∃ cur, q.2 = cur ++ tail.2 ∧ p.inside c cur h d
  left := p.left
  most := p.most
  awaits := p.awaits

/-- Something moves: a command, a line, a header or data, or the machine by itself. -/
def PairMachine.moves (m : PairMachine C X L W A H D) (p : PairPhases C L H D K) (c : C)
    (w : W) : Bool :=
  m.takesHdr c w || m.takesData c w || !(m.hdrGiven c w).isEmpty || !(m.dataGiven c w).isEmpty ||
    decide (p.left (m.next c w) < p.left c)

theorem PairMachine.moves_eq_false {m : PairMachine C X L W A H D} {p : PairPhases C L H D K}
    {c : C} {w : W} (h : m.moves p c w = false) : m.takesHdr c w = false ∧ m.takesData c w = false ∧
      m.hdrGiven c w = [] ∧ m.dataGiven c w = [] ∧ p.left c ≤ p.left (m.next c w) := by
  simp only [moves, Bool.or_eq_false_iff, Bool.not_eq_false', List.isEmpty_iff,
    decide_eq_false_iff_not, Nat.not_lt] at h
  obtain ⟨⟨⟨⟨hth, htd⟩, hh⟩, hd⟩, hl⟩ := h
  exact ⟨hth, htd, hh, hd, hl⟩

/-- One cycle inside a unit. -/
def PairMachine.Advances (m : PairMachine C X L W A H D) (p : PairPhases C L H D K) (c : C) (w : W)
    (cur tail : List L) (h : List H) (d : List D) : Prop :=
  ∃ cur' h' d', (if m.takesData c w then (cur ++ tail).tail else cur ++ tail) = cur' ++ tail ∧
    m.hdrGiven c w ++ h' = h ∧ m.dataGiven c w ++ d' = d ∧
    (p.inside (m.next c w) cur' h' d' ∨ p.idle (m.next c w) ∧ cur' = [] ∧ h' = [] ∧ d' = [])

structure PairHandles (m : PairMachine C X L W A H D) (u : LineKind X L H D)
    (p : PairPhases C L H D K) (given : A → K → Prop) (ok : X → Prop) : Prop where
  left_most : ∀ c, p.left c ≤ p.most
  takesHdr_ne : ∀ c a q, m.takesHdr c (m.wires a q) = true → q.1 ≠ []
  takesData_ne : ∀ c a q, m.takesData c (m.wires a q) = true → q.2 ≠ []
  idle_gives : ∀ c w, p.idle c →
    m.takesData c w = false ∧ m.hdrGiven c w = [] ∧ m.dataGiven c w = []
  idle_still : ∀ c a q, p.idle c → m.takesHdr c (m.wires a q) = false →
    p.idle (m.next c (m.wires a q)) ∧ p.left (m.next c (m.wires a q)) ≤ p.left c
  idle_stirs : ∀ c a q, p.idle c → q.1 ≠ [] → given a (p.awaits c) →
    m.takesHdr c (m.wires a q) = true
  begins : ∀ x q tail c a, ok x → p.idle c →
    m.takesHdr c (m.wires a (x :: q, u.lines x ++ tail)) = true →
    p.inside (m.next c (m.wires a (x :: q, u.lines x ++ tail))) (u.lines x) (u.hdrs x) (u.data x)
  inside_hdr : ∀ c cur h d w, p.inside c cur h d → m.takesHdr c w = false
  advances : ∀ c cur h d a q tail, p.inside c cur h d →
    m.Advances p c (m.wires a (q, cur ++ tail)) cur tail h d
  left_inside : ∀ c cur h d w, p.inside c cur h d → p.left (m.next c w) ≤ p.left c
  stirs : ∀ c cur h d a q tail, p.inside c cur h d → given a (p.awaits c) →
    m.moves p c (m.wires a (q, cur ++ tail)) = true
  awaits_still : ∀ c w, m.moves p c w = false → p.awaits (m.next c w) = p.awaits c

variable {m : PairMachine C X L W A H D} {u : LineKind X L H D} {p : PairPhases C L H D K}
  {given : A → K → Prop} {ok : X → Prop} {c : C} {a : A} {q : List X × List L}

/-- What leaves the two queues. -/
theorem size_pairs (hm : PairHandles m u p given ok) :
    u.pairs.size (m.machine.pops c (m.machine.wires a q) q) +
      (m.takesHdr c (m.wires a q)).toNat + (m.takesData c (m.wires a q)).toNat =
        u.pairs.size q := by
  have hh := length_tail_if (hm.takesHdr_ne c a q)
  have hd := length_tail_if (hm.takesData_ne c a q)
  show (if m.takesHdr c (m.wires a q) then q.1.tail else q.1).length +
    (if m.takesData c (m.wires a q) then q.2.tail else q.2).length + _ + _ =
      q.1.length + q.2.length
  omega

theorem pair_moves_iff (hm : PairHandles m u p given ok) :
    m.machine.Moves u.pairs p.phases c a q ↔ m.moves p c (m.wires a q) = true := by
  have hsize := size_pairs (c := c) (a := a) (q := q) hm
  have htakes : u.pairs.size (m.machine.pops c (m.machine.wires a q) q) < u.pairs.size q ↔
      m.takesHdr c (m.wires a q) = true ∨ m.takesData c (m.wires a q) = true := by
    have hle := Bool.toNat_le (m.takesHdr c (m.wires a q))
    have hle' := Bool.toNat_le (m.takesData c (m.wires a q))
    rw [← Bool.toNat_eq_one, ← Bool.toNat_eq_one]
    omega
  have hh : m.machine.hdrGiven c (m.machine.wires a q) ≠ [] ↔
      (!(m.hdrGiven c (m.wires a q)).isEmpty) = true := by
    simp [PairMachine.machine]
  have hd : m.machine.dataGiven c (m.machine.wires a q) ≠ [] ↔
      (!(m.dataGiven c (m.wires a q)).isEmpty) = true := by
    simp [PairMachine.machine]
  show _ ∨ _ ∨ _ ∨ p.left (m.next c (m.wires a q)) < p.left c ↔ _
  rw [htakes, hh, hd, PairMachine.moves]
  simp only [Bool.or_eq_true, or_assoc, decide_eq_true_iff]

theorem PairHandles.handles (hm : PairHandles m u p given ok) :
    Handles m.machine u.pairs p.phases given ok where
  size_load x tail := by
    show tail.1.length + tail.2.length < (x :: tail.1).length + (u.lines x ++ tail.2).length
    rw [List.length_cons, List.length_append]
    omega
  size_pops c a q := by
    have hsize := size_pairs (c := c) (a := a) (q := q) hm
    omega
  left_most := hm.left_most
  idle_gives c w hr := (hm.idle_gives c w hr).2
  idle_empty c a hr := by
    have ht : m.takesHdr c (m.wires a ([], [])) = false := by
      cases ht : m.takesHdr c (m.wires a ([], [])) with
      | false => rfl
      | true => exact absurd rfl (hm.takesHdr_ne c a ([], []) ht)
    refine ⟨(hm.idle_still c a ([], []) hr ht).1, ?_⟩
    show ((if m.takesHdr c (m.wires a ([], [])) then [] else []),
      (if m.takesData c (m.wires a ([], [])) then [] else [])) = (([] : List X), ([] : List L))
    rw [ite_self, ite_self]
  begins x tail c a hx hr := by
    have hd := (hm.idle_gives c (m.wires a (u.pairs.load x tail)) hr).1
    cases ht : m.takesHdr c (m.wires a (u.pairs.load x tail)) with
    | false =>
      refine .inl ⟨(hm.idle_still c a _ hr ht).1, ?_⟩
      simp [PairMachine.machine, ht, hd]
    | true =>
      refine .inr ⟨?_, u.lines x, ?_, hm.begins x tail.1 tail.2 c a hx hr ht⟩
      · show (if m.takesHdr c (m.wires a (u.pairs.load x tail)) then tail.1 else x :: tail.1) = _
        rw [ht]
        rfl
      · show (if m.takesData c (m.wires a (u.pairs.load x tail)) then (u.lines x ++ tail.2).tail
          else u.lines x ++ tail.2) = _
        rw [hd]
        rfl
  advances c q tail h d a hp := by
    obtain ⟨hq, cur, hcur, hp⟩ := hp
    obtain ⟨q₁, q₂⟩ := q
    obtain rfl : q₂ = cur ++ tail.2 := hcur
    obtain rfl : q₁ = tail.1 := hq
    obtain ⟨cur', h', d', hcur', hh, hd, hnext⟩ := hm.advances c cur h d a tail.1 tail.2 hp
    have ht := hm.inside_hdr c cur h d (m.wires a (tail.1, cur ++ tail.2)) hp
    have hpops : m.machine.pops c (m.machine.wires a (tail.1, cur ++ tail.2))
        (tail.1, cur ++ tail.2) = (tail.1, cur' ++ tail.2) := by
      show (if m.takesHdr c (m.wires a (tail.1, cur ++ tail.2)) then tail.1.tail else tail.1, _) = _
      rw [ht, if_neg (by simp)]
      exact congrArg (Prod.mk tail.1) hcur'
    refine ⟨h', d', hh, hd, ?_⟩
    rcases hnext with hp' | ⟨hr, rfl, hh', hd'⟩
    · exact .inl ⟨by rw [hpops], cur', by rw [hpops], hp'⟩
    · exact .inr ⟨hr, by rw [hpops, List.nil_append], hh', hd'⟩
  left_idle x tail c a _ hr hle := by
    have hsize := size_pairs (c := c) (a := a) (q := u.pairs.load x tail) hm
    have ht : m.takesHdr c (m.wires a (u.pairs.load x tail)) = false := by
      rw [← Bool.toNat_eq_zero]
      omega
    exact (hm.idle_still c a _ hr ht).2
  left_inside c q tail h d a hp _ := by
    obtain ⟨-, cur, -, hp⟩ := hp
    exact hm.left_inside c cur h d _ hp
  idle_stirs x tail c a _ hr hg := by
    have ht : m.takesHdr c (m.wires a (u.pairs.load x tail)) = true :=
      hm.idle_stirs c a _ hr (List.cons_ne_nil _ _) hg
    rw [pair_moves_iff hm, PairMachine.moves, ht]
    rfl
  stirs c q tail h d a hp hg := by
    obtain ⟨-, cur, hcur, hp⟩ := hp
    obtain ⟨q₁, q₂⟩ := q
    obtain rfl : q₂ = cur ++ tail.2 := hcur
    exact (pair_moves_iff hm).mpr (hm.stirs c cur h d a q₁ tail.2 hp hg)
  idle_awaits x tail c a _ _ hmv := by
    rw [pair_moves_iff hm, Bool.not_eq_true] at hmv
    exact hm.awaits_still c _ hmv
  awaits c q tail h d a _ hmv := by
    rw [pair_moves_iff hm, Bool.not_eq_true] at hmv
    exact hm.awaits_still c _ hmv

theorem loadAll_pairs (u : LineKind X L H D) (xs : List X) :
    u.pairs.loadAll xs = (xs, xs.flatMap u.lines) := by
  induction xs with
  | nil => rfl
  | cons x xs ih =>
    show (x :: (u.pairs.loadAll xs).1, u.lines x ++ (u.pairs.loadAll xs).2) = _
    rw [ih, List.flatMap_cons]

end commands

end TcpHw.Machines
