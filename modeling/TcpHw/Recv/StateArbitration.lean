import TcpHw.Common.RoundRobin
import TcpHw.Recv.FsmEstArbiter

/-!
# `fsm_est_arbiter` with `bsg_arb_round_robin`

The grants come from the round-robin arbiter, which moves on when a granted request goes to the
memories. A requester that asks goes on asking until it is granted, so that the other one is granted
at most once before it, and each access ends when the memories respond.
-/
namespace TcpHw

open Trace

set_option autoImplicit false

/-- The requesters and the memories with the arbiter itself. -/
structure ArbitratedReads where
  sys : ArbSystem
  rr : BsgArbRoundRobin 1

/-- The place of a requester in `input_arb_vals`. -/
def Requester.index : Requester → Nat
  | .fsm => 0
  | .est => 1

namespace ArbitratedReads

open BsgArbRoundRobin

variable (s : ArbitratedReads) (e : ArbEnv)

/-- `input_arb_vals` -/
def inputArbVals : BitVec 2 :=
  BitVec.ofBool (s.sys.req e .est).val.both ++ BitVec.ofBool (s.sys.req e .fsm).val.both

/-- The surroundings with the grants of the arbiter. -/
def env : ArbEnv := { e with grants := s.rr.grants (s.inputArbVals e) }

/-- `arb_advance` -/
def advance : Bool := s.sys.arb.fires (s.sys.wires (s.env e))

/-- One clock edge. -/
def next : ArbitratedReads where
  sys := s.sys.cycle (s.env e)
  rr := s.rr.next (s.inputArbVals e) (s.advance e)

def step (s : ArbitratedReads) (e : ArbEnv) : Option ArbitratedReads := some (s.next e)

/-- After reset. -/
def Init (s : ArbitratedReads) : Prop := s.sys.Init ∧ s.rr = reset

/-- A requester asks, and goes on asking until it is granted. -/
def Waits (s : ArbSystem) : Requester → Prop
  | .fsm => s.fsm.ctrl = .rxTxStateRdReq
  | .est => s.est.r.isSome = true

variable {s e} {who : Requester} {p : Nat}

theorem req_env (who : Requester) : s.sys.req (s.env e) who = s.sys.req e who := by
  cases who <;> rfl

theorem getLsbD_inputArbVals (who : Requester) :
    (s.inputArbVals e).getLsbD who.index = (s.sys.req e who).val.both := by
  rw [inputArbVals]
  cases who with
  | fsm =>
    generalize (s.sys.req e .fsm).val.both = x
    generalize (s.sys.req e .est).val.both = y
    cases x <;> cases y <;> rfl
  | est =>
    generalize (s.sys.req e .fsm).val.both = x
    generalize (s.sys.req e .est).val.both = y
    cases x <;> cases y <;> rfl

theorem index_lt {g : Nat} (hg : g < 2) : ∃ who : Requester, who.index = g := by
  obtain rfl | rfl : g = 0 ∨ g = 1 := by omega
  · exact ⟨.fsm, rfl⟩
  · exact ⟨.est, rfl⟩

/-- A single grant is the code of its requester. -/
theorem code_of_grants {x : BitVec 2} (h : ∀ k, x.getLsbD k = decide (k = who.index)) :
    x = who.code := by
  refine BitVec.eq_of_getLsbD_eq fun i hi => ?_
  rw [h]
  obtain rfl | rfl : i = 0 ∨ i = 1 := by omega
  · cases who <;> rfl
  · cases who <;> rfl

/-- The requester that is served. -/
theorem served_requester (hp : s.rr.From p) {r : Nat} (hr : (s.inputArbVals e).getLsbD r = true) :
    ∃ w : Requester, Serves s.rr (s.inputArbVals e) p w.index ∧
      (s.env e).grants = w.code ∧ (s.sys.req e w).val.both = true := by
  obtain ⟨g, hg⟩ := hp.serves hr
  obtain ⟨w, rfl⟩ := index_lt (BitVec.lt_of_getLsbD hg.asked)
  have hask := hg.asked
  rw [getLsbD_inputArbVals] at hask
  exact ⟨w, hg, code_of_grants hg.grants, hask⟩

/-- The arbiter grants at most one requester, and one that asks. -/
theorem grantsOk (hp : s.rr.From p) : ArbSystem.GrantsOk s.sys (s.env e) := by
  by_cases hz : s.inputArbVals e = 0
  · left
    show s.rr.grants _ = 0
    rw [hz]
    exact (grants_zero hp).1
  · right
    obtain ⟨r, hr⟩ := exists_bit hz
    obtain ⟨w, -, hcode, hask⟩ := served_requester hp hr
    exact ⟨w, hcode, by rw [req_env]; exact hask⟩

theorem rr_next (hp : s.rr.From p) : ∃ p', (s.next e).rr.From p' :=
  hp.next ⟨s.inputArbVals e, s.advance e⟩

/-- What holds in every run. -/
def Inv (s : ArbitratedReads) : Prop := s.sys.Inv ∧ ∃ p, s.rr.From p

theorem Inv.next (h : s.Inv) : (s.next e).Inv := by
  obtain ⟨hi, p, hp⟩ := h
  exact ⟨hi.cycle (grantsOk hp), rr_next hp⟩

theorem inv_of_reach (h : Reach Init step Free s) : s.Inv := by
  refine h.invariant (I := Inv) ?_ ?_
  · rintro s ⟨hs, hr⟩
    exact ⟨hs.inv, 0, by rw [hr]; exact from_reset⟩
  · intro s e s' hi _ hs
    cases hs
    exact hi.next

/-! ### Nobody starves -/

/-- The memories take a request, they respond, or stage W of `est_pipe` is not stalled. -/
inductive ReadEvent where
  | mem | resp (v : ArbEvent)

def Given (e : ArbEnv) : ReadEvent → Prop
  | .mem => e.reqRdy.both = true
  | .resp v => e.Given v

/-- What the system waits for. -/
def awaits (s : ArbitratedReads) : ReadEvent :=
  if s.sys.arb.state = .ready then .mem else .resp s.sys.awaits

/-- The steps until a requester that waits is granted. -/
def work (who : Requester) (s : ArbitratedReads) : Nat :=
  10 * rank 1 s.rr.thermocode.toNat who.index + if s.sys.arb.state = .wait then s.sys.work + 1 else 0

theorem From.toNat_eq (hp : s.rr.From p) : s.rr.thermocode.toNat = p := by
  obtain ⟨hle, hbit⟩ := hp
  have h0 := hbit 0
  obtain rfl | rfl : p = 0 ∨ p = 1 := by omega
  · have hz : s.rr.thermocode = 0#1 := by
      refine BitVec.eq_of_getLsbD_eq fun i hi => ?_
      obtain rfl : i = 0 := by omega
      rw [h0]
      rfl
    rw [hz]
    rfl
  · have hz : s.rr.thermocode = 1#1 := by
      refine BitVec.eq_of_getLsbD_eq fun i hi => ?_
      obtain rfl : i = 0 := by omega
      rw [h0]
      rfl
    rw [hz]
    rfl

theorem Waits.val (h : Waits s.sys who) : (s.sys.req e who).val.both = true := by
  cases who with
  | fsm =>
    have hc : s.sys.fsm.ctrl = .rxTxStateRdReq := h
    simp [ArbSystem.req, RxFsmPipe.stateReq, hc, StatePair.both, StatePair.of]
  | est =>
    have hr : s.sys.est.r.isSome = true := h
    simp [ArbSystem.req, EstReads.stateReq, hr, StatePair.both, StatePair.of]

/-- Without a grant a requester goes on waiting. -/
theorem Waits.next (h : Waits s.sys who) (hg : s.sys.grant (s.env e) who = .of false) :
    Waits (s.next e).sys who := by
  cases who with
  | fsm =>
    have hc : s.sys.fsm.ctrl = .rxTxStateRdReq := h
    show (s.sys.fsm.step (s.sys.fsmIn (s.env e))).ctrl = _
    simp [RxFsmPipe.step, hc, RxFsmPipe.rdReqNext, ArbSystem.fsmIn, hg, StatePair.both, StatePair.of]
  | est =>
    have hr : s.sys.est.r.isSome = true := h
    have hstall : s.sys.stallR (s.env e) = true := by
      simp [ArbSystem.stallR, EstReads.stallR, hr, hg, StatePair.of]
    show (if s.sys.stallR (s.env e) then s.sys.est.r else e.hdr).isSome = true
    rw [hstall, if_pos rfl, hr]

/-- The granted requests of a requester are counted. -/
def grantCount (who : Requester) (s : ArbitratedReads) : Nat := (s.sys.log who).recvGranted.length

theorem grantCount_next : grantCount who (s.next e) =
    grantCount who s + if (s.sys.grant (s.env e) who).recv then 1 else 0 := by
  show ((s.sys.log who).recvGranted ++ _).length = _
  rw [List.length_append, grantCount]
  cases (s.sys.grant (s.env e) who).recv <;> rfl

/-- The requester waits and was not granted since there were `n` grants. -/
def Starving (who : Requester) (n : Nat) (s : ArbitratedReads) : Prop :=
  s.Inv ∧ (n < grantCount who s ∨ Waits s.sys who ∧ grantCount who s = n)

theorem starving_next {n : Nat} (h : Starving who n s) : Starving who n (s.next e) := by
  obtain ⟨hi, hor⟩ := h
  refine ⟨hi.next, ?_⟩
  rw [grantCount_next]
  rcases hor with hlt | ⟨hw, heq⟩
  · left
    omega
  · cases hg : (s.sys.grant (s.env e) who).recv with
    | true =>
      left
      rw [if_pos rfl]
      omega
    | false =>
      right
      have hof : s.sys.grant (s.env e) who = .of false := by
        have hdef : s.sys.grant (s.env e) who = .of (s.sys.grant (s.env e) who).recv := rfl
        rw [hdef, hg]
      rw [if_neg (by decide)]
      exact ⟨hw.next hof, heq⟩

theorem sysWork_le (t : ArbSystem) : t.work ≤ 5 := by
  have hr := Bool.toNat_le (!t.recv.val)
  have ht := Bool.toNat_le (!t.tx.val)
  unfold ArbSystem.work
  split_ifs <;> omega

/-- No access is going on: the memories take the request of one of the requesters. -/
theorem work_ready (hi : s.Inv) (hs : s.sys.arb.state = .ready) (hw : Waits s.sys who)
    (hg : (s.sys.grant (s.env e) who).recv = false) :
    (s.next e).work who < s.work who ∨
      (s.next e).work who ≤ s.work who ∧ (s.next e).awaits = s.awaits ∧ ¬ Given e s.awaits := by
  obtain ⟨-, p, hp⟩ := hi
  have hask : (s.inputArbVals e).getLsbD who.index = true := by
    rw [getLsbD_inputArbVals]
    exact hw.val
  obtain ⟨w, hserves, hcode, -⟩ := served_requester hp hask
  have hne : (s.sys.wires (s.env e)).grants ≠ 0 := by
    show (s.env e).grants ≠ 0
    rw [hcode]
    cases w <;> decide
  have hawait : s.awaits = .mem := by simp [awaits, hs]
  rw [hawait]
  cases hrdy : e.reqRdy.both with
  | false =>
    right
    have hf : s.advance e = false := by
      have hr : (s.sys.wires (s.env e)).reqRdy.both = false := hrdy
      simp [advance, StateArbiter.fires, hr]
    have hrr : (s.next e).rr = s.rr := by
      show s.rr.next _ (s.advance e) = _
      rw [hf]
      rfl
    have harb : (s.next e).sys.arb.state = .ready := by
      have hf' : s.sys.arb.fires (s.sys.wires (s.env e)) = false := hf
      show (s.sys.arb.next _).state = _
      simp [StateArbiter.next, hs, hf']
    refine ⟨?_, by simp [awaits, harb], by simp [Given, hrdy]⟩
    rw [work, work, hrr, harb, hs]
    exact Nat.le_refl _
  | true =>
    left
    have hf : s.sys.arb.fires (s.sys.wires (s.env e)) = true := by
      have hr : (s.sys.wires (s.env e)).reqRdy.both = true := hrdy
      have hne' : ((s.sys.wires (s.env e)).grants != 0) = true := bne_iff_ne.mpr hne
      rw [StateArbiter.fires, hs, hr, hne']
      rfl
    have hww : who ≠ w := by
      rintro rfl
      rw [ArbSystem.grant_eq hf hcode] at hg
      simp [StatePair.of] at hg
    have hrr : (s.next e).rr = ⟨s.rr.thermocodeNext (s.inputArbVals e)⟩ := by
      show s.rr.next _ (s.advance e) = _
      have hadv : s.advance e = true := hf
      rw [hadv]
      rfl
    have hfrom : (s.next e).rr.From w.index := by
      rw [hrr]
      exact hserves.next
    have hrank := hserves.first who.index hask
    have hidx : who.index ≠ w.index := by
      intro hc
      apply hww
      cases who <;> cases w <;> first | rfl | cases hc
    have hp1 := hp.1
    have hw1 : who.index ≤ 1 := by cases who <;> decide
    have hw2 : w.index ≤ 1 := by cases w <;> decide
    have hle := sysWork_le (s.next e).sys
    unfold work
    rw [From.toNat_eq hp, From.toNat_eq hfrom]
    unfold rank at hrank ⊢
    split_ifs at hrank ⊢ <;> omega

/-- An access is going on. -/
theorem work_wait (hi : s.Inv) (hs : s.sys.arb.state = .wait) :
    (s.next e).work who < s.work who ∨
      (s.next e).work who ≤ s.work who ∧ (s.next e).awaits = s.awaits ∧ ¬ Given e s.awaits := by
  obtain ⟨hi, p, hp⟩ := hi
  have hf : s.advance e = false := by simp [advance, StateArbiter.fires, hs]
  have hrr : (s.next e).rr = s.rr := by
    show s.rr.next _ (s.advance e) = _
    rw [hf]
    rfl
  cases hi.phase with
  | ready hs' => simp [hs] at hs'
  | wait w f hs' hd hrecv htx hfsm hest =>
    cases ht : s.sys.takes (s.env e) w with
    | true =>
      left
      have hstate : (s.next e).sys.arb.state = .ready := by
        show (s.sys.cycle (s.env e)).arb.state = _
        rw [ArbSystem.arb_wait hs hd hfsm hest, ht]
        rfl
      simp [work, hrr, hstate, hs]
    | false =>
      obtain ⟨-, harb, -⟩ := ArbSystem.keeps_waiting hi hs hd hrecv htx hfsm hest ht
      have hstate : (s.next e).sys.arb.state = .wait := by
        show (s.sys.cycle (s.env e)).arb.state = _
        rw [harb, hs]
      have hwork := ArbSystem.work_waiting hs hd hrecv htx hfsm hest ht
      rw [work, work, hrr, hstate, hs, if_pos rfl, if_pos rfl]
      have hawait : s.awaits = .resp s.sys.awaits := by simp [awaits, hs]
      have hawait' : (s.next e).awaits = .resp (s.next e).sys.awaits := by simp [awaits, hstate]
      rw [hawait, hawait']
      rcases hwork with hlt | ⟨hle, hsame, hnot⟩
      · left
        have hlt' : (s.next e).sys.work < s.sys.work := hlt
        omega
      · right
        have hle' : (s.next e).sys.work ≤ s.sys.work := hle
        refine ⟨by omega, congrArg ReadEvent.resp hsame, ?_⟩
        intro hgiv
        apply hnot
        cases hk : s.sys.awaits with
        | recv =>
          rw [hk] at hgiv
          exact hgiv
        | tx =>
          rw [hk] at hgiv
          exact hgiv
        | est =>
          rw [hk] at hgiv
          exact hgiv

/-- In every run the arbiter keeps what `fsm_est_arbiter` relies on, and a requester that waits is
granted if the memories take requests and respond again and again and stage W of `est_pipe` is not
stalled for ever. -/
theorem state_read_not_starved (h : Reach Init step Free s) :
    (∀ e, ArbSystem.GrantsOk s.sys (s.env e)) ∧ (Waits s.sys who → ∀ sched, Fair Given sched →
      ∃ n, grantCount who s < grantCount who (exec ArbitratedReads.next s sched n)) := by
  have hinv := inv_of_reach h
  refine ⟨fun e => ?_, fun hw sched hfair => ?_⟩
  · obtain ⟨-, p, hp⟩ := hinv
    exact grantsOk hp
  · have hfree : ∀ n, Free (exec ArbitratedReads.next s sched n) (sched n) := fun _ => trivial
    refine exec_reaches_until (I := Starving who (grantCount who s))
      (G := fun t => grantCount who s < grantCount who t)
      (fun t => if grantCount who s < grantCount who t then 0 else t.work who + 1)
      (fun t k => t.awaits = k) (fun t e hI _ _ => starving_next hI)
      (fun t _ _ => ⟨t.awaits, rfl⟩) ?_ ⟨hinv, .inr ⟨hw, rfl⟩⟩ hfree hfair
    rintro t e k ⟨hI, hor⟩ - hG rfl
    rcases hor with hlt | ⟨hwt, heq⟩
    · exact absurd hlt hG
    rw [if_neg hG, grantCount_next]
    cases hg : (t.sys.grant (t.env e) who).recv with
    | true =>
      left
      rw [if_pos rfl, if_pos (by omega)]
      omega
    | false =>
      simp only [Bool.false_eq_true, if_false, Nat.add_zero]
      rw [if_neg hG]
      have hwork : (t.next e).work who < t.work who ∨ (t.next e).work who ≤ t.work who ∧
          (t.next e).awaits = t.awaits ∧ ¬ Given e t.awaits := by
        cases hs : t.sys.arb.state with
        | ready => exact work_ready hI hs hwt hg
        | wait => exact work_wait hI hs
      rcases hwork with hlt | ⟨hle, hsame, hnot⟩
      · left
        omega
      · exact .inr ⟨by omega, hsame, hnot⟩

/-- `est_pipe` is granted a request that waits, once the memories take it. -/
theorem state_read_not_starved_est : ∃ s, Reach Init step Free s ∧ Waits s.sys .est ∧
    ∃ n, grantCount .est s <
      grantCount .est (exec ArbitratedReads.next s (fun _ => .quiet 0 true true false) n) := by
  have hrun : ∃ s, Reach Init step Free s ∧ (s.sys.est.r.isSome) = true :=
    Reach.exists_of_run [{ ArbEnv.quiet 0 false false false with
      hdr := some { (default : EstPkt) with flowid := 3 } }]
      (s := ⟨ArbSystem.reset, reset⟩) ⟨ArbSystem.init_reset, rfl⟩ (by decide +kernel)
  obtain ⟨s, hs, hr⟩ := hrun
  have hw : Waits s.sys .est := hr
  refine ⟨s, hs, hw, (state_read_not_starved hs).2 hw _ fun k n => ⟨n, Nat.le_refl n, ?_⟩⟩
  cases k with
  | mem => rfl
  | resp v => cases v <;> rfl

end ArbitratedReads

end TcpHw
