import TcpHw.Lib.Trace
import TcpHw.Recv.RxFsmPipe

/-!
# The fate of a packet in `rx_fsm_pipe`

A packet of an established flow is put back into `fsm_reinject_q`. The control FSM does this
in `TCP_STATE_RD_RESP` if the queue has room and otherwise waits in `REINJECT_PKT`. Two runs
that differ only in when the queue is full are compared: they agree up to the fork, and from
there on they agree on what is enqueued exactly for packets with payload.
-/
namespace TcpHw.ReinjectFate

open Trace

set_option autoImplicit false

/-- The control FSM, the TCP states it reads and writes, and what it has enqueued, which no
hardware reads. -/
structure Fsm where
  regs : RxFsmPipe
  stored : FlowId → TcpFlowState
  enqueued : List ReinjectPkt

namespace Fsm

variable (s : Fsm) (i : FsmIn)

/-- Whenever the read port answers, it answers with the stored state. -/
def answered : FsmIn :=
  { i with tcpResp := i.tcpResp.map fun _ => s.stored s.regs.pkt.flowid }

/-- One clock edge. -/
def next : Fsm where
  regs := s.regs.step (s.answered i)
  stored :=
    match s.regs.stateWr with
    | some w => if i.wrRdy then Function.update s.stored w.1 w.2 else s.stored
    | none => s.stored
  enqueued := s.enqueued ++ (s.regs.reinject (s.answered i)).toList

/-- The decision about a packet of an established flow is due: the state arrives, and the flags
are ordinary. -/
def AtFork : Prop :=
  s.regs.ctrl = .tcpStateRdResp ∧ i.tcpResp.isSome = true ∧
    s.stored s.regs.pkt.flowid = .est ∧ onlyAckPsh s.regs.pkt.tcpHdr.flags = true

instance : Decidable (s.AtFork i) := inferInstanceAs (Decidable (_ ∧ _))

/-- The packet is back in the queue and the FSM ready for the next one. -/
def reinjected : Fsm where
  regs := { s.regs with tcpState := .est, ctrl := .ready }
  stored := s.stored
  enqueued := s.enqueued ++ [s.regs.reinjectEntry]

/-- The packet is dropped. -/
def dropped : Fsm := { s.reinjected with enqueued := s.enqueued }

/-- The packet waits for room. -/
def held : Fsm := { s.dropped with regs := { s.regs with tcpState := .est, ctrl := .reinjectPkt } }

/-- A waiting packet is enqueued. -/
def released : Fsm :=
  { s with
    regs := { s.regs with ctrl := .ready }
    enqueued := s.enqueued ++ [s.regs.reinjectEntry] }

end Fsm

/-- The run is back in `READY` for the first time. -/
structure Done (s : Fsm) (sched : Nat → FsmIn) (n : Nat) : Prop where
  pos : 0 < n
  ready : (exec Fsm.next s sched n).regs.ctrl = .ready
  first : ∀ k, 0 < k → k < n → (exec Fsm.next s sched k).regs.ctrl ≠ .ready

/-- The two schedules differ only in `fsm_reinject_q_full`. -/
def SameButFull (i j : Nat → FsmIn) : Prop :=
  ∀ n, { i n with reinjectFull := false } = { j n with reinjectFull := false }

/-- The queue gets room again and again. -/
def Drains (i : Nat → FsmIn) : Prop := ∀ n, ∃ k, n ≤ k ∧ (i k).reinjectFull = false

/-- The packet is enqueued at most once, and whenever it is through, it also gets through in
every run that differs in the queue alone, with the same entries and the same stored state. -/
def FateFixed (s : Fsm) (p : FsmPkt) : Prop :=
  ∀ i j, SameButFull i j → Drains i → Drains j → (i 0).hdr = some p → ∀ m, Done s i m →
    (exec Fsm.next s i m).enqueued.length ≤ 1 ∧
      ∃ n, Done s j n ∧
        (exec Fsm.next s j n).enqueued = (exec Fsm.next s i m).enqueued ∧
        (exec Fsm.next s j n).stored = (exec Fsm.next s i m).stored

/-! ### One cycle -/

namespace Fsm

variable {s : Fsm} {i j : FsmIn}

/-- At the fork the queue decides. -/
theorem next_of_fork (h : s.AtFork i) : s.next i =
    if i.reinjectFull then s.held
    else if s.regs.pkt.payloadVal then s.reinjected else s.dropped := by
  obtain ⟨hc, hr, hst, hfl⟩ := h
  obtain ⟨st, hst'⟩ := Option.isSome_iff_exists.mp hr
  have hans : (s.answered i).tcpResp = some .est := by simp [answered, hst', hst]
  have hfull : (s.answered i).reinjectFull = i.reinjectFull := rfl
  have hwr : s.regs.stateWr = none := by simp [RxFsmPipe.stateWr, hc]
  cases hq : i.reinjectFull <;> cases hp : s.regs.pkt.payloadVal <;>
    simp [next, RxFsmPipe.step, RxFsmPipe.reinject, hc, hans, hfull, hfl, hwr, hq, hp, held,
      reinjected, dropped]

theorem next_of_held (h : s.regs.ctrl = .reinjectPkt) : s.next i =
    if i.reinjectFull then s else s.released := by
  have hfull : (s.answered i).reinjectFull = i.reinjectFull := rfl
  have hwr : s.regs.stateWr = none := by simp [RxFsmPipe.stateWr, h]
  cases hq : i.reinjectFull <;>
    simp [next, RxFsmPipe.step, RxFsmPipe.reinject, h, hfull, hwr, hq, released]

/-- Without the fork the control FSM does not look at the queue. -/
theorem step_setFull {m : RxFsmPipe} {i : FsmIn} (b : Bool)
    (hf : ¬ (m.ctrl = .tcpStateRdResp ∧ i.tcpResp = some .est ∧
      onlyAckPsh m.pkt.tcpHdr.flags = true)) (hh : m.ctrl ≠ .reinjectPkt) :
    m.step { i with reinjectFull := b } = m.step i ∧ m.reinject i = none ∧
      (m.step i).ctrl ≠ .reinjectPkt := by
  cases hc : m.ctrl with
  | reinjectPkt => exact absurd hc hh
  | tcpStateRdResp =>
    cases ht : i.tcpResp with
    | none => simp [RxFsmPipe.step, RxFsmPipe.reinject, hc, ht]
    | some st =>
      by_cases hst : st = .est
      · subst hst
        have hfl : onlyAckPsh m.pkt.tcpHdr.flags = false := by
          rw [← Bool.not_eq_true]
          exact fun hfl => hf ⟨hc, ht, hfl⟩
        simp [RxFsmPipe.step, RxFsmPipe.reinject, hc, ht, hfl]
      · refine ⟨?_, ?_, ?_⟩
        · simp [RxFsmPipe.step, RxFsmPipe.rdReqNext, hc, ht, hst]
        · simp [RxFsmPipe.reinject, hc, ht, hst]
        · simp only [RxFsmPipe.step, RxFsmPipe.rdReqNext, hc, ht, hst, if_false]
          split <;> simp
  | ready | tcpStateRdReq | rxTxStateRdReq | rxTxStateRdResp | stateDec | initState | wrFlowState
  | sendPkt | notifApp =>
    have harc := RxFsmPipe.ctrl_mem_arcs (m := m) (i := i)
    rw [hc] at harc
    have hdec : m.decision { i with reinjectFull := b } = m.decision i := rfl
    refine ⟨by simp only [RxFsmPipe.step, RxFsmPipe.rdReqNext, hc, hdec],
      by simp [RxFsmPipe.reinject, hc], fun he => ?_⟩
    simp [he, RxFsmPipe.arcs] at harc

/-- Anywhere else the queue is not looked at and nothing is enqueued. -/
theorem next_congr (hij : { i with reinjectFull := false } = { j with reinjectFull := false })
    (hf : ¬ s.AtFork i) (hh : s.regs.ctrl ≠ .reinjectPkt) :
    s.next j = s.next i ∧ (s.next i).enqueued = s.enqueued ∧
      (s.next i).regs.ctrl ≠ .reinjectPkt := by
  have hj : j = { i with reinjectFull := j.reinjectFull } := by
    have hcong := congrArg (fun x => { x with reinjectFull := j.reinjectFull }) hij
    exact hcong.symm
  have hfork : ¬ (s.regs.ctrl = .tcpStateRdResp ∧ (s.answered i).tcpResp = some .est ∧
      onlyAckPsh s.regs.pkt.tcpHdr.flags = true) := by
    rintro ⟨hc, hr, hfl⟩
    obtain ⟨x, hx, hst⟩ := Option.map_eq_some_iff.mp hr
    exact hf ⟨hc, by simp [hx], hst, hfl⟩
  obtain ⟨hstep, hnone, hctrl⟩ := step_setFull j.reinjectFull hfork hh
  have hnone' : s.regs.reinject (s.answered j) = none := by
    rw [hj]
    exact (step_setFull false (i := { s.answered i with reinjectFull := j.reinjectFull }) hfork hh).2.1
  refine ⟨?_, by simp [next, hnone], hctrl⟩
  have hwr : j.wrRdy = i.wrRdy := by rw [hj]
  have hans : s.answered j = { s.answered i with reinjectFull := j.reinjectFull } := by
    rw [hj]
    rfl
  simp only [next, hnone, hnone', hwr]
  rw [hans, hstep]

/-- What is known of the packet while its state is being read. -/
structure Reads (stored : FlowId → TcpFlowState) (p : FsmPkt) (s : Fsm) : Prop where
  pkt : s.regs.pkt = p
  req : s.regs.ctrl = .tcpStateRdReq → s.stored = stored
  resp : s.regs.ctrl = .tcpStateRdResp → s.stored = stored ∧ p.newFlow = false

theorem stored_next (hw : s.regs.ctrl ≠ .wrFlowState) : (s.next i).stored = s.stored := by
  have hwr : s.regs.stateWr = none := by simp [RxFsmPipe.stateWr, hw]
  simp [next, hwr]

theorem reads_next {stored : FlowId → TcpFlowState} {p : FsmPkt} (h : Reads stored p s)
    (hr : s.regs.ctrl ≠ .ready) : Reads stored p (s.next i) := by
  have hpkt : (s.next i).regs.pkt = p := (RxFsmPipe.pkt_step hr).trans h.pkt
  have harc : (s.next i).regs.ctrl ∈ RxFsmPipe.arcs s.regs.ctrl := RxFsmPipe.ctrl_mem_arcs
  refine ⟨hpkt, fun he => ?_, fun he => ?_⟩
  · rw [he] at harc
    cases hc : s.regs.ctrl <;> simp [hc, RxFsmPipe.arcs] at harc
    exact absurd hc hr
  · rw [he] at harc
    cases hc : s.regs.ctrl <;> simp [hc, RxFsmPipe.arcs] at harc
    · -- from `TCP_STATE_RD_REQ`, which a new flow leaves for `STATE_DEC`
      rw [stored_next (by simp [hc]), h.req hc]
      refine ⟨rfl, ?_⟩
      by_contra hnew
      have hn : s.regs.pkt.newFlow = true := by
        rw [h.pkt]
        simpa using hnew
      simp [next, RxFsmPipe.step, hc, hn] at he
    · rw [stored_next (by simp [hc])]
      exact h.resp hc

theorem reads_taken {p : FsmPkt} (hs : s.regs.ctrl = .ready) (hp : i.hdr = some p) :
    Reads s.stored p (s.next i) := by
  have hh : (s.answered i).hdr = some p := hp
  have hregs : (s.next i).regs = { s.regs with ctrl := .tcpStateRdReq, pkt := p } := by
    simp [next, RxFsmPipe.step, hs, hh]
  refine ⟨by rw [hregs], fun _ => stored_next (by simp [hs]), fun he => ?_⟩
  rw [hregs] at he
  cases he

end Fsm

/-! ### Runs -/

variable {s : Fsm} {i j : Nat → FsmIn}

theorem Done.unique {m n : Nat} (hm : Done s i m) (hn : Done s i n) : m = n := by
  rcases Nat.lt_trichotomy m n with hlt | heq | hgt
  · exact absurd hm.ready (hn.first m hm.pos hlt)
  · exact heq
  · exact absurd hn.ready (hm.first n hn.pos hgt)

/-- From time `k` on the packet waits, until it is enqueued at a later time. -/
def Released (s : Fsm) (i : Nat → FsmIn) (k : Nat) (t : Fsm) : Prop :=
  ∃ n, k < n ∧ exec Fsm.next s i n = t.released ∧
    ∀ l, k ≤ l → l < n → (exec Fsm.next s i l).regs.ctrl = .reinjectPkt

theorem released_of_room {k : Nat} (hc : (exec Fsm.next s i k).regs.ctrl = .reinjectPkt)
    (hroom : (i k).reinjectFull = false) : Released s i k (exec Fsm.next s i k) := by
  refine ⟨k + 1, Nat.lt_succ_self k, ?_, fun l hl hlt => ?_⟩
  · show (exec Fsm.next s i k).next (i k) = _
    rw [Fsm.next_of_held hc, hroom]
    rfl
  · rw [Nat.le_antisymm (Nat.le_of_lt_succ hlt) hl]
    exact hc

/-- A held packet is enqueued as soon as there is room. -/
theorem released_of_drains {k d : Nat} (hc : (exec Fsm.next s i k).regs.ctrl = .reinjectPkt)
    (hd : (i (k + d)).reinjectFull = false) : Released s i k (exec Fsm.next s i k) := by
  induction d generalizing k with
  | zero => exact released_of_room hc hd
  | succ d ih =>
    by_cases hfull : (i k).reinjectFull = true
    · have hstay : exec Fsm.next s i (k + 1) = exec Fsm.next s i k := by
        show (exec Fsm.next s i k).next (i k) = _
        rw [Fsm.next_of_held hc, if_pos hfull]
      have hshift : k + (d + 1) = k + 1 + d := by omega
      obtain ⟨n, hn, heq, hall⟩ := ih (by rw [hstay]; exact hc) (by rw [← hshift]; exact hd)
      rw [hstay] at heq
      refine ⟨n, by omega, heq, fun l hl hlt => ?_⟩
      by_cases hlk : l = k
      · rw [hlk]
        exact hc
      · exact hall l (by omega) hlt
    · exact released_of_room hc (by simpa using hfull)

/-- At the fork a packet with payload ends up enqueued, at once or later. -/
theorem reinjected_of_fork {k : Nat} (hd : Drains i)
    (hf : (exec Fsm.next s i k).AtFork (i k))
    (hp : (exec Fsm.next s i k).regs.pkt.payloadVal = true) :
    ∃ n, k < n ∧ exec Fsm.next s i n = (exec Fsm.next s i k).reinjected ∧
      ∀ l, k < l → l < n → (exec Fsm.next s i l).regs.ctrl = .reinjectPkt := by
  have hnext : exec Fsm.next s i (k + 1) =
      if (i k).reinjectFull then (exec Fsm.next s i k).held
      else (exec Fsm.next s i k).reinjected := by
    show (exec Fsm.next s i k).next (i k) = _
    rw [Fsm.next_of_fork hf, hp]
    rfl
  by_cases hfull : (i k).reinjectFull = true
  · rw [if_pos hfull] at hnext
    obtain ⟨r, hr, hroom⟩ := hd (k + 1)
    obtain ⟨n, hn, heq, hall⟩ := released_of_drains (s := s) (k := k + 1) (d := r - (k + 1))
      (by rw [hnext]; rfl) (by rwa [Nat.add_sub_cancel' hr])
    refine ⟨n, by omega, ?_, fun l hl hlt => hall l hl hlt⟩
    rw [heq, hnext]
    rfl
  · rw [if_neg hfull] at hnext
    exact ⟨k + 1, Nat.lt_succ_self k, hnext, fun l hl hlt => by omega⟩

/-- Up to the fork the two runs are the same. -/
theorem exec_congr (hij : SameButFull i j) (hs : s.regs.ctrl = .ready) {k : Nat}
    (hf : ∀ l < k, ¬ (exec Fsm.next s i l).AtFork (i l)) :
    exec Fsm.next s j k = exec Fsm.next s i k ∧
      (exec Fsm.next s i k).enqueued = s.enqueued ∧
      (exec Fsm.next s i k).regs.ctrl ≠ .reinjectPkt := by
  induction k with
  | zero => exact ⟨rfl, rfl, by simp [exec, hs]⟩
  | succ k ih =>
    obtain ⟨heq, henq, hctrl⟩ := ih fun l hl => hf l (by omega)
    obtain ⟨hnext, hkeep, hctrl'⟩ := Fsm.next_congr (hij k) (hf k (Nat.lt_succ_self k)) hctrl
    refine ⟨?_, hkeep.trans henq, hctrl'⟩
    show (exec Fsm.next s j k).next (j k) = (exec Fsm.next s i k).next (i k)
    rw [heq, hnext]

/-- What is known of the packet until the FSM is back in `READY`. -/
theorem reads_exec {p : FsmPkt} (hs : s.regs.ctrl = .ready) (hp : (i 0).hdr = some p) {k : Nat}
    (hk : 0 < k) (hr : ∀ l, 0 < l → l < k → (exec Fsm.next s i l).regs.ctrl ≠ .ready) :
    Fsm.Reads s.stored p (exec Fsm.next s i k) := by
  induction k with
  | zero => exact absurd hk (Nat.lt_irrefl 0)
  | succ k ih =>
    show Fsm.Reads s.stored p ((exec Fsm.next s i k).next (i k))
    by_cases hk0 : k = 0
    · subst hk0
      exact Fsm.reads_taken hs hp
    · have hpos : 0 < k := Nat.pos_of_ne_zero hk0
      exact Fsm.reads_next (ih hpos fun l hl hlt => hr l hl (by omega))
        (hr k hpos (Nat.lt_succ_self k))

/-- An established flow's packet with ordinary flags and no payload. -/
def PureAck (s : Fsm) (p : FsmPkt) : Prop :=
  p.newFlow = false ∧ s.stored p.flowid = .est ∧ onlyAckPsh p.tcpHdr.flags = true ∧
    p.payloadVal = false

/-- From a first fork of a packet with payload both runs come to the same end. -/
theorem same_end_of_fork (hij : SameButFull i j) (hdi : Drains i) (hdj : Drains j)
    (hs : s.regs.ctrl = .ready) {m l : Nat} (hm : Done s i m) (hl : 0 < l) (hlm : l < m)
    (hf : (exec Fsm.next s i l).AtFork (i l))
    (hfirst : ∀ k < l, ¬ (exec Fsm.next s i k).AtFork (i k))
    (hp : (exec Fsm.next s i l).regs.pkt.payloadVal = true) :
    exec Fsm.next s i m = (exec Fsm.next s i l).reinjected ∧
      ∃ n, Done s j n ∧ exec Fsm.next s j n = (exec Fsm.next s i l).reinjected := by
  have hcongr : ∀ k ≤ l, exec Fsm.next s j k = exec Fsm.next s i k :=
    fun k hk => (exec_congr hij hs fun r hr => hfirst r (by omega)).1
  have hbusy : ∀ k, 0 < k → k ≤ l → (exec Fsm.next s i k).regs.ctrl ≠ .ready :=
    fun k hk hkl => hm.first k hk (by omega)
  have hfj : (exec Fsm.next s j l).AtFork (j l) := by
    have hresp : (j l).tcpResp = (i l).tcpResp := (congrArg FsmIn.tcpResp (hij l)).symm
    rw [hcongr l (Nat.le_refl l)]
    obtain ⟨hc, hr, hst, hfl⟩ := hf
    exact ⟨hc, hresp ▸ hr, hst, hfl⟩
  obtain ⟨ni, hni, hei, hwi⟩ := reinjected_of_fork hdi hf hp
  obtain ⟨nj, hnj, hej, hwj⟩ :=
    reinjected_of_fork hdj hfj (by rw [hcongr l (Nat.le_refl l)]; exact hp)
  have hdone : Done s i ni := by
    refine ⟨by omega, by rw [hei]; rfl, fun k hk hlt => ?_⟩
    by_cases hkl : k ≤ l
    · exact hbusy k hk hkl
    · simp [hwi k (by omega) hlt]
  refine ⟨(hm.unique hdone) ▸ hei, nj, ⟨by omega, by rw [hej]; rfl, fun k hk hlt => ?_⟩, ?_⟩
  · by_cases hkl : k ≤ l
    · rw [hcongr k hkl]
      exact hbusy k hk hkl
    · simp [hwj k (by omega) hlt]
  · rw [hej, hcongr l (Nat.le_refl l)]

theorem fateFixed_of_not_pureAck {p : FsmPkt} (hs : s.regs.ctrl = .ready) (he : s.enqueued = [])
    (h : ¬ PureAck s p) : FateFixed s p := by
  classical
  intro i j hij hdi hdj hp m hm
  by_cases hfork : ∃ l, l < m ∧ (exec Fsm.next s i l).AtFork (i l)
  · -- the first fork
    obtain ⟨hlm, hf⟩ := Nat.find_spec hfork
    generalize hl : Nat.find hfork = l at hlm hf
    have hfirst : ∀ k < l, ¬ (exec Fsm.next s i k).AtFork (i k) :=
      fun k hk hfk => Nat.find_min hfork (hl ▸ hk) ⟨by omega, hfk⟩
    have hpos : 0 < l := by
      rcases Nat.eq_zero_or_pos l with rfl | hpos
      · have hc : s.regs.ctrl = .tcpStateRdResp := hf.1
        simp [hs] at hc
      · exact hpos
    have hreads := reads_exec hs hp hpos fun k hk hkl => hm.first k hk (by omega)
    obtain ⟨hstored, hnew⟩ := hreads.resp hf.1
    have hpay : (exec Fsm.next s i l).regs.pkt.payloadVal = true := by
      have hst := hf.2.2.1
      have hfl := hf.2.2.2
      rw [hreads.pkt, hstored] at hst
      rw [hreads.pkt] at hfl ⊢
      by_contra hno
      exact h ⟨hnew, hst, hfl, by simpa using hno⟩
    obtain ⟨hei, n, hn, hej⟩ := same_end_of_fork hij hdi hdj hs hm hpos hlm hf hfirst hpay
    have henq := (exec_congr hij hs hfirst).2.1
    refine ⟨?_, n, hn, by rw [hei, hej], by rw [hei, hej]⟩
    rw [hei]
    show ((exec Fsm.next s i l).enqueued ++ _).length ≤ 1
    rw [henq, he]
    simp
  · have hnone : ∀ l < m, ¬ (exec Fsm.next s i l).AtFork (i l) :=
      fun l hl hf => hfork ⟨l, hl, hf⟩
    have hcongr : ∀ k ≤ m, exec Fsm.next s j k = exec Fsm.next s i k :=
      fun k hk => (exec_congr hij hs fun l hl => hnone l (by omega)).1
    have hend := hcongr m (Nat.le_refl m)
    refine ⟨?_, m, ⟨hm.pos, by rw [hend]; exact hm.ready, fun k hk hlt => ?_⟩, by rw [hend],
      by rw [hend]⟩
    · rw [(exec_congr hij hs hnone).2.1, he]
      simp
    · rw [hcongr k (by omega)]
      exact hm.first k hk hlt

/-! ### A packet without payload -/

/-- Everything is ready; the queue is full at the given time only. -/
def fullAt (p : FsmPkt) (t : Option Nat) (n : Nat) : FsmIn where
  hdr := some p
  tcpResp := some default
  stateRdRdy := true
  stateResp := none
  reinjectFull := t == some n
  newFlowRdy := true
  wrRdy := true
  sendRdy := true
  notifRdy := true
  initSeqNum := 0

theorem drains_fullAt (p : FsmPkt) (t : Option Nat) : Drains (fullAt p t) := by
  intro n
  by_cases ht : t = some n
  · refine ⟨n + 1, by omega, ?_⟩
    simp [fullAt, ht]
  · exact ⟨n, Nat.le_refl n, by simp [fullAt, ht]⟩

/-- The way to the fork. -/
theorem exec_two {p : FsmPkt} (hs : s.regs.ctrl = .ready) (hn : p.newFlow = false)
    (hp : (i 0).hdr = some p) :
    (exec Fsm.next s i 1).regs.ctrl = .tcpStateRdReq ∧
      exec Fsm.next s i 2 =
        { s with regs := { s.regs with ctrl := .tcpStateRdResp, pkt := p } } := by
  have hh : (s.answered (i 0)).hdr = some p := hp
  have h1 : exec Fsm.next s i 1 =
      { s with regs := { s.regs with ctrl := .tcpStateRdReq, pkt := p } } := by
    show s.next (i 0) = _
    simp [Fsm.next, RxFsmPipe.step, RxFsmPipe.stateWr, RxFsmPipe.reinject, hs, hh]
  refine ⟨by rw [h1], ?_⟩
  show (exec Fsm.next s i 1).next (i 1) = _
  rw [h1]
  simp [Fsm.next, RxFsmPipe.step, RxFsmPipe.stateWr, RxFsmPipe.reinject, hn]

theorem not_fateFixed_of_pureAck {p : FsmPkt} (hs : s.regs.ctrl = .ready) (he : s.enqueued = [])
    (h : PureAck s p) : ¬ FateFixed s p := by
  obtain ⟨hnew, hst, hfl, hpay⟩ := h
  intro hfate
  have hfork : ∀ t, (exec Fsm.next s (fullAt p t) 2).AtFork (fullAt p t 2) := by
    intro t
    rw [(exec_two hs hnew rfl).2]
    exact ⟨rfl, rfl, hst, hfl⟩
  have hfirst : ∀ t k, 0 < k → k < 3 →
      (exec Fsm.next s (fullAt p t) k).regs.ctrl ≠ .ready := by
    intro t k hk hlt
    obtain ⟨h1, h2⟩ := exec_two (i := fullAt p t) hs hnew rfl
    rcases (by omega : k = 1 ∨ k = 2) with rfl | rfl
    · simp [h1]
    · simp [h2]
  -- with room at once the packet is dropped
  have hdrop : exec Fsm.next s (fullAt p none) 3 = (exec Fsm.next s (fullAt p none) 2).dropped := by
    show (exec Fsm.next s (fullAt p none) 2).next _ = _
    rw [Fsm.next_of_fork (hfork none), (exec_two hs hnew rfl).2]
    simp [fullAt, hpay]
  -- with the queue full for a cycle it is enqueued
  have hheld : exec Fsm.next s (fullAt p (some 2)) 3 =
      (exec Fsm.next s (fullAt p (some 2)) 2).held := by
    show (exec Fsm.next s (fullAt p (some 2)) 2).next _ = _
    rw [Fsm.next_of_fork (hfork (some 2))]
    simp [fullAt]
  have hrel : exec Fsm.next s (fullAt p (some 2)) 4 =
      (exec Fsm.next s (fullAt p (some 2)) 3).released := by
    show (exec Fsm.next s (fullAt p (some 2)) 3).next _ = _
    rw [Fsm.next_of_held (by rw [hheld]; rfl)]
    simp [fullAt]
  have hdi : Done s (fullAt p none) 3 :=
    ⟨by decide, by rw [hdrop]; rfl, fun k hk hlt => hfirst none k hk hlt⟩
  have hdj : Done s (fullAt p (some 2)) 4 := by
    refine ⟨by decide, by rw [hrel]; rfl, fun k hk hlt => ?_⟩
    by_cases h3 : k = 3
    · rw [h3, hheld]
      simp [Fsm.held]
    · exact hfirst (some 2) k hk (by omega)
  obtain ⟨-, n, hn, henq, -⟩ := hfate (fullAt p none) (fullAt p (some 2)) (fun _ => rfl)
    (drains_fullAt p _) (drains_fullAt p _) rfl 3 hdi
  rw [← hdj.unique hn, hrel, hheld, hdrop, (exec_two hs hnew rfl).2, (exec_two hs hnew rfl).2] at henq
  simp [Fsm.released, Fsm.held, Fsm.dropped, Fsm.reinjected, he] at henq

/-- The queue does not decide the fate of a packet unless it is a packet without payload that is
due for re-injection. -/
theorem fateFixed_iff {p : FsmPkt} (hs : s.regs.ctrl = .ready) (he : s.enqueued = []) :
    FateFixed s p ↔ ¬ PureAck s p :=
  ⟨fun h hp => not_fateFixed_of_pureAck hs he hp h, fateFixed_of_not_pureAck hs he⟩

/-- All flows established, the FSM ready. -/
def established : Fsm where
  regs := .reset
  stored _ := .est
  enqueued := []

def ackPkt (payloadVal : Bool) : FsmPkt :=
  { (default : FsmPkt) with
    tcpHdr := { (default : TcpPktHdr) with flags := tcpAck }
    payloadVal := payloadVal }

theorem fateFixed_iff_payload : FateFixed established (ackPkt true) :=
  (fateFixed_iff (s := established) rfl rfl).mpr fun h => absurd h.2.2.2 (by decide)

/-- An acknowledgement without payload is dropped or enqueued as the queue happens to be. -/
theorem fate_depends_on_full : ¬ ∀ (s : Fsm) (p : FsmPkt),
    s.regs.ctrl = .ready → s.enqueued = [] → FateFixed s p := by
  intro h
  exact not_fateFixed_of_pureAck (s := established) (p := ackPkt false) rfl rfl
    ⟨rfl, rfl, by decide, rfl⟩ (h established (ackPkt false) rfl rfl)

end TcpHw.ReinjectFate
