import TcpHw.Recv.RxFront
import TcpHw.Recv.TcpStateOrder

/-!
# Flow IDs and the connections they stand for

Stage T assigns a flow ID before the flags of the packet have been looked at. When the FSM
finds that the packet opens no connection it asks for the entry to be cleared, but in
`rx_pipe_wrap` nothing listens: the clear port of `rx_issue_pipe` and the return port of
`flowid_manager` are tied to 0. Flow IDs are used for connections only as long as nothing
has to be given back.
-/
namespace TcpHw

open Trace

set_option autoImplicit false

/-- Handed out and not got back. -/
def FlowidManager.HandedOut (m : FlowidManager) (f : FlowId) : Prop :=
  (m.useFifo = true ∨ f < m.flowid) ∧ f ∉ m.reclaimed

namespace RxFront

/-- A clock edge with nothing assumed about the neighbours. -/
def tick (s : RxFront) (i : RxFrontIn) : Option RxFront := some (s.step i)

/-- No packet in the issue pipe, in the FSM queue or in the FSM. -/
def Drained (s : RxFront) : Prop :=
  s.issue.f = none ∧ s.issue.t = none ∧ s.issue.i = none ∧ s.fsmQ = [] ∧ s.sys.fsm.ctrl = .ready

/-- Once the pipe is drained every flow ID in use belongs to a four-tuple with a stored state. -/
def UsedForOpen (s : RxFront) : Prop :=
  Drained s → ∀ f, s.ids.HandedOut f → ∃ tag, s.issue.cam f = some tag ∧ s.sys.tcpMem f ≠ .none

/-- A packet in stage T that is no SYN and has no flow ID takes none. -/
def StrayIgnored (s : RxFront) (i : RxFrontIn) : Prop :=
  ∀ t ∈ s.issue.t, t.flowid = none → t.pkt.tcpHdr.flags ≠ tcpSyn →
    (s.step i).ids = s.ids ∧ (s.step i).issue.cam = s.issue.cam

/-- The condition of a run: as long as there are flow IDs, only a SYN comes from an unknown
four-tuple, and the FSM finds a flow established only for a packet it sends on to
`est_pipe`. -/
def OpensWithSyn (s : RxFront) (i : RxFrontIn) : Prop :=
  (s.ids.avail = true → ∀ t ∈ s.issue.t, t.flowid = none → t.pkt.tcpHdr.flags = tcpSyn) ∧
    FsmSystem.PlainWhenEst s.sys (s.sysIn i)

instance (s : RxFront) (i : RxFrontIn) : Decidable (OpensWithSyn s i) :=
  inferInstanceAs (Decidable (_ ∧ _))

/-! ### The invariant -/

/-- The first packet of flow `f` is in the FSM and its state has not been written. -/
def Opening (m : RxFsmPipe) (f : FlowId) : Prop :=
  m.pkt.flowid = f ∧ m.pkt.newFlow = true ∧
    m.ctrl ∈ [.tcpStateRdReq, .stateDec, .initState, .wrFlowState]

structure UseInv (s : RxFront) : Prop where
  cam : ∀ f, (s.sys.log f).known = true → (s.issue.cam f).isSome = true
  first : ∀ p ∈ s.pending, p.newFlow = true → p.tcpHdr.flags = tcpSyn
  hand : s.sys.fsm.ctrl ≠ .ready → s.sys.fsm.pkt.newFlow = true →
    s.sys.fsm.pkt.tcpHdr.flags = tcpSyn
  stored : ∀ f, (s.sys.log f).known = true → (s.sys.log f).seen = true →
    s.sys.tcpMem f ≠ .none ∨ Opening s.sys.fsm f

/-- All that holds along a run. -/
structure Sound (s : RxFront) : Prop where
  front : Inv s
  fsm : FsmSystem.Inv s.sys
  order : FsmSystem.OrderInv s.sys
  use : UseInv s

variable {s : RxFront} {i : RxFrontIn}

theorem UseInv.cam_step (h : UseInv s) (f : FlowId)
    (hk : ((s.step i).sys.log f).known = true) : ((s.step i).issue.cam f).isSome = true := by
  by_cases ha : s.alloc i = some f
  · obtain ⟨⟨p, ht⟩, -⟩ := RxIssuePipe.alloc_cases ha
    rw [camNext_of_alloc ha, ht]
    rfl
  · rw [camNext_of_ne ha]
    rw [known_step, decide_eq_false ha, Bool.or_false] at hk
    exact h.cam f hk

/-- A packet on its way to the FSM was there before the cycle or comes from stage T. -/
theorem mem_pending_step {p : FsmPkt} (hp : p ∈ (s.step i).pending) :
    p ∈ s.pending ∨ ∃ a, s.issue.stageINext (s.issueIn i) = some a ∧ p = a.fsmPkt := by
  rw [pending_step, List.mem_append, List.mem_append] at hp
  rcases hp with (hp | hp) | hp
  · have hq : p ∈ s.fsmQ := by
      unfold fsmQRest at hp
      split at hp
      · exact List.mem_of_mem_tail hp
      · exact hp
    exact .inl (List.mem_append_left _ hq)
  · refine .inl (List.mem_append_right _ ?_)
    unfold moved at hp
    rcases List.mem_append.mp hp with hp | hp
    · simp only [RxIssuePipe.fsmOut, RxIssuePipe.issued, Option.mem_toList, Option.map_eq_some_iff,
        Option.filter_eq_some_iff] at hp
      obtain ⟨a, ⟨ha, -⟩, rfl⟩ := hp
      split at ha
      · cases ha
      · rw [ha]
        exact List.mem_singleton.mpr rfl
    · split at hp
      · exact hp
      · cases hp
  · obtain ⟨a, ha, rfl⟩ := Option.map_eq_some_iff.mp (Option.mem_toList.mp hp)
    unfold entered at ha
    split at ha
    · cases ha
    · exact .inr ⟨a, ha, rfl⟩

theorem UseInv.first_step (h : UseInv s) (hok : OpensWithSyn s i) :
    ∀ p ∈ (s.step i).pending, p.newFlow = true → p.tcpHdr.flags = tcpSyn := by
  intro p hp hn
  rcases mem_pending_step hp with hp | ⟨a, ha, rfl⟩
  · exact h.first p hp hn
  · obtain ⟨-, t, ht, hpkt, hcase⟩ := RxIssuePipe.stageINext_cases ha
    rcases hcase with ⟨hid, halloc, -, -⟩ | ⟨-, -, hnew, -⟩
    · have hav : s.ids.avail = true := (RxIssuePipe.alloc_cases halloc).2.1
      show a.pkt.tcpHdr.flags = tcpSyn
      rw [hpkt]
      exact hok.1 hav t ht hid
    · have hno : a.fsmPkt.newFlow = false := hnew
      rw [hn] at hno
      cases hno

/-- The packet in hand is the one of the cycle before, or has just been taken. -/
theorem fsm_taken (hr : s.sys.fsm.ctrl = .ready) :
    (s.step i).sys.fsm =
      match s.fsmQ.head? with
      | some p => { s.sys.fsm with ctrl := .tcpStateRdReq, pkt := p }
      | none => s.sys.fsm := by
  show s.sys.fsm.step (s.sys.fsmIn (s.sysIn i)) = _
  simp only [RxFsmPipe.step, hr]
  rfl

theorem UseInv.hand_step (h : UseInv s) (hr' : (s.step i).sys.fsm.ctrl ≠ .ready)
    (hn : (s.step i).sys.fsm.pkt.newFlow = true) :
    (s.step i).sys.fsm.pkt.tcpHdr.flags = tcpSyn := by
  by_cases hr : s.sys.fsm.ctrl = .ready
  · rw [fsm_taken hr] at hr' hn ⊢
    cases hp : s.fsmQ.head? with
    | none =>
      rw [hp] at hr'
      exact absurd hr hr'
    | some p =>
      rw [hp] at hn
      obtain ⟨l, hl⟩ := List.head?_eq_some_iff.mp hp
      exact h.first p (by simp [pending, hl]) hn
  · have hpkt : (s.step i).sys.fsm.pkt = s.sys.fsm.pkt := FsmSystem.pkt_step hr
    rw [hpkt] at hn ⊢
    exact h.hand hr hn

/-- A SYN for a flow without a state moves it to `TCP_SYN_RECV`. -/
theorem next_of_syn {m : RxFsmPipe} (h : FsmSystem.Decided m) (hst : m.tcpState = .none)
    (hsyn : m.pkt.tcpHdr.flags = tcpSyn) : m.nextFlowState = .synRecv := by
  obtain ⟨isn, hd⟩ := h
  have hnext := congrArg StateDec.nextFlowState hd
  simpa [tcpStateMachine, hst, hsyn] using hnext.symm

/-- What is written for the flow in hand is a state of a connection. -/
theorem Sound.written (h : Sound s) (hw : s.sys.fsm.ctrl = .wrFlowState) :
    s.sys.fsm.nextFlowState ≠ .none := by
  have hr : s.sys.fsm.ctrl ≠ .ready := by simp [hw]
  obtain ⟨hk, hseen⟩ := h.fsm.current hr
  have hread : s.sys.fsm.tcpState = s.sys.tcpMem s.sys.fsm.pkt.flowid ∧
      FsmSystem.Decided s.sys.fsm := by
    have hctrl := h.fsm.ctrl
    simpa only [FsmSystem.CtrlOk, hw] using hctrl
  have hne : s.sys.fsm.tcpState ≠ .est := by
    have hctrl := h.order.ctrl
    simpa only [FsmSystem.OrderCtrl, hw] using hctrl
  cases hread.2.outcome with
  | opens _ _ _ next => simp [next]
  | completes _ next => simp [next]
  | answers _ next => simp [next]
  | beyond hnone hsyn =>
    have hline := h.order.line _ hk
    rw [← hread.1] at hline
    exact absurd (hline.states hne) (not_or.mpr ⟨hnone, hsyn⟩)
  | ignores curr =>
    -- the flow has no state yet, so this is its first packet
    have hopen := (h.use.stored _ hk hseen).resolve_left (by simp [← hread.1, curr])
    rw [next_of_syn hread.2 curr (h.use.hand hr hopen.2.1)]
    simp

/-- The first packet of a flow goes on to the write of its state. -/
theorem opening_step {f : FlowId} (h : Opening s.sys.fsm f)
    (hw : s.sys.fsm.ctrl ≠ .wrFlowState) : Opening (s.step i).sys.fsm f := by
  obtain ⟨hf, hn, hc⟩ := h
  have hr : s.sys.fsm.ctrl ≠ .ready := by
    intro hr
    simp [hr] at hc
  have hpkt : (s.step i).sys.fsm.pkt = s.sys.fsm.pkt := FsmSystem.pkt_step hr
  refine ⟨by rw [hpkt, hf], by rw [hpkt, hn], ?_⟩
  simp only [List.mem_cons, List.not_mem_nil, or_false, hw] at hc
  rcases hc with hc | hc | hc
  · have hnext : (s.step i).sys.fsm.ctrl = .stateDec := by
      show (s.sys.fsm.step _).ctrl = _
      simp [RxFsmPipe.step, hc, hn]
    simp [hnext]
  all_goals
    have harc := FsmSystem.ctrl_mem_arcs (s := s.sys) (i := s.sysIn i)
    simp only [hc, RxFsmPipe.arcs, List.mem_cons, List.not_mem_nil, or_false] at harc
    rcases harc with hnext | hnext <;> simp [step, hnext]

theorem Sound.stored_step (h : Sound s) (f : FlowId)
    (hk' : ((s.step i).sys.log f).known = true) (hs' : ((s.step i).sys.log f).seen = true) :
    (s.step i).sys.tcpMem f ≠ .none ∨ Opening (s.step i).sys.fsm f := by
  have hg := h.front.issueOk (i := i)
  have hseen := seen_step (i := i) h.front f
  by_cases ht : Takes s f
  · -- the packet that is taken now is the first one, or the flow has been opened before
    obtain ⟨hr, hhead⟩ := ht
    obtain ⟨p, hp, rfl⟩ := Option.map_eq_some_iff.mp hhead
    obtain ⟨hk, hmark⟩ := hg.2 hr p hp
    cases hn : p.newFlow with
    | true =>
      right
      rw [fsm_taken hr, hp]
      exact ⟨rfl, hn, by simp⟩
    | false =>
      left
      have hm := FsmSystem.tcpMem_step (i := s.sysIn i) hg hk
      rw [if_neg (by simp [hr])] at hm
      rw [hn] at hmark
      show (s.sys.step (s.sysIn i)).tcpMem _ ≠ _
      rw [hm]
      refine (h.use.stored _ hk hmark).resolve_right ?_
      rintro ⟨-, -, hc⟩
      simp [hr] at hc
  · have hs : (s.sys.log f).seen = true := by simpa [hs', ht] using hseen.symm
    have hk : (s.sys.log f).known = true := by
      by_contra hno
      have hm := h.front.marked f
      simp only [Marked, hno] at hm
      rw [hs] at hm
      cases hm.1
    have hm : (s.step i).sys.tcpMem f = _ := FsmSystem.tcpMem_step (i := s.sysIn i) hg hk
    by_cases hw : s.sys.fsm.ctrl = .wrFlowState ∧ s.sys.fsm.pkt.flowid = f
    · left
      rw [hm, if_pos hw]
      exact h.written hw.1
    · rw [if_neg hw] at hm
      rcases h.use.stored f hk hs with hne | hopen
      · exact .inl (hm ▸ hne)
      · exact .inr (opening_step hopen fun hc => hw ⟨hc, hopen.1⟩)

theorem sound_step (h : Sound s) (hok : OpensWithSyn s i) : Sound (s.step i) where
  front := inv_step h.front
  fsm := FsmSystem.inv_step h.fsm h.front.issueOk
  order := FsmSystem.orderInv_step h.fsm h.order h.front.issueOk hok.2
  use := ⟨h.use.cam_step, h.use.first_step hok, h.use.hand_step, h.stored_step⟩

theorem sound_init (h : s.Init) : Sound s := by
  have hi := h
  obtain ⟨hissue, hm, hq, hsys⟩ := h
  refine ⟨inv_init hi, FsmSystem.inv_init hsys, FsmSystem.orderInv_init hsys, ?_⟩
  obtain ⟨hf, -, -, hl⟩ := hsys
  constructor <;>
    simp [hissue, hq, hl, hf, RxIssuePipe.reset, FsmSystem.emptyLog, pending, RxFsmPipe.reset]

theorem sound_of_reach (h : Reach Init tick OpensWithSyn s) : Sound s := by
  refine h.invariant (fun _ => sound_init) ?_
  intro s i s' hi hok hs
  cases hs
  exact sound_step hi hok

/-- In such a run the FSM never asks for a flow ID to be given back. -/
theorem Sound.clearFlowid_eq_none (h : Sound s) :
    s.sys.fsm.clearFlowid (s.sys.fsmIn (s.sysIn i)) = none := by
  refine if_neg ?_
  rintro ⟨hc, hn, hnext⟩
  have hsyn := h.use.hand (by simp [hc]) hn
  have hne : s.sys.fsm.tcpState ≠ .est := by
    have hctrl := h.order.ctrl
    simpa only [FsmSystem.OrderCtrl, hc] using hctrl
  unfold RxFsmPipe.decision at hnext
  cases hst : s.sys.fsm.tcpState with
  | none => simp [hst, tcpStateMachine, hsyn] at hnext
  | synRecv =>
    simp only [hst, tcpStateMachine] at hnext
    split_ifs at hnext
    all_goals simp [StateDec.silent] at hnext
  | est => exact hne hst
  | halfClose | und => simp [hst, tcpStateMachine, StateDec.silent] at hnext

/-- With nothing on its way every assigned flow has had its first packet taken. -/
theorem Inv.seen_of_drained (h : Inv s) (hd : Drained s) {f : FlowId}
    (hk : (s.sys.log f).known = true) : (s.sys.log f).seen = true := by
  obtain ⟨-, -, hi, hq, -⟩ := hd
  obtain ⟨n, hm⟩ : ∃ n, marks s.pending f =
      (if (s.sys.log f).seen then [] else [true]) ++ List.replicate n false := by
    simpa only [Marked, hk, if_true] using h.marked f
  have hnil : marks s.pending f = [] := by simp [pending, hi, hq, marks]
  by_contra hno
  simp [hnil, hno] at hm

theorem strayIgnored_of_opensWithSyn (hok : OpensWithSyn s i) : StrayIgnored s i := by
  intro t ht hid hsyn
  have ha : s.alloc i = none := by
    cases ha : s.alloc i with
    | none => rfl
    | some f => exact absurd (hok.1 (RxIssuePipe.alloc_cases ha).2.1 t ht hid) hsyn
  constructor
  · show s.ids.step (s.alloc i).isSome none = s.ids
    simp [ha, FlowidManager.step]
  · funext f
    exact camNext_of_ne (by simp [ha])

/-- In every run in which flows are opened by a SYN the flow IDs in use are those of
connections, and no other packet takes one. -/
theorem used_of_opensWithSyn (h : Reach Init tick OpensWithSyn s) :
    UsedForOpen s ∧ ∀ i, OpensWithSyn s i → StrayIgnored s i := by
  have hs := sound_of_reach h
  refine ⟨?_, fun i => strayIgnored_of_opensWithSyn⟩
  intro hd f hf
  have hk := (hs.front.known f).mpr hf.1
  obtain ⟨tag, htag⟩ := Option.isSome_iff_exists.mp (hs.use.cam f hk)
  refine ⟨tag, htag, (hs.use.stored f hk (hs.front.seen_of_drained hd hk)).resolve_right ?_⟩
  rintro ⟨-, -, hc⟩
  simp [hd.2.2.2.2] at hc

instance (s : RxFront) : Decidable (Drained s) := inferInstanceAs (Decidable (_ ∧ _))

instance (m : FlowidManager) (f : FlowId) : Decidable (m.HandedOut f) :=
  inferInstanceAs (Decidable (_ ∧ _))

/-- One connection, and the pipe drained behind it. -/
theorem used_of_opensWithSyn_open : ∃ s, Reach Init tick OpensWithSyn s ∧ Drained s ∧
    s.ids.HandedOut 0 ∧ UsedForOpen s := by
  have hrun : ∃ s, Reach Init tick OpensWithSyn s ∧
      decide (Drained s ∧ s.ids.HandedOut 0) = true :=
    Reach.exists_of_run (deliver (recvOf tcpSyn 100 0)) reset_init (by decide +kernel)
  obtain ⟨s, hr, hp⟩ := hrun
  have hp := of_decide_eq_true hp
  exact ⟨s, hr, hp.1, hp.2, (used_of_opensWithSyn hr).1⟩

/-- An acknowledgement from an unknown four-tuple keeps a flow ID that belongs to no
connection. -/
theorem used_stray_ack : ¬ ∀ s, Reach Init tick Free s → UsedForOpen s ∧ ∀ i, StrayIgnored s i := by
  intro h
  have hrun : ∃ s, Reach Init tick Free s ∧
      decide (Drained s ∧ s.ids.HandedOut 0 ∧ s.sys.tcpMem 0 = .none) = true :=
    Reach.exists_of_run (deliver (recvOf tcpAck 99 0)) reset_init (by decide +kernel)
  obtain ⟨s, hr, hp⟩ := hrun
  have hp := of_decide_eq_true hp
  obtain ⟨tag, -, hne⟩ := (h s hr).1 hp.1 0 hp.2.1
  exact hne hp.2.2

end RxFront

end TcpHw
