import TcpHw.Recv.Handshake
import TcpHw.Recv.RxFront

/-!
# The initialisation of an open flow

The `new_flow` bit says that a packet is the first of its four-tuple, and the state
machine opens a flow when it finds `TCP_NONE` stored. As flow IDs are never given back, a
flow whose first packet was no SYN stays assigned in `TCP_NONE`, and a later SYN opens it
without an initialisation.
-/
namespace TcpHw

open Trace

set_option autoImplicit false

namespace FsmSystem

/-- A SYN that finds its flow in `TCP_NONE` is the first packet of the flow. -/
def NoLateSyn (s : FsmSystem) (_ : FsmSystemIn) : Prop :=
  s.fsm.ctrl = .stateDec → s.fsm.tcpState = .none → s.fsm.pkt.tcpHdr.flags = tcpSyn →
    s.fsm.pkt.newFlow = true

instance (s : FsmSystem) (i : FsmSystemIn) : Decidable (NoLateSyn s i) :=
  inferInstanceAs (Decidable (_ → _))

/-- A flow outside of `TCP_NONE` is in its first attempt and has been initialised. -/
structure OpenInv (s : FsmSystem) : Prop where
  first : s.fsm.ctrl = .initState ∨ s.fsm.ctrl = .wrFlowState → s.fsm.tcpState = .none →
    s.fsm.pkt.tcpHdr.flags = tcpSyn → s.fsm.pkt.newFlow = true
  line : ∀ f, (s.log f).known = true → s.tcpMem f = .none ∨ ((s.log f).inits ≠ [] ∧
    ((s.log f).history = [.none, .synRecv] ∨ (s.log f).history = [.none, .synRecv, .est]))

variable {s : FsmSystem} {i : FsmSystemIn}

theorem decided_synRecv_next {m : RxFsmPipe} (h : Decided m) (hs : m.tcpState = .synRecv) :
    m.nextFlowState = .synRecv ∨ m.nextFlowState = .est := by
  cases h.outcome with
  | completes _ next => exact .inr next
  | answers _ next => exact .inl next
  | opens _ curr | ignores curr => simp [curr] at hs
  | beyond _ hne => exact absurd hs hne

theorem decided_est_next {m : RxFsmPipe} (h : Decided m) (hs : m.tcpState = .est) :
    m.nextFlowState = .none := by
  cases h.outcome with
  | opens _ curr | ignores curr | completes curr | answers curr => simp [curr] at hs
  | beyond _ _ next => exact next hs

theorem openInv_first (h : OpenInv s) (hn : NoLateSyn s i)
    (hc' : (s.step i).fsm.ctrl = .initState ∨ (s.step i).fsm.ctrl = .wrFlowState)
    (hs : (s.step i).fsm.tcpState = .none) (hf : (s.step i).fsm.pkt.tcpHdr.flags = tcpSyn) :
    (s.step i).fsm.pkt.newFlow = true := by
  obtain ⟨hc, hkeep⟩ := decided_origin hc'
  have hr : s.fsm.ctrl ≠ .ready := by rcases hc with hc | hc <;> simp [hc]
  have hst : s.fsm.tcpState = .none := hkeep.symm.trans hs
  rw [pkt_step hr] at hf ⊢
  rcases hc with hc | hc
  · exact hn hc hst hf
  · exact h.first (.inl hc) hst hf

/-- Storing a state opens a flow from its first packet, moves it along or puts it back. -/
theorem openInv_write (hi : Inv s) (hh : HandshakeInv s) (h : OpenInv s) (hg : IssueOk s i)
    (hc : s.fsm.ctrl = .wrFlowState) :
    s.fsm.nextFlowState = .none ∨ (((s.step i).log s.fsm.pkt.flowid).inits ≠ [] ∧
      (((s.step i).log s.fsm.pkt.flowid).history = [.none, .synRecv] ∨
        ((s.step i).log s.fsm.pkt.flowid).history = [.none, .synRecv, .est])) := by
  have hk := (hi.current (by simp [hc])).1
  have hci := hi.ctrl
  simp only [CtrlOk, hc] at hci
  rw [inits_step (.inl (by simp [hc]))]
  rcases h.line _ hk with hm | ⟨hin, hl | hl⟩
  · by_cases hn : s.fsm.nextFlowState = .none
    · exact .inl hn
    · have hst := hci.1.trans hm
      obtain ⟨hnext, -, hsyn, -⟩ := decided_none hci.2 hst hn
      have hctrl := hh.ctrl
      simp only [HandshakeCtrl, hc] at hctrl
      obtain ⟨-, hhist, -, hwr⟩ := hctrl.2 (h.first (.inr hc) hst hsyn)
      refine .inr ⟨by simp [(hwr hn).1], .inl ?_⟩
      rcases history_step hi hg hk with ⟨-, he⟩ | ⟨-, -, -, he⟩
      · rw [he hc rfl, hm] at hn
        exact absurd rfl hn
      · rw [he, hhist, hnext]
        rfl
  · have hm := tcpMem_of_history hh hk (l := [.none]) hl
    refine .inr ⟨hin, ?_⟩
    rcases decided_synRecv_next hci.2 (hci.1.trans hm) with hnext | hnext <;>
      rcases history_step hi hg hk with ⟨hsame, he⟩ | ⟨-, -, hne, he⟩
    · exact .inl (hsame.trans hl)
    · rw [hnext, hm] at hne
      exact absurd rfl hne
    · exact .inl (hsame.trans hl)
    · rw [he, hl, hnext]
      exact .inr rfl
  · have hm := tcpMem_of_history hh hk (l := [.none, .synRecv]) hl
    exact .inl (decided_est_next hci.2 (hci.1.trans hm))

theorem openInv_step (hi : Inv s) (hh : HandshakeInv s) (h : OpenInv s) (hg : IssueOk s i)
    (hn : NoLateSyn s i) : OpenInv (s.step i) := by
  refine ⟨openInv_first h hn, ?_⟩
  intro f hk'
  by_cases ha : i.alloc = some f
  · exact .inl (tcpMem_alloc hg ha)
  · have hk : (s.log f).known = true := (known_step ha).symm.trans hk'
    by_cases hc : s.fsm.ctrl = .wrFlowState ∧ s.fsm.pkt.flowid = f
    · obtain ⟨hc, rfl⟩ := hc
      rw [tcpMem_step hg hk, if_pos ⟨hc, rfl⟩]
      exact openInv_write hi hh h hg hc
    · have hsame : ((s.step i).log f).history = (s.log f).history := by
        rcases history_step hi hg hk with ⟨he, -⟩ | ⟨hw, hp, -⟩
        · exact he
        · exact absurd ⟨hw, hp⟩ hc
      rw [tcpMem_step hg hk, if_neg hc, hsame]
      refine (h.line f hk).imp_right fun ⟨hin, hl⟩ => ⟨?_, hl⟩
      rw [inits_step (hh.not_init (.inl hin))]
      exact hin

theorem openInv_init (h : s.Init) : OpenInv s := by
  obtain ⟨hf, -, -, hl⟩ := h
  constructor
  · simp [hf, RxFsmPipe.reset]
  · simp [hl, emptyLog]

theorem openInv_of_reach (h : Reach Init cycle NoLateSyn s) : OpenInv s := by
  refine h.invariant_of (J := fun s => Inv s ∧ HandshakeInv s)
    (fun _ hr => ⟨inv_of_reach hr, handshakeInv_of_reach hr⟩) (fun _ => openInv_init) ?_
  intro s i s' hj ho hn hs
  obtain ⟨⟨hg, -⟩, rfl⟩ := cycle_eq_some hs
  exact openInv_step hj.1 hj.2 ho hg hn

/-- Without a late SYN every flow outside of `TCP_NONE` goes back to one opening. -/
theorem opened_of_noLateSyn (h : Reach Init cycle NoLateSyn s) {f : FlowId}
    (hk : (s.log f).known = true) (hne : s.tcpMem f ≠ .none) : ∃ o, Opened s f o := by
  have hh := handshakeInv_of_reach h
  obtain ⟨hin, hl | hl⟩ := ((openInv_of_reach h).line f hk).resolve_left hne
  · obtain ⟨o, ho⟩ := hh.synRecv f hin hl
    exact ⟨o, ho.toOpened⟩
  · exact hh.est f hin hl

end FsmSystem

/-- The four-tuple of a packet in the FSM queue. -/
def FsmPkt.tag (p : FsmPkt) : FourTuple where
  hostIp := p.dstIp
  destIp := p.srcIp
  hostPort := p.tcpHdr.dstPort
  destPort := p.tcpHdr.srcPort

namespace RxFront

/-- Packets and lookup entries carry the four-tuple their flow ID was assigned to. -/
structure TagInv (s : RxFront) : Prop where
  stageI : ∀ x ∈ s.issue.i, s.issue.cam x.flowid = some x.pkt.tag
  queue : ∀ p ∈ s.fsmQ, s.issue.cam p.flowid = some p.tag
  fsm : s.sys.fsm.ctrl ≠ .ready → s.issue.cam s.sys.fsm.pkt.flowid = some s.sys.fsm.pkt.tag
  inits : ∀ f, ∀ r ∈ (s.sys.log f).inits, s.issue.cam f = some r.lookup

variable {s : RxFront} {i : RxFrontIn}

theorem tagInv_stageI (h : Inv s) (ht : TagInv s) :
    ∀ x ∈ (s.step i).issue.i, (s.step i).issue.cam x.flowid = some x.pkt.tag := by
  intro x hx
  have hx' : (if s.issue.stallI (s.issueIn i) then s.issue.i
    else s.issue.stageINext (s.issueIn i)) = some x := hx
  split at hx'
  · exact h.cam_step (ht.stageI x hx')
  · obtain ⟨-, t, htt, hp, hc⟩ := RxIssuePipe.stageINext_cases hx'
    rw [hp]
    rcases hc with ⟨-, ha, -⟩ | ⟨hid, -⟩
    · rw [camNext_of_alloc ha, htt]
      rfl
    · exact h.cam_step (h.stageT t htt _ hid)

theorem tagInv_queue (h : Inv s) (ht : TagInv s) :
    ∀ p ∈ (s.step i).fsmQ, (s.step i).issue.cam p.flowid = some p.tag := by
  intro p hp
  refine h.cam_step ?_
  have hp' : p ∈ s.fsmQRest ++ (s.issue.fsmOut (s.issueIn i)).toList := hp
  rcases List.mem_append.mp hp' with hq | ho
  · unfold fsmQRest at hq
    split at hq
    · exact ht.queue p (List.mem_of_mem_tail hq)
    · exact ht.queue p hq
  · rw [Option.mem_toList, RxIssuePipe.fsmOut] at ho
    obtain ⟨x, hx, rfl⟩ := Option.map_eq_some_iff.mp ho
    have hi := (Option.filter_eq_some_iff.mp hx).1
    unfold RxIssuePipe.issued at hi
    split at hi
    · cases hi
    · exact ht.stageI x hi

theorem tagInv_fsm (h : Inv s) (ht : TagInv s) (hr' : (s.step i).sys.fsm.ctrl ≠ .ready) :
    (s.step i).issue.cam (s.step i).sys.fsm.pkt.flowid = some (s.step i).sys.fsm.pkt.tag := by
  refine h.cam_step ?_
  change (s.sys.step (s.sysIn i)).fsm.ctrl ≠ .ready at hr'
  change s.issue.cam (s.sys.step (s.sysIn i)).fsm.pkt.flowid =
    some (s.sys.step (s.sysIn i)).fsm.pkt.tag
  by_cases hr : s.sys.fsm.ctrl = .ready
  · cases hq : s.fsmQ with
    | nil =>
      simp [FsmSystem.step, RxFsmPipe.step, hr, FsmSystem.fsmIn, sysIn, hq] at hr'
    | cons p q =>
      have hp : (s.sys.step (s.sysIn i)).fsm.pkt = p := by
        simp [FsmSystem.step, RxFsmPipe.step, hr, FsmSystem.fsmIn, sysIn, hq]
      rw [hp]
      exact ht.queue p (by simp [hq])
  · rw [FsmSystem.pkt_step hr]
    exact ht.fsm hr

theorem tagInv_step (h : Inv s) (ht : TagInv s) : TagInv (s.step i) := by
  refine ⟨tagInv_stageI h ht, tagInv_queue h ht, tagInv_fsm h ht, ?_⟩
  intro f r hr
  refine h.cam_step ?_
  have hr' : r ∈ ((s.sys.step (s.sysIn i)).log f).inits := hr
  rcases FsmSystem.inits_cases (s := s.sys) (i := s.sysIn i) f with he | ⟨hc, rfl, he⟩
  · rw [he] at hr'
    exact ht.inits f r hr'
  · rw [he] at hr'
    rcases List.mem_append.mp hr' with hm | hm
    · exact ht.inits _ r hm
    · rw [List.mem_singleton] at hm
      rw [hm]
      exact ht.fsm (by simp [hc])

theorem tagInv_init (h : s.Init) : TagInv s := by
  obtain ⟨hi, -, hq, hf, -, -, hl⟩ := h
  constructor <;> simp [hi, hq, hf, hl, RxIssuePipe.reset, RxFsmPipe.reset, FsmSystem.emptyLog]

theorem tagInv_of_reach {ok : RxFront → RxFrontIn → Prop} (h : Reach Init cycle ok s) :
    TagInv s := by
  refine h.invariant_of (fun _ => inv_of_reach) (fun _ => tagInv_init) ?_
  intro s i s' hi ht _ hs
  obtain ⟨-, rfl⟩ := cycle_eq_some hs
  exact tagInv_step hi ht

/-- The flow was initialised once since it was assigned to `tag`, from a SYN of that
four-tuple and the SYN-ACK sent, or about to be sent, in answer to it. -/
def Consistent (s : RxFront) (f : FlowId) (tag : FourTuple) : Prop :=
  ∃ o, FsmSystem.Opened s.sys f o ∧ o.init.lookup = tag

/-- The condition of a run: no SYN opens a flow that was assigned by an earlier packet. -/
def NoLateSyn (s : RxFront) (i : RxFrontIn) : Prop := FsmSystem.NoLateSyn s.sys (s.sysIn i)

instance (s : RxFront) (i : RxFrontIn) : Decidable (NoLateSyn s i) :=
  inferInstanceAs (Decidable (FsmSystem.NoLateSyn _ _))

/-- In every run without a late SYN an assigned flow in `TCP_SYN_RECV` or `TCP_EST` has been
initialised consistently. -/
theorem consistent_of_noLateSyn (h : Reach Init cycle NoLateSyn s) {f : FlowId}
    {tag : FourTuple} (hc : s.issue.cam f = some tag)
    (hst : s.sys.tcpMem f = .synRecv ∨ s.sys.tcpMem f = .est) : Consistent s f tag := by
  have hsys : Reach FsmSystem.Init FsmSystem.cycle FsmSystem.NoLateSyn s.sys := reach_sys h
  have hk := (inv_of_reach h).cam f (by rw [hc]; rfl)
  have hne : s.sys.tcpMem f ≠ .none := by rcases hst with hst | hst <;> simp [hst]
  obtain ⟨o, ho⟩ := FsmSystem.opened_of_noLateSyn hsys hk hne
  refine ⟨o, ho, ?_⟩
  have htag := (tagInv_of_reach h).inits f o.init (by simp [ho.inits])
  rw [hc] at htag
  exact (Option.some.inj htag).symm

/-- A handshake that ends in `TCP_EST`. -/
theorem consistent_of_noLateSyn_est : ∃ s, Reach Init cycle NoLateSyn s ∧
    s.sys.tcpMem 0 = .est ∧ Consistent s 0 (recvOf 0 0 0).tag := by
  have hrun : ∃ s, Reach Init cycle NoLateSyn s ∧
      decide (s.issue.cam 0 = some (recvOf 0 0 0).tag ∧ s.sys.tcpMem 0 = .est) = true :=
    Reach.exists_of_run (deliver (recvOf tcpSyn 100 0) ++ deliver (recvOf tcpAck 101 4096))
      reset_init (by decide +kernel)
  obtain ⟨s, hr, hp⟩ := hrun
  rw [decide_eq_true_iff] at hp
  exact ⟨s, hr, hp.2, consistent_of_noLateSyn hr hp.1 (.inr hp.2)⟩

/-- A stray acknowledgement assigns the flow ID; the SYN after it opens the flow, and nothing
has been initialised. -/
theorem consistent_late_syn : ¬ ∀ s, Reach Init cycle Free s → ∀ f tag,
    s.issue.cam f = some tag → s.sys.tcpMem f = .synRecv ∨ s.sys.tcpMem f = .est →
      Consistent s f tag := by
  intro h
  have hrun : ∃ s, Reach Init cycle Free s ∧
      decide (s.issue.cam 0 = some (recvOf 0 0 0).tag ∧ s.sys.tcpMem 0 = .synRecv ∧
        (s.sys.log 0).inits = []) = true :=
    Reach.exists_of_run (deliver (recvOf tcpAck 99 0) ++ deliver (recvOf tcpSyn 100 0))
      reset_init (by decide +kernel)
  obtain ⟨s, hr, hp⟩ := hrun
  rw [decide_eq_true_iff] at hp
  obtain ⟨o, ho, -⟩ := h s hr 0 _ hp.1 (.inl hp.2.1)
  rw [ho.inits] at hp
  cases hp.2.2

end RxFront

end TcpHw
