import TcpHw.Recv.FsmSystem

/-!
# The order of the stored TCP states

Between its allocation and the end of a run a flow should go from `TCP_NONE` through
`TCP_SYN_RECV` to `TCP_EST`, and the application should hear of it once, on the last of
these steps. `tcp_state_machine` keeps to that as long as it is never asked about an
established flow.
-/
namespace TcpHw.FsmSystem

open Trace

set_option autoImplicit false

/-- The notification of flow `f` is being offered to the application. -/
def notifying (s : FsmSystem) (f : FlowId) : Bool :=
  decide (s.fsm.ctrl = .notifApp ∧ s.fsm.pkt.flowid = f)

/-- The stored states of an allocated flow so far, and its notifications, counting the one
on offer. -/
structure Ordered (s : FsmSystem) (f : FlowId) : Prop where
  history : (s.log f).history <+: [.none, .synRecv, .est]
  last : (s.log f).history.getLast? = some (s.tcpMem f)
  notifs : (s.log f).notifs + (s.notifying f).toNat = if s.tcpMem f = .est then 1 else 0

/-- No packet carries RST or FIN. -/
def NoRstFin (s : FsmSystem) (i : FsmSystemIn) : Prop :=
  s.fsm.ctrl = .ready → ∀ p ∈ i.hdr, p.tcpHdr.flags &&& (tcpRst ||| tcpFin) = 0

/-- The packet whose flow is found established has no flags besides ACK and PSH. -/
def PlainWhenEst (s : FsmSystem) (_ : FsmSystemIn) : Prop :=
  s.fsm.ctrl = .tcpStateRdResp → s.tcpMem s.fsm.pkt.flowid = .est →
    onlyAckPsh s.fsm.pkt.tcpHdr.flags = true

instance (s : FsmSystem) (i : FsmSystemIn) : Decidable (NoRstFin s i) :=
  inferInstanceAs (Decidable (_ → _))

instance (s : FsmSystem) (i : FsmSystemIn) : Decidable (PlainWhenEst s i) :=
  inferInstanceAs (Decidable (_ → _))

/-! ### The invariant -/

/-- A stored state and the history that leads to it. -/
inductive OnLine : TcpFlowState → List TcpFlowState → Prop
  | none : OnLine .none [.none]
  | synRecv : OnLine .synRecv [.none, .synRecv]
  | est : OnLine .est [.none, .synRecv, .est]

/-- The FSM works out a next state only for a flow it did not find established, and the
notification goes with the decision for `TCP_EST`, which has no answer. -/
def OrderCtrl (m : RxFsmPipe) : Prop :=
  match m.ctrl with
  | .rxTxStateRdReq | .rxTxStateRdResp | .stateDec | .initState | .wrFlowState => m.tcpState ≠ .est
  | .sendPkt => m.appNewFlowNotif = false
  | _ => True

structure OrderInv (s : FsmSystem) : Prop where
  ctrl : OrderCtrl s.fsm
  unborn : ∀ f, (s.log f).known = false → (s.log f).notifs = 0
  line : ∀ f, (s.log f).known = true → OnLine (s.tcpMem f) (s.log f).history
  count : ∀ f, (s.log f).known = true → (s.log f).notifs + (s.notifying f).toNat =
    if s.tcpMem f = .est then 1 else 0

variable {s : FsmSystem} {i : FsmSystemIn}

theorem OnLine.prefix_last {st : TcpFlowState} {hist : List TcpFlowState} (h : OnLine st hist) :
    hist <+: [.none, .synRecv, .est] ∧ hist.getLast? = some st := by
  cases h <;> decide

theorem OnLine.states {st : TcpFlowState} {hist : List TcpFlowState} (h : OnLine st hist)
    (hne : st ≠ .est) : st = .none ∨ st = .synRecv := by
  cases h <;> simp at hne ⊢

theorem OnLine.of_none {hist : List TcpFlowState} (h : OnLine .none hist) : hist = [.none] := by
  cases h
  rfl

theorem OnLine.of_synRecv {hist : List TcpFlowState} (h : OnLine .synRecv hist) :
    hist = [.none, .synRecv] := by
  cases h
  rfl

theorem OrderInv.ordered (h : OrderInv s) {f : FlowId} (hk : (s.log f).known = true) :
    Ordered s f :=
  ⟨(h.line f hk).prefix_last.1, (h.line f hk).prefix_last.2, h.count f hk⟩

/-- The view of a flow the FSM does not work on, and of any flow while the FSM is ready. -/
theorem view_other {f : FlowId} (hg : IssueOk s i) (hk : (s.log f).known = true)
    (hf : s.fsm.ctrl = .ready ∨ s.fsm.pkt.flowid ≠ f) :
    (s.step i).tcpMem f = s.tcpMem f ∧ ((s.step i).log f).history = (s.log f).history ∧
      ((s.step i).log f).notifs = (s.log f).notifs ∧ (s.step i).notifying f = s.notifying f := by
  have hm : (s.step i).tcpMem f = s.tcpMem f := by
    rw [tcpMem_step hg hk, if_neg]
    rintro ⟨hw, hp⟩
    rcases hf with hf | hf
    · simp [hf] at hw
    · exact hf hp
  have hl := log_step (s := s) (alloc_ne hg hk)
  by_cases hr : s.fsm.ctrl = .ready
  · rw [if_pos hr] at hl
    have hn : (s.step i).fsm.ctrl ≠ .notifApp := by
      simp only [step, RxFsmPipe.step, hr]
      split <;> simp [hr]
    refine ⟨hm, ?_, ?_, by simp [notifying, hn, hr]⟩ <;> rw [hl] <;> split <;> rfl
  · have hp := hf.resolve_left hr
    rw [if_neg hr, if_neg hp] at hl
    exact ⟨hm, by rw [hl], by rw [hl], by simp [notifying, pkt_step hr, hp]⟩

/-- The flow in hand keeps its view outside of `WR_FLOW_STATE` and `NOTIF_APP`. -/
theorem view_current (hi : Inv s) (h : OrderInv s) (hg : IssueOk s i) (hr : s.fsm.ctrl ≠ .ready)
    (hw : s.fsm.ctrl ≠ .wrFlowState) (hn : s.fsm.ctrl ≠ .notifApp) :
    (s.step i).tcpMem s.fsm.pkt.flowid = s.tcpMem s.fsm.pkt.flowid ∧
      ((s.step i).log s.fsm.pkt.flowid).history = (s.log s.fsm.pkt.flowid).history ∧
      ((s.step i).log s.fsm.pkt.flowid).notifs = (s.log s.fsm.pkt.flowid).notifs ∧
      (s.step i).notifying s.fsm.pkt.flowid = s.notifying s.fsm.pkt.flowid := by
  have hl := log_step (s := s) (alloc_ne hg (hi.current hr).1)
  rw [if_neg hr, if_pos rfl] at hl
  have hn' : (s.step i).fsm.ctrl ≠ .notifApp := by
    intro hc'
    have harc := ctrl_mem_arcs (s := s) (i := i)
    rw [hc'] at harc
    cases hc : s.fsm.ctrl with
    | wrFlowState => exact hw hc
    | notifApp => exact hn hc
    | sendPkt =>
      have hctrl := h.ctrl
      simp only [OrderCtrl, hc] at hctrl
      simp only [step, RxFsmPipe.step, hc, hctrl] at hc'
      split at hc' <;> simp [hc] at hc'
    | ready | tcpStateRdReq | tcpStateRdResp | reinjectPkt | rxTxStateRdReq | rxTxStateRdResp
    | stateDec | initState => simp [hc, RxFsmPipe.arcs] at harc
  refine ⟨mem_current hi hg hr hw, ?_, ?_, by simp [notifying, hn, hn']⟩
  · rw [hl]
    unfold logFsm
    cases hc : s.fsm.ctrl <;> simp only [hc] at hw ⊢ <;>
      first | exact absurd rfl hw | rfl | (split <;> rfl)
  · rw [hl]
    unfold logFsm
    cases hc : s.fsm.ctrl <;> simp only [hc] at hn ⊢ <;>
      first | exact absurd rfl hn | rfl | (split <;> rfl)

/-- `WR_FLOW_STATE` moves the flow in hand along the line or leaves it where it is. -/
theorem view_write (hi : Inv s) (h : OrderInv s) (hg : IssueOk s i)
    (hw : s.fsm.ctrl = .wrFlowState) :
    OnLine ((s.step i).tcpMem s.fsm.pkt.flowid) ((s.step i).log s.fsm.pkt.flowid).history ∧
      ((s.step i).log s.fsm.pkt.flowid).notifs + ((s.step i).notifying s.fsm.pkt.flowid).toNat =
        if (s.step i).tcpMem s.fsm.pkt.flowid = .est then 1 else 0 := by
  have hr : s.fsm.ctrl ≠ .ready := by simp [hw]
  have hk := (hi.current hr).1
  have hread : s.fsm.tcpState = s.tcpMem s.fsm.pkt.flowid ∧ Decided s.fsm := by
    have hctrl := hi.ctrl
    simpa only [CtrlOk, hw] using hctrl
  have hne : s.fsm.tcpState ≠ .est := by
    have hctrl := h.ctrl
    simpa only [OrderCtrl, hw] using hctrl
  have hm : (s.step i).tcpMem s.fsm.pkt.flowid = s.fsm.nextFlowState := by
    rw [tcpMem_step hg hk, if_pos ⟨hw, rfl⟩]
  have hl : (s.step i).log s.fsm.pkt.flowid =
      FlowLog.write (s.log s.fsm.pkt.flowid) (s.tcpMem s.fsm.pkt.flowid)
        s.fsm.nextFlowState := by
    rw [log_step (alloc_ne hg hk), if_neg hr, if_pos rfl, logFsm, hw]
  have hc : (s.step i).fsm.ctrl =
      if s.fsm.sendPktVal then .sendPkt
      else if s.fsm.appNewFlowNotif then .notifApp else .ready := by
    simp [step, RxFsmPipe.step, hw, fsmIn]
  have hline := h.line _ hk
  have hcount := h.count _ hk
  have hno : s.notifying s.fsm.pkt.flowid = false := by simp [notifying, hw]
  rw [hno, ← hread.1, if_neg hne] at hcount
  have hzero : (s.log s.fsm.pkt.flowid).notifs = 0 := by simpa using hcount
  have hnotif : (s.step i).notifying s.fsm.pkt.flowid =
      decide ((s.step i).fsm.ctrl = .notifApp) := by
    simp [notifying, pkt_step hr]
  rw [hm, hl, hnotif, hc]
  simp only [FlowLog.write, hzero]
  rw [← hread.1] at hline ⊢
  cases hread.2.outcome with
  | opens n curr _ next send =>
    rw [curr] at hline
    simp only [curr, next, send, hline.of_none]
    exact ⟨.synRecv, rfl⟩
  | ignores curr next send notif =>
    rw [curr] at hline
    simp only [curr, next, send, notif, hline.of_none]
    exact ⟨.none, rfl⟩
  | completes curr next send notif =>
    rw [curr] at hline
    simp only [curr, next, send, notif, hline.of_synRecv]
    exact ⟨.est, rfl⟩
  | answers curr next send =>
    rw [curr] at hline
    simp only [curr, next, send, hline.of_synRecv]
    exact ⟨.synRecv, rfl⟩
  | beyond hnone hsyn => exact absurd (hline.states hne) (not_or.mpr ⟨hnone, hsyn⟩)

theorem count_notif (hi : Inv s) (hg : IssueOk s i)
    (hn : s.fsm.ctrl = .notifApp) :
    ((s.step i).log s.fsm.pkt.flowid).history = (s.log s.fsm.pkt.flowid).history ∧
      ((s.step i).log s.fsm.pkt.flowid).notifs + ((s.step i).notifying s.fsm.pkt.flowid).toNat =
        (s.log s.fsm.pkt.flowid).notifs + (s.notifying s.fsm.pkt.flowid).toNat := by
  have hr : s.fsm.ctrl ≠ .ready := by simp [hn]
  have hl := log_step (s := s) (alloc_ne hg (hi.current hr).1)
  rw [if_neg hr, if_pos rfl, logFsm, hn] at hl
  have hc : (s.step i).fsm.ctrl = if i.notifRdy then .ready else .notifApp := by
    simp only [step, RxFsmPipe.step, hn, fsmIn]
    by_cases hy : i.notifRdy = true <;> simp [hy, hn]
  rw [hl]
  simp only [notifying, hc, hn, pkt_step hr]
  cases i.notifRdy <;> simp

/-- One cycle for a flow that is already allocated. -/
theorem line_step (hi : Inv s) (h : OrderInv s) (hg : IssueOk s i) {f : FlowId}
    (hk : (s.log f).known = true) :
    OnLine ((s.step i).tcpMem f) ((s.step i).log f).history ∧
      ((s.step i).log f).notifs + ((s.step i).notifying f).toNat =
        if (s.step i).tcpMem f = .est then 1 else 0 := by
  have hline := h.line f hk
  have hcount := h.count f hk
  by_cases hf : s.fsm.ctrl = .ready ∨ s.fsm.pkt.flowid ≠ f
  · obtain ⟨hm, hh, hc, hn⟩ := view_other hg hk hf
    rw [hm, hh, hc, hn]
    exact ⟨hline, hcount⟩
  · rw [not_or, not_not] at hf
    obtain ⟨hr, rfl⟩ := hf
    by_cases hw : s.fsm.ctrl = .wrFlowState
    · exact view_write hi h hg hw
    · by_cases hn : s.fsm.ctrl = .notifApp
      · obtain ⟨hh, hc⟩ := count_notif hi hg hn
        rw [mem_current hi hg hr hw, hh, hc]
        exact ⟨hline, hcount⟩
      · obtain ⟨hm, hh, hc, hn'⟩ := view_current hi h hg hr hw hn
        rw [hm, hh, hc, hn']
        exact ⟨hline, hcount⟩

/-- A packet whose flow is found established goes back to `est_pipe`. -/
theorem orderCtrl_step (hi : Inv s) (h : OrderInv s) (hp : PlainWhenEst s i) :
    OrderCtrl (s.step i).fsm := by
  have hctrl := h.ctrl
  have hci := hi.ctrl
  have harc := ctrl_mem_arcs (s := s) (i := i)
  cases hc : s.fsm.ctrl with
  | ready | reinjectPkt | notifApp =>
    simp only [hc, RxFsmPipe.arcs, List.mem_cons, List.not_mem_nil, or_false] at harc
    rcases harc with hn | hn <;> simp only [OrderCtrl, hn]
  | rxTxStateRdReq | rxTxStateRdResp | stateDec | initState =>
    have hst : (s.step i).fsm.tcpState = s.fsm.tcpState :=
      RxFsmPipe.tcpState_step (by simp [hc]) (by simp [hc])
    simp only [OrderCtrl, hc] at hctrl
    simp only [hc, RxFsmPipe.arcs, List.mem_cons, List.not_mem_nil, or_false] at harc
    rcases harc with hn | hn <;> simp only [OrderCtrl, hn, hst] <;> exact hctrl
  | tcpStateRdReq =>
    cases hn : s.fsm.pkt.newFlow <;> simp [OrderCtrl, step, RxFsmPipe.step, hc, hn]
  | tcpStateRdResp =>
    simp only [CtrlOk, hc] at hci
    have hresp : (s.fsmIn i).tcpResp = some (s.tcpMem s.fsm.pkt.flowid) := by simp [fsmIn, hci]
    simp only [OrderCtrl, step, RxFsmPipe.step, hc, hresp, RxFsmPipe.rdReqNext]
    by_cases he : s.tcpMem s.fsm.pkt.flowid = .est
    · cases hf : (s.fsmIn i).reinjectFull <;> simp [he, hp hc he]
    · cases hr : (s.fsmIn i).stateRdRdy <;> simp [he]
  | wrFlowState =>
    simp only [CtrlOk, hc] at hci
    rw [ctrl_of_wrFlowState hc]
    have hquiet : s.fsm.sendPktVal = true → s.fsm.appNewFlowNotif = false := by
      intro hv
      cases hci.2.outcome with
      | opens _ _ _ _ _ notif => exact notif
      | answers _ _ _ notif => exact notif
      | ignores _ _ send | completes _ _ send | beyond _ _ _ send =>
        rw [send] at hv
        cases hv
    simp only [OrderCtrl]
    split_ifs with hv hn
    · exact hquiet hv
    · trivial
    · trivial
  | sendPkt =>
    simp only [OrderCtrl, hc] at hctrl
    cases hy : i.sendRdy <;> simp [OrderCtrl, step, RxFsmPipe.step, hc, fsmIn, hy, hctrl]

theorem orderInv_step (hi : Inv s) (h : OrderInv s) (hg : IssueOk s i) (hp : PlainWhenEst s i) :
    OrderInv (s.step i) := by
  have halloc : ∀ f, i.alloc = some f → (s.step i).notifying f = false := by
    intro f ha
    by_cases hr : s.fsm.ctrl = .ready
    · have harc := ctrl_mem_arcs (s := s) (i := i)
      simp only [hr, RxFsmPipe.arcs, List.mem_cons, List.not_mem_nil, or_false] at harc
      rcases harc with hc | hc <;> simp [notifying, hc]
    · have hne : s.fsm.pkt.flowid ≠ f := by
        rintro rfl
        exact alloc_ne hg (hi.current hr).1 ha
      simp [notifying, pkt_step hr, hne]
  refine ⟨orderCtrl_step hi h hp, ?_, ?_, ?_⟩
  · intro f hk
    by_cases ha : i.alloc = some f
    · rw [log_alloc ha] at hk
      cases hk
    · rw [known_step ha] at hk
      rw [log_step ha]
      have hne : s.fsm.ctrl ≠ .ready → s.fsm.pkt.flowid ≠ f := by
        rintro hr rfl
        rw [(hi.current hr).1] at hk
        cases hk
      split
      · split <;> exact h.unborn f hk
      · rename_i hr
        rw [if_neg (hne hr)]
        exact h.unborn f hk
  · intro f hk
    by_cases ha : i.alloc = some f
    · rw [tcpMem_alloc hg ha, log_alloc ha]
      exact .none
    · exact (line_step hi h hg (known_step ha ▸ hk)).1
  · intro f hk
    by_cases ha : i.alloc = some f
    · rw [tcpMem_alloc hg ha, log_alloc ha, halloc f ha]
      simpa using h.unborn f (hg.1 f ha).1
    · exact (line_step hi h hg (known_step ha ▸ hk)).2

theorem orderInv_init (h : s.Init) : OrderInv s := by
  obtain ⟨hf, -, -, hl⟩ := h
  constructor
  · simp [OrderCtrl, hf, RxFsmPipe.reset]
  all_goals simp [hl, emptyLog]

/-- In every run in which the FSM finds flows established only for plain packets, the states
of every allocated flow are in order and the application hears of it once. -/
theorem ordered_of_plainWhenEst (h : Reach Init cycle PlainWhenEst s) {f : FlowId}
    (hk : (s.log f).known = true) : Ordered s f := by
  have hinv : OrderInv s := by
    refine h.invariant_of (fun _ => inv_of_reach) (fun _ => orderInv_init) ?_
    intro s i s' hi ho hp hs
    obtain ⟨⟨hg, -⟩, rfl⟩ := cycle_eq_some hs
    exact orderInv_step hi ho hg hp
  exact hinv.ordered hk

/-- A handshake followed by a plain packet of the established flow. -/
theorem ordered_of_plainWhenEst_open :
    ∃ s, Reach Init cycle PlainWhenEst s ∧ s.tcpMem 2 = .est ∧ Ordered s 2 := by
  have hrun : ∃ s, Reach Init cycle PlainWhenEst s ∧
      ((s.log 2).known && decide (s.tcpMem 2 = .est)) = true :=
    Reach.exists_of_run (openFlow ++ smooth none (some (pktOf false tcpAck 101 4096)) :: idle 3)
      reset_init (by decide +kernel)
  obtain ⟨s, hr, hp⟩ := hrun
  rw [Bool.and_eq_true, decide_eq_true_iff] at hp
  exact ⟨s, hr, hp.2, ordered_of_plainWhenEst hr hp.1⟩

/-- A SYN that arrives on an established flow puts the flow back to `TCP_NONE`. -/
theorem ordered_syn_on_est :
    ¬ ∀ s, Reach Init cycle NoRstFin s → ∀ f, (s.log f).known = true → Ordered s f := by
  intro h
  have hrun : ∃ s, Reach Init cycle NoRstFin s ∧
      ((s.log 2).known && decide ((s.log 2).history = [.none, .synRecv, .est, .none])) = true :=
    Reach.exists_of_run (openFlow ++ smooth none (some (pktOf false tcpSyn 100 0)) :: idle 7)
      reset_init (by decide +kernel)
  obtain ⟨s, hr, hp⟩ := hrun
  rw [Bool.and_eq_true, decide_eq_true_iff] at hp
  have hpre := (h s hr 2 hp.1).history
  rw [hp.2] at hpre
  exact absurd hpre (by decide)

end TcpHw.FsmSystem
