import TcpHw.Recv.FsmSystem

/-!
# The first connection attempt of a flow

`INIT_STATE` is entered for a flow's first packet when that packet is a SYN. From then on,
until the flow falls back to `TCP_NONE`, the initialisation, the stored numbers and the
answers all come from that SYN. The results hold in every run.
-/
namespace TcpHw.FsmSystem

open Trace

set_option autoImplicit false

/-- The SYN that opens a flow, with the sequence number drawn for its SYN-ACK. -/
structure Opening where
  pkt : FsmPkt
  seqNum : BitVec 32

namespace Opening

def synAck (o : Opening) : TcpPktHdr :=
  synAckHdr o.pkt.tcpHdr o.seqNum (o.pkt.tcpHdr.seqNum + 1)

/-- The values written once when the flow is opened. -/
def init (o : Opening) : FlowInit where
  rxState := { rxCurrAckNum := o.pkt.tcpHdr.seqNum + 1, rxCurrWndSize := 0x1000#16 }
  txState :=
    { txCurrSeqNum := o.seqNum + 1
      timer := { timestamp := 0, timerArmed := false }
      txCurrAckState := { txCurrAckCnt := 0, txCurrAckNum := o.seqNum + 1 } }
  lookup :=
    { hostIp := o.pkt.dstIp
      destIp := o.pkt.srcIp
      hostPort := o.pkt.tcpHdr.dstPort
      destPort := o.pkt.tcpHdr.srcPort }

end Opening

/-- The first SYN-ACK is waiting to be sent. -/
def Pending (s : FsmSystem) (o : Opening) : Prop :=
  s.fsm.ctrl = .sendPkt ∧ s.fsm.pkt = o.pkt ∧ s.fsm.sendTcpHdr = o.synAck

/-- Flow `f` was opened by `o`, and has been initialised from it once. -/
structure Opened (s : FsmSystem) (f : FlowId) (o : Opening) : Prop where
  flowid : o.pkt.flowid = f
  syn : o.pkt.tcpHdr.flags = tcpSyn
  inits : (s.log f).inits = [o.init]
  answered : (s.log f).answers.head? = some (o.pkt.tcpHdr, o.synAck) ∨
    ((s.log f).answers = [] ∧ Pending s o)

/-- Flow `f` waits for the end of the handshake; further answers repeat the stored numbers. -/
structure Waiting (s : FsmSystem) (f : FlowId) (o : Opening) : Prop extends Opened s f o where
  rx : (s.rxMem f).rxCurrAckNum = o.pkt.tcpHdr.seqNum + 1
  tx : (s.txMem f).txCurrSeqNum = o.seqNum + 1
  rest : ∀ a ∈ (s.log f).answers.tail,
    a.2.seqNum = o.seqNum + 1 ∧ a.2.ackNum = o.pkt.tcpHdr.seqNum + 1

/-- The state of the flow in hand was read while its numbers could not change. -/
def RegsCurrent (s : FsmSystem) : Prop :=
  s.fsm.pkt.newFlow = false → .est ∉ (s.log s.fsm.pkt.flowid).history →
    s.fsm.rxState.rxCurrAckNum = (s.rxMem s.fsm.pkt.flowid).rxCurrAckNum ∧
      s.fsm.txState.txCurrSeqNum = (s.txMem s.fsm.pkt.flowid).txCurrSeqNum

/-- The first packet of a flow finds it untouched. -/
def FirstPkt (s : FsmSystem) : Prop :=
  (s.log s.fsm.pkt.flowid).inits = [] ∧ (s.log s.fsm.pkt.flowid).history = [.none]

/-- What the first packet has left behind when its decision is stored. -/
def FirstWrite (s : FsmSystem) : Prop :=
  (s.log s.fsm.pkt.flowid).history = [.none] ∧
    (s.fsm.nextFlowState = .none → (s.log s.fsm.pkt.flowid).inits = []) ∧
    (s.fsm.nextFlowState ≠ .none →
      (s.log s.fsm.pkt.flowid).inits = [s.newFlowInit] ∧
        s.rxMem s.fsm.pkt.flowid = s.fsm.rxStateInit ∧
        (s.txMem s.fsm.pkt.flowid).txCurrSeqNum = s.fsm.txStateInit.txCurrSeqNum)

def HandshakeCtrl (s : FsmSystem) : Prop :=
  match s.fsm.ctrl with
  | .ready | .reinjectPkt | .notifApp => True
  | .tcpStateRdReq => s.fsm.pkt.newFlow = true → FirstPkt s
  | .tcpStateRdResp | .rxTxStateRdReq | .rxTxStateRdResp => s.fsm.pkt.newFlow = false
  | .stateDec => RegsCurrent s ∧
    (s.fsm.pkt.newFlow = true → s.fsm.tcpState = .none ∧ FirstPkt s)
  | .initState => s.fsm.pkt.newFlow = true ∧ s.fsm.tcpState = .none ∧
    s.fsm.nextFlowState ≠ .none ∧ FirstPkt s
  | .wrFlowState => RegsCurrent s ∧
    (s.fsm.pkt.newFlow = true → s.fsm.tcpState = .none ∧ FirstWrite s)
  | .sendPkt => RegsCurrent s ∧
    (s.fsm.pkt.newFlow = true → (s.log s.fsm.pkt.flowid).answers = []) ∧
    (s.fsm.pkt.newFlow = false → (s.log s.fsm.pkt.flowid).inits ≠ [] →
      (s.log s.fsm.pkt.flowid).history = [.none, .synRecv] → s.fsm.tcpState = .synRecv)

structure HandshakeInv (s : FsmSystem) : Prop where
  ctrl : HandshakeCtrl s
  born : ∀ f, (s.log f).seen = true → (s.log f).known = true
  fresh : ∀ f, (s.log f).seen = false → (s.log f).inits = []
  start : ∀ f, (s.log f).known = true → (s.log f).seen = false → (s.log f).history = [.none]
  last : ∀ f, (s.log f).known = true → (s.log f).history.getLast? = some (s.tcpMem f)
  none : ∀ f, (s.log f).inits ≠ [] → (s.log f).history = [.none] →
    s.fsm.ctrl = .wrFlowState ∧ s.fsm.pkt.flowid = f ∧ s.fsm.pkt.newFlow = true
  synRecv : ∀ f, (s.log f).inits ≠ [] → (s.log f).history = [.none, .synRecv] →
    ∃ o, Waiting s f o
  est : ∀ f, (s.log f).inits ≠ [] → (s.log f).history = [.none, .synRecv, .est] →
    ∃ o, Opened s f o

variable {s : FsmSystem} {i : FsmSystemIn}

/-! ### What a cycle leaves alone -/

/-- The flow is not the one the FSM works on. -/
def Aside (s : FsmSystem) (f : FlowId) : Prop := s.fsm.ctrl = .ready ∨ s.fsm.pkt.flowid ≠ f

theorem log_aside {f : FlowId} (ha : i.alloc ≠ some f) (hf : Aside s f) :
    ((s.step i).log f).history = (s.log f).history ∧
      ((s.step i).log f).inits = (s.log f).inits ∧
      ((s.step i).log f).answers = (s.log f).answers := by
  rw [log_step ha]
  rcases hf with hr | hp
  · rw [if_pos hr]
    split <;> exact ⟨rfl, rfl, rfl⟩
  · by_cases hr : s.fsm.ctrl = .ready
    · rw [if_pos hr]
      split <;> exact ⟨rfl, rfl, rfl⟩
    · rw [if_neg hr, if_neg hp]
      exact ⟨rfl, rfl, rfl⟩

/-- The log of the flow in hand. -/
theorem log_current (hi : Inv s) (hg : IssueOk s i) (hr : s.fsm.ctrl ≠ .ready) :
    (s.step i).log s.fsm.pkt.flowid = s.logFsm i (s.log s.fsm.pkt.flowid) := by
  rw [log_step (alloc_ne hg (hi.current hr).1), if_neg hr, if_pos rfl]

/-- Answers are added in `SEND_PKT` and forgotten when a flow leaves `TCP_NONE`. -/
theorem answers_current (hi : Inv s) (hg : IssueOk s i) (hr : s.fsm.ctrl ≠ .ready) :
    ((s.step i).log s.fsm.pkt.flowid).answers = (s.log s.fsm.pkt.flowid).answers ∨
      (s.fsm.ctrl = .wrFlowState ∧ s.tcpMem s.fsm.pkt.flowid = .none ∧
        ((s.step i).log s.fsm.pkt.flowid).answers = []) ∨
      (s.fsm.ctrl = .sendPkt ∧ (s.step i).fsm.ctrl ≠ .sendPkt ∧
        ((s.step i).log s.fsm.pkt.flowid).answers =
          (s.log s.fsm.pkt.flowid).answers ++ [(s.fsm.pkt.tcpHdr, s.fsm.sendTcpHdr)]) := by
  rw [log_current hi hg hr]
  unfold logFsm FlowLog.write
  cases hc : s.fsm.ctrl
  case wrFlowState =>
    by_cases hn : s.tcpMem s.fsm.pkt.flowid = .none
    · exact .inr (.inl ⟨rfl, hn, if_pos hn⟩)
    · exact .inl (if_neg hn)
  case sendPkt =>
    by_cases hy : i.sendRdy = true
    · refine .inr (.inr ⟨rfl, ?_, by rw [if_pos hy]⟩)
      rw [ctrl_of_sendPkt hc hy]
      dsimp only
      split_ifs <;> simp
    · exact .inl (by rw [if_neg hy])
  case notifApp => exact .inl (by dsimp only; split <;> rfl)
  all_goals exact .inl rfl

theorem history_step (hi : Inv s) (hg : IssueOk s i) {f : FlowId}
    (hk : (s.log f).known = true) :
    ((s.step i).log f).history = (s.log f).history ∧
        (s.fsm.ctrl = .wrFlowState → s.fsm.pkt.flowid = f → s.fsm.nextFlowState = s.tcpMem f) ∨
      (s.fsm.ctrl = .wrFlowState ∧ s.fsm.pkt.flowid = f ∧ s.fsm.nextFlowState ≠ s.tcpMem f ∧
        ((s.step i).log f).history = (s.log f).history ++ [s.fsm.nextFlowState]) := by
  by_cases hf : Aside s f
  · refine .inl ⟨(log_aside (alloc_ne hg hk) hf).1, fun hw hp => ?_⟩
    rcases hf with hf | hf
    · simp [hf] at hw
    · exact absurd hp hf
  · simp only [Aside, not_or, not_not] at hf
    obtain ⟨hr, rfl⟩ := hf
    rw [log_current hi hg hr]
    by_cases hw : s.fsm.ctrl = .wrFlowState
    · simp only [logFsm, hw, FlowLog.write]
      by_cases hn : s.fsm.nextFlowState = s.tcpMem s.fsm.pkt.flowid
      · exact .inl ⟨if_pos hn, fun _ _ => hn⟩
      · exact .inr ⟨trivial, trivial, hn, if_neg hn⟩
    · refine .inl ⟨?_, fun h => absurd h hw⟩
      unfold logFsm
      cases hc : s.fsm.ctrl <;> simp only <;> first | exact absurd hc hw | (split <;> rfl)

/-- Where the last stored state of a flow comes from. -/
theorem history_concat (hi : Inv s) (hg : IssueOk s i) {f : FlowId}
    (hk : (s.log f).known = true) {l : List TcpFlowState} {st : TcpFlowState}
    (hh : ((s.step i).log f).history = l ++ [st]) :
    (s.log f).history = l ++ [st] ∧
        (s.fsm.ctrl = .wrFlowState → s.fsm.pkt.flowid = f → s.fsm.nextFlowState = s.tcpMem f) ∨
      (s.fsm.ctrl = .wrFlowState ∧ s.fsm.pkt.flowid = f ∧ s.fsm.nextFlowState = st ∧
        (s.log f).history = l) := by
  rcases history_step hi hg hk with ⟨hsame, hnext⟩ | ⟨hc, hp, -, happ⟩
  · exact .inl ⟨hsame.symm.trans hh, hnext⟩
  · rw [happ] at hh
    obtain ⟨hl, hst⟩ := List.append_inj' hh rfl
    exact .inr ⟨hc, hp, by simpa using hst, hl⟩

/-- Only `INIT_STATE` adds an initialisation. -/
theorem inits_cases (f : FlowId) :
    ((s.step i).log f).inits = (s.log f).inits ∨
      (s.fsm.ctrl = .initState ∧ s.fsm.pkt.flowid = f ∧
        ((s.step i).log f).inits = (s.log f).inits ++ [s.newFlowInit]) := by
  by_cases ha : i.alloc = some f
  · exact .inl (by rw [log_alloc ha])
  · by_cases hf : Aside s f
    · exact .inl (log_aside ha hf).2.1
    · simp only [Aside, not_or, not_not] at hf
      rw [log_step ha, if_neg hf.1, if_pos hf.2]
      unfold logFsm FlowLog.write
      cases hc : s.fsm.ctrl <;> simp only
      case initState => exact .inr ⟨trivial, hf.2, trivial⟩
      all_goals first | exact .inl trivial | exact .inl (by split <;> rfl)

theorem inits_step {f : FlowId} (hf : s.fsm.ctrl ≠ .initState ∨ s.fsm.pkt.flowid ≠ f) :
    ((s.step i).log f).inits = (s.log f).inits := by
  rcases inits_cases (s := s) (i := i) f with h | ⟨hc, hp, -⟩
  · exact h
  · exact absurd hp (hf.resolve_left (not_not.mpr hc))

theorem rx_step (hd : DataOk s i) {f : FlowId} (he : .est ∉ (s.log f).history)
    (hf : s.fsm.ctrl ≠ .initState ∨ s.fsm.pkt.flowid ≠ f) :
    (s.step i).rxMem f = s.rxMem f := by
  change Ram.store s.rxMem (s.rxWr i) f = _
  unfold rxWr RxFsmPipe.newFlowVal
  by_cases hn : s.fsm.ctrl = .initState
  · simp [hn, Ram.store, Ne.symm (hf.resolve_left (not_not.mpr hn))]
  · rw [if_neg (by simpa using hn)]
    cases hw : i.rxWr with
    | none => rfl
    | some w =>
      have hne : f ≠ w.1 := by
        rintro rfl
        exact he (hd.1 w hw)
      simp [Ram.store, hne]

theorem tx_step (hd : DataOk s i) {f : FlowId} (he : .est ∉ (s.log f).history)
    (hf : s.fsm.ctrl ≠ .initState ∨ s.fsm.pkt.flowid ≠ f) :
    ((s.step i).txMem f).txCurrSeqNum = (s.txMem f).txCurrSeqNum := by
  change (Ram.store s.txMem (s.txWr i) f).txCurrSeqNum = _
  unfold txWr RxFsmPipe.newFlowVal
  by_cases hn : s.fsm.ctrl = .initState
  · simp [hn, Ram.store, Ne.symm (hf.resolve_left (not_not.mpr hn))]
  · rw [if_neg (by simpa using hn)]
    cases hw : i.txWr with
    | none => rfl
    | some w =>
      by_cases hne : f = w.1
      · subst hne
        simpa [Ram.store] using (hd.2 w hw he).1
      · simp [Ram.store, hne]

theorem est_mem_step (hg : IssueOk s i) {f : FlowId} (hk : (s.log f).known = true)
    (he : .est ∈ (s.log f).history) : .est ∈ ((s.step i).log f).history := by
  by_cases hf : Aside s f
  · rw [(log_aside (alloc_ne hg hk) hf).1]
    exact he
  · simp only [Aside, not_or, not_not] at hf
    rw [log_step (alloc_ne hg hk), if_neg hf.1, if_pos hf.2]
    unfold logFsm FlowLog.write
    cases s.fsm.ctrl with
    | wrFlowState =>
      dsimp only
      split_ifs
      · exact he
      · exact List.mem_append_left _ he
    | sendPkt | notifApp =>
      dsimp only
      split_ifs <;> exact he
    | ready | tcpStateRdReq | tcpStateRdResp | reinjectPkt | rxTxStateRdReq | rxTxStateRdResp
    | stateDec | initState => exact he

theorem tcpMem_of_history (h : HandshakeInv s) {f : FlowId} (hk : (s.log f).known = true)
    {l : List TcpFlowState} {st : TcpFlowState} (hh : (s.log f).history = l ++ [st]) :
    s.tcpMem f = st := by
  have hlast := h.last f hk
  rw [hh] at hlast
  simpa using hlast.symm

/-- Registers that are kept stay current. -/
theorem regsCurrent_step (hi : Inv s) (hg : IssueOk s i) (hd : DataOk s i)
    (hr : s.fsm.ctrl ≠ .ready) (hn : s.fsm.ctrl ≠ .initState)
    (hrx : (s.step i).fsm.rxState = s.fsm.rxState) (htx : (s.step i).fsm.txState = s.fsm.txState)
    (h : RegsCurrent s) : RegsCurrent (s.step i) := by
  intro hnew he
  rw [pkt_step hr] at hnew he ⊢
  have he' : .est ∉ (s.log s.fsm.pkt.flowid).history := fun hm =>
    he (est_mem_step hg (hi.current hr).1 hm)
  rw [hrx, htx, rx_step hd he' (.inl hn), tx_step hd he' (.inl hn)]
  exact h hnew he'

/-- The first packet leaves its flow untouched until the initialisation. -/
theorem firstPkt_step (hi : Inv s) (hg : IssueOk s i)
    (hc : s.fsm.ctrl = .tcpStateRdReq ∨ s.fsm.ctrl = .stateDec) (h : FirstPkt s) :
    FirstPkt (s.step i) := by
  have hr : s.fsm.ctrl ≠ .ready := by rcases hc with hc | hc <;> simp [hc]
  have hl := log_current hi hg hr
  unfold FirstPkt
  rw [pkt_step hr, hl]
  rcases hc with hc | hc <;> simp only [logFsm, hc] <;> exact h

theorem handshakeCtrl_ready (h : HandshakeInv s) (hg : IssueOk s i) (hc : s.fsm.ctrl = .ready) :
    HandshakeCtrl (s.step i) := by
  cases hp : i.hdr with
  | none =>
    have hf : (s.step i).fsm = s.fsm := by simp [step, RxFsmPipe.step, hc, fsmIn, hp]
    simp [HandshakeCtrl, hf, hc]
  | some p =>
    have hf : (s.step i).fsm = { s.fsm with ctrl := .tcpStateRdReq, pkt := p } := by
      simp [step, RxFsmPipe.step, hc, fsmIn, hp]
    obtain ⟨hk, hs⟩ := hg.2 hc p hp
    obtain ⟨hh, hn, -⟩ := log_aside (s := s) (alloc_ne hg hk) (.inl hc)
    simp only [HandshakeCtrl, hf, FirstPkt]
    intro hnew
    rw [hnew, Bool.not_true] at hs
    rw [hh, hn]
    exact ⟨h.fresh _ hs, h.start _ hk hs⟩

theorem handshakeCtrl_stateDec (hi : Inv s) (h : HandshakeInv s) (hg : IssueOk s i)
    (hd : DataOk s i) (hc : s.fsm.ctrl = .stateDec) : HandshakeCtrl (s.step i) := by
  have hr : s.fsm.ctrl ≠ .ready := by simp [hc]
  have hctrl := h.ctrl
  simp only [HandshakeCtrl, hc] at hctrl
  have hfirst := fun hnew => firstPkt_step hi hg (.inr hc) (hctrl.2 hnew).2
  have hpkt : (s.step i).fsm.pkt = s.fsm.pkt := pkt_step hr
  have hst : (s.step i).fsm.tcpState = s.fsm.tcpState := by simp [step, RxFsmPipe.step, hc]
  have hregs : RegsCurrent (s.step i) :=
    regsCurrent_step hi hg hd hr (by simp [hc]) (by simp [step, RxFsmPipe.step, hc])
      (by simp [step, RxFsmPipe.step, hc]) hctrl.1
  by_cases hn : s.fsm.pkt.newFlow = true ∧ (s.step i).fsm.nextFlowState ≠ .none
  · have hc' : (s.step i).fsm.ctrl = .initState := by
      simp only [step, RxFsmPipe.step, hc] at hn ⊢
      rw [if_pos hn]
    simp only [HandshakeCtrl, hc']
    rw [hpkt, hst]
    exact ⟨hn.1, (hctrl.2 hn.1).1, hn.2, hfirst hn.1⟩
  · have hc' : (s.step i).fsm.ctrl = .wrFlowState := by
      simp only [step, RxFsmPipe.step, hc] at hn ⊢
      rw [if_neg hn]
    simp only [HandshakeCtrl, hc']
    refine ⟨hregs, fun hnew => ?_⟩
    rw [hpkt] at hnew
    rw [hst]
    exact ⟨(hctrl.2 hnew).1, (hfirst hnew).2, fun _ => (hfirst hnew).1,
      fun hne => absurd ⟨hnew, hne⟩ hn⟩

theorem handshakeCtrl_initState (hi : Inv s) (h : HandshakeInv s) (hg : IssueOk s i)
    (hc : s.fsm.ctrl = .initState) : HandshakeCtrl (s.step i) := by
  have hr : s.fsm.ctrl ≠ .ready := by simp [hc]
  have hctrl := h.ctrl
  simp only [HandshakeCtrl, hc] at hctrl
  obtain ⟨hnew, hst, hnext, hin, hhist⟩ := hctrl
  have hl := log_current hi hg hr
  have hf : (s.step i).fsm = { s.fsm with ctrl := .wrFlowState } := by
    simp [step, RxFsmPipe.step, hc, fsmIn]
  simp only [HandshakeCtrl, hf, RegsCurrent, FirstWrite]
  refine ⟨by simp [hnew], fun _ => ⟨hst, ?_, fun h0 => absurd h0 hnext, fun _ => ⟨?_, ?_, ?_⟩⟩⟩
  · rw [hl, logFsm, hc]
    exact hhist
  · rw [hl, logFsm, hc]
    simp [hin, newFlowInit, hf, RxFsmPipe.rxStateInit, RxFsmPipe.txStateInit,
      RxFsmPipe.flowLookupInit]
  · change Ram.store s.rxMem (s.rxWr i) _ = _
    simp [rxWr, RxFsmPipe.newFlowVal, hc, Ram.store, RxFsmPipe.rxStateInit]
  · change (Ram.store s.txMem (s.txWr i) _).txCurrSeqNum = _
    simp [txWr, RxFsmPipe.newFlowVal, hc, Ram.store, RxFsmPipe.txStateInit]

theorem handshakeCtrl_wrFlowState (hi : Inv s) (h : HandshakeInv s) (hg : IssueOk s i)
    (hd : DataOk s i) (hc : s.fsm.ctrl = .wrFlowState) : HandshakeCtrl (s.step i) := by
  have hr : s.fsm.ctrl ≠ .ready := by simp [hc]
  have hctrl := h.ctrl
  have hci := hi.ctrl
  simp only [HandshakeCtrl, hc] at hctrl
  simp only [CtrlOk, hc] at hci
  have hk := (hi.current hr).1
  have hl := log_current hi hg hr
  have hregs : RegsCurrent (s.step i) :=
    regsCurrent_step hi hg hd hr (by simp [hc]) (by simp [step, RxFsmPipe.step, hc, fsmIn])
      (by simp [step, RxFsmPipe.step, hc, fsmIn]) hctrl.1
  have hc' : (s.step i).fsm.ctrl = .sendPkt ∨ (s.step i).fsm.ctrl = .notifApp ∨
      (s.step i).fsm.ctrl = .ready := by
    rw [ctrl_of_wrFlowState hc]
    dsimp only
    split_ifs <;> simp
  rcases hc' with hc' | hc' | hc' <;> simp only [HandshakeCtrl, hc']
  have hst : (s.step i).fsm.tcpState = s.fsm.tcpState := by simp [step, RxFsmPipe.step, hc, fsmIn]
  rw [pkt_step hr, hst]
  refine ⟨hregs, fun hnew => ?_, fun hnew hn hh => ?_⟩
  · have hnone : s.tcpMem s.fsm.pkt.flowid = .none := hci.1.symm.trans (hctrl.2 hnew).1
    rw [hl, logFsm, hc]
    simp [FlowLog.write, hnone]
  · rcases history_concat hi hg hk (l := [.none]) hh with ⟨hh, -⟩ | ⟨-, -, -, hh⟩
    · rw [hci.1]
      exact tcpMem_of_history h hk (l := [.none]) hh
    · rw [inits_step (.inl (by simp [hc]))] at hn
      have hfirst := (h.none _ hn hh).2.2
      rw [hnew] at hfirst
      cases hfirst

theorem handshakeCtrl_sendPkt (hi : Inv s) (h : HandshakeInv s) (hg : IssueOk s i)
    (hd : DataOk s i) (hc : s.fsm.ctrl = .sendPkt) : HandshakeCtrl (s.step i) := by
  have hr : s.fsm.ctrl ≠ .ready := by simp [hc]
  have hctrl := h.ctrl
  simp only [HandshakeCtrl, hc] at hctrl
  by_cases hy : i.sendRdy = true
  · have hc' : (s.step i).fsm.ctrl = .notifApp ∨ (s.step i).fsm.ctrl = .ready := by
      rw [ctrl_of_sendPkt hc hy]
      dsimp only
      split_ifs <;> simp
    rcases hc' with hc' | hc' <;> simp [HandshakeCtrl, hc']
  · have hf : (s.step i).fsm = s.fsm := by simp [step, RxFsmPipe.step, hc, fsmIn, hy]
    have hl := log_current hi hg hr
    have hregs := regsCurrent_step hi hg hd hr (by simp [hc]) (by rw [hf]) (by rw [hf]) hctrl.1
    simp only [HandshakeCtrl, hf, hc]
    rw [hl, logFsm, hc]
    simp only [if_neg hy]
    exact ⟨hregs, hctrl.2⟩

theorem handshakeCtrl_rdResp (hi : Inv s) (h : HandshakeInv s) (hg : IssueOk s i)
    (hd : DataOk s i) (hc : s.fsm.ctrl = .rxTxStateRdResp) : HandshakeCtrl (s.step i) := by
  have hr : s.fsm.ctrl ≠ .ready := by simp [hc]
  have hctrl := h.ctrl
  simp only [HandshakeCtrl, hc] at hctrl
  by_cases hv : i.stateRespVal = true
  · have hf : (s.step i).fsm =
        { s.fsm with
          rxState := s.rxMem s.fsm.pkt.flowid
          txState := s.txMem s.fsm.pkt.flowid
          ctrl := .stateDec } := by
      simp [step, RxFsmPipe.step, hc, fsmIn, hv]
    simp only [HandshakeCtrl, hf, RegsCurrent]
    refine ⟨fun _ he => ?_, by simp [hctrl]⟩
    have he' : .est ∉ (s.log s.fsm.pkt.flowid).history := fun hm =>
      he (est_mem_step hg (hi.current hr).1 hm)
    rw [rx_step hd he' (.inl (by simp [hc])), tx_step hd he' (.inl (by simp [hc]))]
    exact ⟨rfl, rfl⟩
  · have hf : (s.step i).fsm = s.fsm := by simp [step, RxFsmPipe.step, hc, fsmIn, hv]
    simp only [HandshakeCtrl, hf, hc]
    exact hctrl

theorem handshakeCtrl_step (hi : Inv s) (h : HandshakeInv s) (hg : IssueOk s i)
    (hd : DataOk s i) : HandshakeCtrl (s.step i) := by
  have hctrl := h.ctrl
  have harc := ctrl_mem_arcs (s := s) (i := i)
  cases hc : s.fsm.ctrl <;> simp only [HandshakeCtrl, hc] at hctrl
  case ready => exact handshakeCtrl_ready h hg hc
  case stateDec => exact handshakeCtrl_stateDec hi h hg hd hc
  case initState => exact handshakeCtrl_initState hi h hg hc
  case wrFlowState => exact handshakeCtrl_wrFlowState hi h hg hd hc
  case sendPkt => exact handshakeCtrl_sendPkt hi h hg hd hc
  case rxTxStateRdResp => exact handshakeCtrl_rdResp hi h hg hd hc
  case tcpStateRdReq =>
    by_cases hnew : s.fsm.pkt.newFlow = true
    · have hf : (s.step i).fsm = { s.fsm with tcpState := .none, ctrl := .stateDec } := by
        simp [step, RxFsmPipe.step, hc, hnew]
      have hfirst := firstPkt_step hi hg (.inl hc) (hctrl hnew)
      simp only [HandshakeCtrl, hf, RegsCurrent, hnew]
      exact ⟨(fun h => by cases h), fun _ => ⟨trivial, hfirst⟩⟩
    · have hf : (s.step i).fsm = { s.fsm with ctrl := .tcpStateRdResp } := by
        simp [step, RxFsmPipe.step, hc, hnew]
      simp only [HandshakeCtrl, hf]
      simpa using hnew
  case reinjectPkt | notifApp =>
    simp only [hc, RxFsmPipe.arcs, List.mem_cons, List.not_mem_nil, or_false] at harc
    rcases harc with hc' | hc' <;> simp [HandshakeCtrl, hc']
  case tcpStateRdResp =>
    have hpkt : (s.step i).fsm.pkt = s.fsm.pkt := pkt_step (by simp [hc])
    simp only [hc, RxFsmPipe.arcs, List.mem_cons, List.not_mem_nil, or_false] at harc
    rcases harc with hc' | hc' | hc' | hc' | hc' <;> simp [HandshakeCtrl, hc', hpkt, hctrl]
  case rxTxStateRdReq =>
    have hpkt : (s.step i).fsm.pkt = s.fsm.pkt := pkt_step (by simp [hc])
    simp only [hc, RxFsmPipe.arcs, List.mem_cons, List.not_mem_nil, or_false] at harc
    rcases harc with hc' | hc' <;> simp [HandshakeCtrl, hc', hpkt, hctrl]

/-! ### The flow of an opening -/

/-- `INIT_STATE` works on a flow that is not initialised and has stored no state. -/
theorem HandshakeInv.not_init (h : HandshakeInv s) {f : FlowId}
    (hn : (s.log f).inits ≠ [] ∨ (s.log f).history ≠ [.none]) :
    s.fsm.ctrl ≠ .initState ∨ s.fsm.pkt.flowid ≠ f := by
  by_contra hc
  simp only [not_or, not_not] at hc
  obtain ⟨hc, rfl⟩ := hc
  have hctrl := h.ctrl
  simp only [HandshakeCtrl, hc] at hctrl
  exact hn.elim (· hctrl.2.2.2.1) (· hctrl.2.2.2.2)

theorem Pending.not_aside {f : FlowId} {o : Opening} (h : Pending s o) (hf : o.pkt.flowid = f) :
    ¬ Aside s f := by
  rintro (hr | hp)
  · rw [h.1] at hr
    cases hr
  · exact hp (h.2.1 ▸ hf)

theorem opened_step (hi : Inv s) (h : HandshakeInv s) (hg : IssueOk s i) {f : FlowId}
    {o : Opening} (hk : (s.log f).known = true) (hn : s.tcpMem f ≠ .none) (ho : Opened s f o) :
    Opened (s.step i) f o := by
  have hin := inits_step (i := i) (h.not_init (f := f) (.inl (by simp [ho.inits])))
  refine ⟨ho.flowid, ho.syn, hin.trans ho.inits, ?_⟩
  by_cases ha : Aside s f
  · rw [(log_aside (alloc_ne hg hk) ha).2.2]
    exact .inl (ho.answered.resolve_right fun hp => hp.2.not_aside ho.flowid ha)
  · simp only [Aside, not_or, not_not] at ha
    obtain ⟨hr, rfl⟩ := ha
    rw [log_current hi hg hr]
    rcases ho.answered with hs | ⟨hnil, hp⟩
    · left
      unfold logFsm FlowLog.write
      cases hc : s.fsm.ctrl <;> simp only [if_neg hn] <;> try exact hs
      all_goals split <;> simp [hs]
    · simp only [logFsm, hp.1]
      by_cases hy : i.sendRdy = true
      · simp only [if_pos hy, hnil, List.nil_append, List.head?_cons]
        rw [hp.2.1, hp.2.2]
        exact .inl rfl
      · have hf : (s.step i).fsm = s.fsm := by simp [step, RxFsmPipe.step, hp.1, fsmIn, hy]
        simp only [if_neg hy]
        exact .inr ⟨hnil, by rw [Pending, hf]; exact hp⟩

/-- An answer in `TCP_SYN_RECV` that does not complete the handshake. -/
theorem decided_synRecv {m : RxFsmPipe} (h : Decided m) (hs : m.tcpState = .synRecv)
    (hn : m.nextFlowState = .synRecv) :
    m.sendTcpHdr = synAckHdr m.pkt.tcpHdr m.txState.txCurrSeqNum m.rxState.rxCurrAckNum := by
  cases h.outcome with
  | answers _ _ _ _ hdr => exact hdr
  | completes _ next => simp [next] at hn
  | opens _ curr | ignores curr => simp [curr] at hs
  | beyond _ hne => exact absurd hs hne

/-- The decision that leaves `TCP_NONE`. -/
theorem decided_none {m : RxFsmPipe} (h : Decided m) (hs : m.tcpState = .none)
    (hn : m.nextFlowState ≠ .none) :
    m.nextFlowState = .synRecv ∧ m.sendPktVal = true ∧ m.pkt.tcpHdr.flags = tcpSyn ∧
      ∃ n, m.sendTcpHdr = synAckHdr m.pkt.tcpHdr n (m.pkt.tcpHdr.seqNum + 1) := by
  cases h.outcome with
  | opens n _ syn next send _ hdr => exact ⟨next, send, syn, n, hdr⟩
  | ignores _ next => exact absurd next hn
  | completes curr | answers curr => simp [curr] at hs
  | beyond hne => exact absurd hs hne

/-- The answers of a flow that waits for the end of the handshake. -/
theorem rest_step (hi : Inv s) (h : HandshakeInv s) (hg : IssueOk s i) {o : Opening}
    (hr : s.fsm.ctrl ≠ .ready) (hh : (s.log s.fsm.pkt.flowid).history = [.none, .synRecv])
    (hst : s.tcpMem s.fsm.pkt.flowid = .synRecv) (hw : Waiting s s.fsm.pkt.flowid o) :
    ∀ a ∈ ((s.step i).log s.fsm.pkt.flowid).answers.tail,
      a.2.seqNum = o.seqNum + 1 ∧ a.2.ackNum = o.pkt.tcpHdr.seqNum + 1 := by
  rcases answers_current hi hg hr with ha | ⟨-, hn, -⟩ | ⟨hc, -, ha⟩
  · rw [ha]
    exact hw.rest
  · rw [hst] at hn
    cases hn
  · rw [ha]
    rcases hw.answered with hs | ⟨hnil, -⟩
    · -- a later answer: the packet is not the flow's first
      have hctrl := h.ctrl
      have hci := hi.ctrl
      simp only [HandshakeCtrl, hc] at hctrl
      simp only [CtrlOk, hc] at hci
      have hnew : s.fsm.pkt.newFlow = false := by
        by_contra hn
        rw [hctrl.2.1 (by simpa using hn)] at hs
        cases hs
      obtain ⟨hrx, htx⟩ := hctrl.1 hnew (by simp [hh])
      have hans := decided_synRecv hci.2 (hctrl.2.2 hnew (by simp [hw.inits]) hh)
        (hci.1.symm.trans hst)
      intro a hmem
      obtain ⟨b, l, hl⟩ : ∃ b l, (s.log s.fsm.pkt.flowid).answers = b :: l := by
        cases hl : (s.log s.fsm.pkt.flowid).answers with
        | nil => simp [hl] at hs
        | cons b l => exact ⟨b, l, rfl⟩
      rw [hl] at hmem
      have hrest := hw.rest
      rw [hl] at hrest
      rcases List.mem_append.mp hmem with hm | hm
      · exact hrest a hm
      · rw [List.mem_singleton] at hm
        rw [hm, hans]
        exact ⟨htx.trans hw.tx, hrx.trans hw.rx⟩
    · simp [hnil]

theorem waiting_step (hi : Inv s) (h : HandshakeInv s) (hg : IssueOk s i) (hd : DataOk s i)
    {f : FlowId} {o : Opening} (hk : (s.log f).known = true)
    (hh : (s.log f).history = [.none, .synRecv]) (hw : Waiting s f o) :
    Waiting (s.step i) f o := by
  have hne : (s.log f).inits ≠ [] := by simp [hw.inits]
  have hinit := h.not_init (.inl hne)
  have hest : .est ∉ (s.log f).history := by simp [hh]
  have hst : s.tcpMem f = .synRecv := by
    have hlast := h.last f hk
    rw [hh] at hlast
    simpa using hlast.symm
  refine ⟨opened_step hi h hg hk (by simp [hst]) hw.toOpened, ?_, ?_, ?_⟩
  · rw [rx_step hd hest hinit]
    exact hw.rx
  · rw [tx_step hd hest hinit]
    exact hw.tx
  · by_cases ha : Aside s f
    · rw [(log_aside (alloc_ne hg hk) ha).2.2]
      exact hw.rest
    · simp only [Aside, not_or, not_not] at ha
      obtain ⟨hr, rfl⟩ := ha
      exact rest_step hi h hg hr hh hst hw

/-- The first packet of a flow stores `TCP_SYN_RECV`. -/
theorem waiting_open (hi : Inv s) (h : HandshakeInv s) (hg : IssueOk s i) (hd : DataOk s i)
    (hc : s.fsm.ctrl = .wrFlowState) (hnew : s.fsm.pkt.newFlow = true)
    (hn : s.fsm.nextFlowState ≠ .none) : ∃ o, Waiting (s.step i) s.fsm.pkt.flowid o := by
  have hr : s.fsm.ctrl ≠ .ready := by simp [hc]
  have hk := (hi.current hr).1
  have hctrl := h.ctrl
  have hci := hi.ctrl
  simp only [HandshakeCtrl, hc] at hctrl
  simp only [CtrlOk, hc] at hci
  obtain ⟨hst, hhist, -, hwr⟩ := hctrl.2 hnew
  obtain ⟨hin, hrx, htx⟩ := hwr hn
  obtain ⟨-, hsend, hsyn, n, hans⟩ := decided_none hci.2 hst hn
  have hinit : s.fsm.ctrl ≠ .initState ∨ s.fsm.pkt.flowid ≠ s.fsm.pkt.flowid :=
    .inl (by simp [hc])
  have hest : .est ∉ (s.log s.fsm.pkt.flowid).history := by simp [hhist]
  have hf : (s.step i).fsm = { s.fsm with ctrl := .sendPkt } := by
    simp [step, RxFsmPipe.step, hc, fsmIn, hsend]
  have hnil : ((s.step i).log s.fsm.pkt.flowid).answers = [] := by
    rw [log_current hi hg hr, logFsm, hc]
    simp [FlowLog.write, ← hci.1, hst]
  refine ⟨⟨s.fsm.pkt, n⟩, ⟨rfl, hsyn, ?_, ?_⟩, ?_, ?_, ?_⟩
  · rw [inits_step hinit, hin]
    simp [newFlowInit, Opening.init, RxFsmPipe.rxStateInit, RxFsmPipe.txStateInit,
      RxFsmPipe.flowLookupInit, hans, synAckHdr]
  · exact .inr ⟨hnil, by simp [Pending, hf, hans, Opening.synAck]⟩
  · rw [rx_step hd hest hinit, hrx]
    simp [RxFsmPipe.rxStateInit, hans, synAckHdr]
  · rw [tx_step hd hest hinit, htx]
    simp [RxFsmPipe.txStateInit, hans, synAckHdr]
  · simp [hnil]

theorem last_step (hi : Inv s) (h : HandshakeInv s) (hg : IssueOk s i) {f : FlowId}
    (hk : (s.log f).known = true) :
    ((s.step i).log f).history.getLast? = some ((s.step i).tcpMem f) := by
  rw [tcpMem_step hg hk]
  rcases history_step hi hg hk with ⟨hh, hsame⟩ | ⟨hw, hp, -, hh⟩
  · rw [hh, h.last f hk]
    by_cases hc : s.fsm.ctrl = .wrFlowState ∧ s.fsm.pkt.flowid = f
    · rw [if_pos hc, hsame hc.1 hc.2]
    · rw [if_neg hc]
  · rw [hh, if_pos ⟨hw, hp⟩]
    simp

theorem none_step (hi : Inv s) (h : HandshakeInv s) (hg : IssueOk s i) {f : FlowId}
    (hk : (s.log f).known = true) (hn : ((s.step i).log f).inits ≠ [])
    (hh : ((s.step i).log f).history = [.none]) :
    (s.step i).fsm.ctrl = .wrFlowState ∧ (s.step i).fsm.pkt.flowid = f ∧
      (s.step i).fsm.pkt.newFlow = true := by
  have hctrl := h.ctrl
  by_cases hinit : s.fsm.ctrl = .initState ∧ s.fsm.pkt.flowid = f
  · obtain ⟨hc, rfl⟩ := hinit
    simp only [HandshakeCtrl, hc] at hctrl
    rw [pkt_step (by simp [hc])]
    exact ⟨by simp [step, RxFsmPipe.step, hc, fsmIn], rfl, hctrl.1⟩
  · rw [inits_step (by rwa [← not_and_or])] at hn
    exfalso
    rcases history_concat hi hg hk (l := []) hh with ⟨hh, hnext⟩ | ⟨-, -, -, hnil⟩
    · -- the first packet stored `TCP_NONE`, so it was no SYN
      obtain ⟨hc, rfl, hnew⟩ := h.none f hn hh
      simp only [HandshakeCtrl, hc] at hctrl
      refine hn ((hctrl.2 hnew).2.2.1 ?_)
      exact (hnext hc rfl).trans (tcpMem_of_history h hk hh)
    · have hlast := h.last f hk
      rw [hnil] at hlast
      cases hlast

theorem synRecv_step (hi : Inv s) (h : HandshakeInv s) (hg : IssueOk s i) (hd : DataOk s i)
    {f : FlowId} (hk : (s.log f).known = true) (hn : ((s.step i).log f).inits ≠ [])
    (hh : ((s.step i).log f).history = [.none, .synRecv]) : ∃ o, Waiting (s.step i) f o := by
  rcases history_concat hi hg hk (l := [.none]) hh with ⟨hh, -⟩ | ⟨hc, rfl, hnext, hh⟩
  · rw [inits_step (h.not_init (.inr (by simp [hh])))] at hn
    obtain ⟨o, ho⟩ := h.synRecv f hn hh
    exact ⟨o, waiting_step hi h hg hd hk hh ho⟩
  · rw [inits_step (.inl (by simp [hc]))] at hn
    exact waiting_open hi h hg hd hc (h.none _ hn hh).2.2 (by simp [hnext])

theorem est_step (hi : Inv s) (h : HandshakeInv s) (hg : IssueOk s i) {f : FlowId}
    (hk : (s.log f).known = true) (hn : ((s.step i).log f).inits ≠ [])
    (hh : ((s.step i).log f).history = [.none, .synRecv, .est]) :
    ∃ o, Opened (s.step i) f o := by
  rcases history_concat hi hg hk (l := [.none, .synRecv]) hh with ⟨hh, -⟩ | ⟨hc, rfl, -, hh⟩
  · rw [inits_step (h.not_init (.inr (by simp [hh])))] at hn
    obtain ⟨o, ho⟩ := h.est f hn hh
    have hst := tcpMem_of_history h hk (l := [.none, .synRecv]) hh
    exact ⟨o, opened_step hi h hg hk (by simp [hst]) ho⟩
  · rw [inits_step (.inl (by simp [hc]))] at hn
    obtain ⟨o, ho⟩ := h.synRecv _ hn hh
    have hst := tcpMem_of_history h hk (l := [.none]) hh
    exact ⟨o, opened_step hi h hg hk (by simp [hst]) ho.toOpened⟩

/-! ### Flows before their first packet -/

theorem unseen_of_step {f : FlowId} (hs : ((s.step i).log f).seen = false) :
    (s.log f).seen = false := by
  by_contra hn
  rw [seen_step (by simpa using hn)] at hs
  cases hs

theorem aside_of_unseen (hi : Inv s) {f : FlowId} (hs : ((s.step i).log f).seen = false) :
    Aside s f := by
  by_contra hf
  simp only [Aside, not_or, not_not] at hf
  obtain ⟨hr, rfl⟩ := hf
  rw [seen_step (hi.current hr).2] at hs
  cases hs

theorem born_step (h : HandshakeInv s) (hg : IssueOk s i) {f : FlowId}
    (hs : ((s.step i).log f).seen = true) : ((s.step i).log f).known = true := by
  by_cases ha : i.alloc = some f
  · rw [log_alloc ha]
  · rw [known_step ha]
    by_cases hold : (s.log f).seen = true
    · exact h.born f hold
    · rw [log_step ha] at hs
      split at hs
      · rename_i hr
        split at hs
        · rename_i hm
          obtain ⟨p, hp, rfl⟩ := Option.map_eq_some_iff.mp hm
          exact (hg.2 hr p hp).1
        · exact absurd hs hold
      · split at hs
        · rw [logFsm_seen] at hs
          exact absurd hs hold
        · exact absurd hs hold

/-- A flow that is being allocated has not been initialised. -/
theorem inits_of_alloc (h : HandshakeInv s) (hg : IssueOk s i) {f : FlowId}
    (ha : i.alloc = some f) : ((s.step i).log f).inits = [] := by
  rw [log_alloc ha]
  refine h.fresh f ?_
  by_contra hs
  have hk := h.born f (by simpa using hs)
  exact alloc_ne hg hk ha

theorem fresh_step (hi : Inv s) (h : HandshakeInv s) (hg : IssueOk s i) {f : FlowId}
    (hs : ((s.step i).log f).seen = false) : ((s.step i).log f).inits = [] := by
  by_cases ha : i.alloc = some f
  · exact inits_of_alloc h hg ha
  · rw [(log_aside ha (aside_of_unseen hi hs)).2.1]
    exact h.fresh f (unseen_of_step hs)

theorem handshakeInv_step (hi : Inv s) (h : HandshakeInv s) (hg : IssueOk s i)
    (hd : DataOk s i) : HandshakeInv (s.step i) := by
  have hold : ∀ f, ((s.step i).log f).inits ≠ [] → (s.log f).known = true := by
    intro f hn
    rw [← known_step fun ha => hn (inits_of_alloc h hg ha)]
    refine born_step h hg ?_
    by_contra hs
    exact hn (fresh_step hi h hg (by simpa using hs))
  refine ⟨handshakeCtrl_step hi h hg hd, fun f => born_step h hg, fun f => fresh_step hi h hg,
    ?_, ?_, ?_, ?_, ?_⟩
  · intro f hk hs
    by_cases ha : i.alloc = some f
    · rw [log_alloc ha]
    · rw [(log_aside ha (aside_of_unseen hi hs)).1]
      exact h.start f (known_step ha ▸ hk) (unseen_of_step hs)
  · intro f hk
    by_cases ha : i.alloc = some f
    · rw [tcpMem_alloc hg ha, log_alloc ha]
      rfl
    · exact last_step hi h hg (known_step ha ▸ hk)
  · exact fun f hn hh => none_step hi h hg (hold f hn) hn hh
  · exact fun f hn hh => synRecv_step hi h hg hd (hold f hn) hn hh
  · exact fun f hn hh => est_step hi h hg (hold f hn) hn hh

theorem handshakeInv_init (h : s.Init) : HandshakeInv s := by
  obtain ⟨hf, -, -, hl⟩ := h
  constructor
  · simp [HandshakeCtrl, hf, RxFsmPipe.reset]
  all_goals simp [hl, emptyLog]

theorem handshakeInv_of_reach {ok : FsmSystem → FsmSystemIn → Prop}
    (h : Reach Init cycle ok s) : HandshakeInv s := by
  refine h.invariant_of (fun _ => inv_of_reach) (fun _ => handshakeInv_init) ?_
  intro s i s' hi hh _ hs
  obtain ⟨⟨hg, hd⟩, rfl⟩ := cycle_eq_some hs
  exact handshakeInv_step hi hh hg hd

end TcpHw.FsmSystem
