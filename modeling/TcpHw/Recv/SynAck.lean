import TcpHw.Recv.Handshake

/-!
# The SYN-ACKs of one connection

The first SYN-ACK carries a number drawn from the generator, and the flow's transmit state
starts one past it, since the SYN counts as one byte. A later answer in `TCP_SYN_RECV`
takes its number from the transmit state.
-/
namespace TcpHw.FsmSystem

open Trace

set_option autoImplicit false

/-- The header `hdr` is a SYN with the sequence number of `first`. -/
def SameSyn (first hdr : TcpPktHdr) : Prop := hdr.flags = tcpSyn ∧ hdr.seqNum = first.seqNum

instance (first hdr : TcpPktHdr) : Decidable (SameSyn first hdr) :=
  inferInstanceAs (Decidable (_ ∧ _))

/-- Every SYN of the connection with the number of the first was answered with the numbers of
the first answer. -/
def SameSynAck (s : FsmSystem) (f : FlowId) : Prop :=
  ∀ first ∈ (s.log f).answers.head?, ∀ a ∈ (s.log f).answers, SameSyn first.1 a.1 →
    a.2.seqNum = first.2.seqNum ∧ a.2.ackNum = first.2.ackNum

instance (s : FsmSystem) (f : FlowId) : Decidable (SameSynAck s f) :=
  inferInstanceAs (Decidable (∀ _, _ → _))

/-- The packet in hand repeats the SYN that was answered first. -/
def Again (s : FsmSystem) : Prop :=
  ∃ first ∈ (s.log s.fsm.pkt.flowid).answers.head?, SameSyn first.1 s.fsm.pkt.tcpHdr

/-- The FSM is not about to answer a repeated SYN from the stored numbers. -/
def NoSynAgain (s : FsmSystem) (_ : FsmSystemIn) : Prop :=
  s.fsm.ctrl = .stateDec → s.fsm.tcpState = .synRecv → ¬ Again s

instance (s : FsmSystem) : Decidable (Again s) := inferInstanceAs (Decidable (∃ _, _ ∧ _))

instance (s : FsmSystem) (i : FsmSystemIn) : Decidable (NoSynAgain s i) :=
  inferInstanceAs (Decidable (_ → _))

variable {s : FsmSystem} {i : FsmSystemIn}

/-! ### Runs without a repeated SYN -/

/-- No answer after the first went to a repeated SYN, and none will go to the packet in hand. -/
structure OnceInv (s : FsmSystem) : Prop where
  decided : s.fsm.ctrl = .initState ∨ s.fsm.ctrl = .wrFlowState → s.fsm.tcpState = .synRecv →
    ¬ Again s
  sending : s.fsm.ctrl = .sendPkt → (s.log s.fsm.pkt.flowid).answers = [] ∨ ¬ Again s
  tail : ∀ f, ∀ first ∈ (s.log f).answers.head?, ∀ a ∈ (s.log f).answers.tail,
    ¬ SameSyn first.1 a.1

theorem OnceInv.same (h : OnceInv s) (f : FlowId) : SameSynAck s f := by
  intro first hf a ha hs
  have htail := h.tail f first hf a
  cases hl : (s.log f).answers with
  | nil => simp [hl] at ha
  | cons b l =>
    rw [hl] at hf ha htail
    rcases List.mem_cons.mp ha with rfl | ha
    · cases hf
      exact ⟨rfl, rfl⟩
    · exact absurd hs (htail ha)

theorem answers_aside {f : FlowId} (hf : Aside s f) :
    ((s.step i).log f).answers = (s.log f).answers := by
  by_cases ha : i.alloc = some f
  · rw [log_alloc ha]
  · exact (log_aside ha hf).2.2

/-- Only flows in `TCP_NONE` and `TCP_SYN_RECV` are answered. -/
theorem decided_send {m : RxFsmPipe} (h : Decided m) (hs : m.sendPktVal = true) :
    m.tcpState = .none ∨ m.tcpState = .synRecv := by
  cases h.outcome with
  | opens _ curr | ignores curr => exact .inl curr
  | completes curr | answers curr => exact .inr curr
  | beyond _ _ _ send =>
    rw [send] at hs
    cases hs

/-- The packet in hand repeats the first SYN after a cycle that adds no answer only if it
did before. -/
theorem again_of_step (hr : s.fsm.ctrl ≠ .ready)
    (ha : ((s.step i).log s.fsm.pkt.flowid).answers = (s.log s.fsm.pkt.flowid).answers)
    (h : Again (s.step i)) : Again s := by
  unfold Again at h
  rwa [pkt_step hr, ha] at h

theorem onceInv_decided (hi : Inv s) (h : OnceInv s) (hg : IssueOk s i) (hn : NoSynAgain s i)
    (hc' : (s.step i).fsm.ctrl = .initState ∨ (s.step i).fsm.ctrl = .wrFlowState)
    (hs : (s.step i).fsm.tcpState = .synRecv) : ¬ Again (s.step i) := by
  obtain ⟨hc, hkeep⟩ := decided_origin hc'
  have hr : s.fsm.ctrl ≠ .ready := by rcases hc with hc | hc <;> simp [hc]
  have ha : ((s.step i).log s.fsm.pkt.flowid).answers = (s.log s.fsm.pkt.flowid).answers := by
    rcases answers_current hi hg hr with ha | ⟨hw, -, -⟩ | ⟨hw, -, -⟩
    · exact ha
    all_goals simp [hw] at hc
  have hst : s.fsm.tcpState = .synRecv := hkeep.symm.trans hs
  rcases hc with hc | hc
  · exact fun hag => hn hc hst (again_of_step hr ha hag)
  · exact fun hag => h.decided (.inl hc) hst (again_of_step hr ha hag)

theorem onceInv_sending (hi : Inv s) (h : OnceInv s) (hg : IssueOk s i)
    (hc' : (s.step i).fsm.ctrl = .sendPkt) :
    ((s.step i).log (s.step i).fsm.pkt.flowid).answers = [] ∨ ¬ Again (s.step i) := by
  have hci := hi.ctrl
  have hc : (s.fsm.ctrl = .wrFlowState ∧ s.fsm.sendPktVal = true) ∨ s.fsm.ctrl = .sendPkt := by
    have harc := ctrl_mem_arcs (s := s) (i := i)
    rw [hc'] at harc
    cases hc : s.fsm.ctrl with
    | sendPkt => exact .inr rfl
    | wrFlowState =>
      rw [ctrl_of_wrFlowState hc] at hc'
      dsimp only at hc'
      split_ifs at hc' with hv
      exact .inl ⟨rfl, hv⟩
    | ready | tcpStateRdReq | tcpStateRdResp | reinjectPkt | rxTxStateRdReq | rxTxStateRdResp
    | stateDec | initState | notifApp => simp [hc, RxFsmPipe.arcs] at harc
  have hr : s.fsm.ctrl ≠ .ready := by rcases hc with ⟨hc, -⟩ | hc <;> simp [hc]
  rw [pkt_step hr]
  rcases hc with ⟨hc, hv⟩ | hc
  · simp only [CtrlOk, hc] at hci
    rcases answers_current hi hg hr with ha | ⟨-, -, ha⟩ | ⟨hw, -, -⟩
    · rcases decided_send hci.2 hv with hst | hst
      · left
        rw [log_current hi hg hr, logFsm, hc]
        simp [FlowLog.write, ← hci.1, hst]
      · exact .inr fun hag => h.decided (.inr hc) hst (again_of_step hr ha hag)
    · exact .inl ha
    · simp [hw] at hc
  · rcases answers_current hi hg hr with ha | ⟨hw, -, -⟩ | ⟨-, hn, -⟩
    · rw [ha]
      exact (h.sending hc).imp_right fun hn hag => hn (again_of_step hr ha hag)
    · simp [hw] at hc
    · exact absurd hc' hn

theorem onceInv_step (hi : Inv s) (h : OnceInv s) (hg : IssueOk s i) (hn : NoSynAgain s i) :
    OnceInv (s.step i) := by
  refine ⟨onceInv_decided hi h hg hn, onceInv_sending hi h hg, ?_⟩
  intro f
  by_cases hf : Aside s f
  · rw [answers_aside hf]
    exact h.tail f
  · simp only [Aside, not_or, not_not] at hf
    obtain ⟨hr, rfl⟩ := hf
    rcases answers_current hi hg hr with ha | ⟨-, -, ha⟩ | ⟨hc, -, ha⟩
    · rw [ha]
      exact h.tail _
    · simp [ha]
    · rw [ha]
      have htail := h.tail s.fsm.pkt.flowid
      have hsend := h.sending hc
      unfold Again at hsend
      cases hl : (s.log s.fsm.pkt.flowid).answers with
      | nil => simp
      | cons b l =>
        rw [hl] at htail hsend
        have hno := hsend.resolve_left (List.cons_ne_nil _ _)
        intro first hfirst a hmem hsame
        rcases List.mem_append.mp hmem with hm | hm
        · exact htail first hfirst a hm hsame
        · rw [List.mem_singleton] at hm
          rw [hm] at hsame
          exact hno ⟨first, hfirst, hsame⟩

theorem onceInv_init (h : s.Init) : OnceInv s := by
  obtain ⟨hf, -, -, hl⟩ := h
  constructor <;> simp [hf, hl, RxFsmPipe.reset, emptyLog]

theorem onceInv_of_reach (h : Reach Init cycle NoSynAgain s) : OnceInv s := by
  refine h.invariant_of (fun _ => inv_of_reach) (fun _ => onceInv_init) ?_
  intro s i s' hi ho hn hs
  obtain ⟨⟨hg, -⟩, rfl⟩ := cycle_eq_some hs
  exact onceInv_step hi ho hg hn

/-! ### The second answer -/

/-- In the first attempt every answer after the first is one past it, so the property ends
with the first repeated SYN. -/
theorem Waiting.same_iff {f : FlowId} {o : Opening} (h : Waiting s f o) :
    SameSynAck s f ↔ ∀ first ∈ (s.log f).answers.head?, ∀ a ∈ (s.log f).answers.tail,
      ¬ SameSyn first.1 a.1 := by
  rcases h.answered with hs | ⟨hnil, -⟩
  · cases hl : (s.log f).answers with
    | nil => simp [hl] at hs
    | cons b l =>
      have hrest := h.rest
      rw [hl] at hs hrest
      cases hs
      simp only [SameSynAck, hl, List.head?_cons, Option.mem_some_iff, forall_eq', List.tail_cons]
      constructor
      · intro hsame a ha hag
        have he := (hsame a (List.mem_cons_of_mem _ ha) hag).1
        rw [(hrest a ha).1] at he
        simp [Opening.synAck, synAckHdr] at he
      · intro hno a ha hag
        rcases List.mem_cons.mp ha with rfl | ha
        · exact ⟨rfl, rfl⟩
        · exact absurd hag (hno a ha)
  · simp [SameSynAck, hnil]

/-- In every run in which no SYN is repeated before the handshake ends, the SYN-ACKs of a
flow agree; and for a flow opened by its first packet they agree only as long as no repeated
SYN has been answered. -/
theorem sameSynAck_iff_noSynAgain (s : FsmSystem) (f : FlowId) :
    (Reach Init cycle NoSynAgain s → s.tcpMem f = .synRecv → SameSynAck s f) ∧
      (Reach Init cycle Free s → (s.log f).inits ≠ [] →
        (s.log f).history = [.none, .synRecv] →
          (SameSynAck s f ↔ ∀ first ∈ (s.log f).answers.head?, ∀ a ∈ (s.log f).answers.tail,
            ¬ SameSyn first.1 a.1)) := by
  constructor
  · intro hr _
    exact (onceInv_of_reach hr).same f
  · intro hr hn hh
    obtain ⟨o, ho⟩ := (handshakeInv_of_reach hr).synRecv f hn hh
    exact ho.same_iff

/-- A client that opens flow 2 with a SYN at 100 and then sends `again`. -/
def openWith (again : FsmPkt) : List FsmSystemIn :=
  smooth (some 2) none :: smooth none (some (pktOf true tcpSyn 100 0)) :: idle 5 ++
    smooth none (some again) :: idle 6

/-- Two answers, to the SYN and to an acknowledgement of the wrong number; and two to the
same SYN. -/
theorem sameSynAck_iff_noSynAgain_open :
    (∃ s, Reach Init cycle NoSynAgain s ∧ (s.log 2).answers.length = 2 ∧ SameSynAck s 2) ∧
      ∃ s, Reach Init cycle Free s ∧ (s.log 2).answers.length = 2 ∧ ¬ SameSynAck s 2 := by
  have hack : ∃ s, Reach Init cycle NoSynAgain s ∧
      decide (s.tcpMem 2 = .synRecv ∧ (s.log 2).answers.length = 2) = true :=
    Reach.exists_of_run (openWith (pktOf false tcpAck 101 7)) reset_init (by decide +kernel)
  have hsyn : ∃ s, Reach Init cycle Free s ∧
      decide ((s.log 2).inits ≠ [] ∧ (s.log 2).history = [.none, .synRecv] ∧
        (s.log 2).answers.length = 2 ∧ ¬ ∀ first ∈ (s.log 2).answers.head?,
          ∀ a ∈ (s.log 2).answers.tail, ¬ SameSyn first.1 a.1) = true :=
    Reach.exists_of_run (openWith (pktOf false tcpSyn 100 0)) reset_init (by decide +kernel)
  obtain ⟨s, hr, hp⟩ := hack
  obtain ⟨t, ht, hq⟩ := hsyn
  rw [decide_eq_true_iff] at hp hq
  refine ⟨⟨s, hr, hp.2, (sameSynAck_iff_noSynAgain s 2).1 hr hp.1⟩, t, ht, hq.2.2.1, ?_⟩
  rw [(sameSynAck_iff_noSynAgain t 2).2 ht hq.1 hq.2.1]
  exact hq.2.2.2

/-- The answer to a repeated SYN carries the next sequence number. -/
theorem sameSynAck_repeated : ¬ ∀ s, Reach Init cycle Free s → ∀ f, s.tcpMem f = .synRecv →
    SameSynAck s f := by
  intro h
  have hrun : ∃ s, Reach Init cycle Free s ∧
      decide (s.tcpMem 2 = .synRecv ∧ ¬ SameSynAck s 2) = true :=
    Reach.exists_of_run (openWith (pktOf false tcpSyn 100 0)) reset_init (by decide +kernel)
  obtain ⟨s, hr, hp⟩ := hrun
  rw [decide_eq_true_iff] at hp
  exact hp.2 (h s hr 2 hp.1)

end TcpHw.FsmSystem
