import TcpHw.Lib.Trace
import TcpHw.Recv.EstCompute
import TcpHw.Send.Numbering

/-!
# The transmit state shared by the send and receive pipes

One flow's entries of `tx_state_store` and of the transmit pointer memories, seen
through the atomic accesses of their users. `protocol_logic_pipe` reads everything
in stage N and writes the sequence number and the timer in stage W. `est_pipe`
reads in stage C and writes the acknowledgement state and the head pointer in its
stage W. The two write different halves, so each may work on a state the other has
already changed.
-/
namespace TcpHw.TxSequence

open Trace

set_option autoImplicit false

/-- The state of a live flow. A pass that has read and not yet written sits in
`sendPass`, a packet of `est_pipe` in `estPass`. `emitted` is not a register: it is
one past the highest sequence number handed to the assembler. -/
structure TxFlow where
  txState : TxState
  headPtr : Ptr
  tailPtr : Ptr
  sendPass : Option (RtTimeoutFlags × Numbered)
  estPass : Option TxAckOut
  emitted : BitVec 32
  deriving DecidableEq

def TxFlow.seqNum (f : TxFlow) : BitVec 32 := f.txState.txCurrSeqNum
def TxFlow.ackNum (f : TxFlow) : BitVec 32 := f.txState.txCurrAckState.txCurrAckNum

inductive TxAct where
  | newFlow (initSeqNum : BitVec 32)
  | sendRead (flags : RtTimeoutFlags) (timestamp : BitVec 64)
  | sendWrite
  | estRead (pktAckNum : BitVec 32)
  | estWrite
  | appTail (tailPtr : Ptr)

/-- `tx_state_init` of `rx_fsm_pipe` with the two pointers `tcp_engine_wrapper` derives. -/
def initFlow (initSeqNum : BitVec 32) : TxFlow where
  txState :=
    { txCurrSeqNum := initSeqNum
      timer := { timestamp := 0, timerArmed := false }
      txCurrAckState := { txCurrAckCnt := 0, txCurrAckNum := initSeqNum } }
  headPtr := initSeqNum.setWidth 13
  tailPtr := initSeqNum.setWidth 13
  sendPass := none
  estPass := none
  emitted := initSeqNum

/-- The higher of two sequence numbers in modular order. -/
def seqMax (a b : BitVec 32) : BitVec 32 := if (b - a).toNat < 2 ^ 31 then b else a

/-- Stage W of `protocol_logic_pipe`: the assembler takes the packet in the cycle in
which the state is written. -/
def TxFlow.writeBack (f : TxFlow) (n : Numbered) : TxFlow :=
  { f with
    txState := { n.nextTxData with txCurrAckState := f.txState.txCurrAckState }
    sendPass := none
    emitted :=
      if n.generatePkt then
        seqMax f.emitted (n.txPktSeqNum + n.payloadBuf.payloadLen.setWidth 32)
      else f.emitted }

/-- Stage W of `est_pipe`. -/
def TxFlow.writeAck (f : TxFlow) (o : TxAckOut) : TxFlow :=
  { f with
    txState := { f.txState with txCurrAckState := o.nextAckState }
    headPtr := o.nextHeadPtr
    estPass := none }

/-- What stage C of `est_pipe` computes for an acknowledgement number. -/
def TxFlow.ackOut (f : TxFlow) (pktAckNum : BitVec 32) : TxAckOut :=
  txAckEngine f.ackNum pktAckNum f.seqNum f.txState.txCurrAckState.txCurrAckCnt

/-- The peer acknowledges only what was emitted. -/
def peerOk (f : TxFlow) (pktAckNum : BitVec 32) : Prop :=
  (f.emitted - pktAckNum).toNat < 2 ^ 31

/-- The application enqueues bytes, at most up to a full ring. -/
def appOk (f : TxFlow) (tailPtr : Ptr) : Prop :=
  (f.tailPtr - f.headPtr).toNat ≤ (tailPtr - f.headPtr).toNat ∧
    (tailPtr - f.headPtr).toNat ≤ ringBytes

instance (f : TxFlow) (p : BitVec 32) : Decidable (peerOk f p) :=
  inferInstanceAs (Decidable (_ < _))

instance (f : TxFlow) (t : Ptr) : Decidable (appOk f t) := inferInstanceAs (Decidable (_ ∧ _))

/-- One atomic access to a live flow. A pipe holds one packet of the flow between its
read and its write. -/
def TxFlow.step (f : TxFlow) : TxAct → Option TxFlow
  | .newFlow _ => none
  | .sendRead flags now =>
    if f.sendPass.isNone then
      some { f with sendPass := some (flags, numbering flags f.txState f.tailPtr now) }
    else none
  | .sendWrite => f.sendPass.map fun p => f.writeBack p.2
  | .estRead p =>
    if f.estPass.isNone ∧ peerOk f p then some { f with estPass := some (f.ackOut p) } else none
  | .estWrite => f.estPass.map f.writeAck
  | .appTail t => if appOk f t then some { f with tailPtr := t } else none

/-- The flow's entries hold nothing until the handshake initialises them. -/
def txStep : Option TxFlow → TxAct → Option (Option TxFlow)
  | none, .newFlow n => some (some (initFlow n))
  | none, _ => none
  | some f, a => (f.step a).map some

/-- Acknowledged number, next sequence number and tail in modular order, within one ring,
and the head pointer a copy of the acknowledged number. -/
def TxOrdered (f : TxFlow) : Prop :=
  (f.seqNum - f.ackNum).toNat ≤ (f.tailPtr - f.ackNum.setWidth 13).toNat ∧
    (f.tailPtr - f.ackNum.setWidth 13).toNat ≤ ringBytes ∧
    f.headPtr = f.ackNum.setWidth 13

instance (f : TxFlow) : Decidable (TxOrdered f) := inferInstanceAs (Decidable (_ ∧ _ ∧ _))

/-! ### Distances from the acknowledged number -/

/-- Bytes from the stored acknowledged number to `x`. -/
def TxFlow.dist (f : TxFlow) (x : BitVec 32) : Nat := (x - f.ackNum).toNat

/-- Bytes from the stored acknowledged number to the tail. -/
def TxFlow.room (f : TxFlow) : Nat := (f.tailPtr - f.ackNum.setWidth 13).toNat

private theorem dist_advance {ack a x : BitVec 32} (h : (a - ack).toNat ≤ (x - ack).toNat) :
    (x - a).toNat = (x - ack).toNat - (a - ack).toNat := by
  bv_omega

private theorem room_advance {ack a : BitVec 32} {tail : Ptr}
    (h : (a - ack).toNat ≤ (tail - ack.setWidth 13).toNat) :
    (tail - a.setWidth 13).toNat = (tail - ack.setWidth 13).toNat - (a - ack).toNat := by
  bv_omega

private theorem dist_segment {ack s : BitVec 32} {tail seg : Ptr}
    (hs : (s - ack).toNat ≤ (tail - ack.setWidth 13).toNat)
    (hg : seg.toNat ≤ (tail - s.setWidth 13).toNat) :
    (s + seg.setWidth 32 - ack).toNat = (s - ack).toNat + seg.toNat ∧
      (s - ack).toNat + seg.toNat ≤ (tail - ack.setWidth 13).toNat := by
  have hr := room_advance hs
  have hlt := (tail - ack.setWidth 13).isLt
  rw [hr] at hg
  refine ⟨?_, by omega⟩
  have he : s + seg.setWidth 32 - ack = (s - ack) + seg.setWidth 32 := by bv_omega
  rw [he, BitVec.toNat_add, BitVec.toNat_setWidth]
  omega

/-! ### The invariant -/

/-- What every access keeps when no acknowledgement overtakes a rewinding pass. -/
structure Inv (f : TxFlow) : Prop where
  head : f.headPtr = f.ackNum.setWidth 13
  seq : f.dist f.seqNum ≤ f.room
  full : f.room ≤ ringBytes
  pass : ∀ flags n, f.sendPass = some (flags, n) →
    f.dist n.nextTxData.txCurrSeqNum ≤ f.room ∧
      (flags.any = false → f.dist f.seqNum ≤ f.dist n.nextTxData.txCurrSeqNum)
  ackHead : ∀ o, f.estPass = some o →
    o.nextHeadPtr = o.nextAckState.txCurrAckNum.setWidth 13
  ackSeq : ∀ o, f.estPass = some o → f.dist o.nextAckState.txCurrAckNum ≤ f.dist f.seqNum
  ackPass : ∀ o flags n, f.estPass = some o → f.sendPass = some (flags, n) →
    f.dist o.nextAckState.txCurrAckNum ≤ f.dist n.nextTxData.txCurrSeqNum

theorem Inv.ordered {f : TxFlow} (h : Inv f) : TxOrdered f := ⟨h.seq, h.full, h.head⟩

theorem inv_initFlow (n : BitVec 32) : Inv (initFlow n) where
  head := rfl
  seq := by simp [TxFlow.dist, TxFlow.seqNum, TxFlow.ackNum, initFlow]
  full := by simp [TxFlow.room, TxFlow.ackNum, initFlow]
  pass := by simp [initFlow]
  ackHead := by simp [initFlow]
  ackSeq := by simp [initFlow]
  ackPass := by simp [initFlow]

/-- The numbered pass of an ordered flow ends inside the ring, and past the number it
started from by the size of its segment. -/
theorem dist_numbering {f : TxFlow} (h : Inv f) (flags : RtTimeoutFlags) (now : BitVec 64) :
    f.dist (numbering flags f.txState f.tailPtr now).nextTxData.txCurrSeqNum =
        f.dist (passSeqNum flags f.txState) + (passSegSize flags f.txState f.tailPtr).toNat ∧
      f.dist (passSeqNum flags f.txState) + (passSegSize flags f.txState f.tailPtr).toNat ≤
        f.room := by
  have hs : f.dist (passSeqNum flags f.txState) ≤ f.room := by
    unfold passSeqNum
    split
    · have h0 : f.dist f.ackNum = 0 := by simp [TxFlow.dist]
      exact le_of_eq_of_le h0 (Nat.zero_le _)
    · exact h.seq
  exact dist_segment hs (segmentCalculator_le _ _)

theorem inv_sendRead {f : TxFlow} (h : Inv f) {flags : RtTimeoutFlags} {now : BitVec 64}
    (hok : flags.any = true → ∀ o, f.estPass = some o →
      f.dist o.nextAckState.txCurrAckNum ≤ (passSegSize flags f.txState f.tailPtr).toNat) :
    Inv { f with sendPass := some (flags, numbering flags f.txState f.tailPtr now) } := by
  obtain ⟨hq, hroom⟩ := dist_numbering h flags now
  refine ⟨h.head, h.seq, h.full, ?_, h.ackHead, h.ackSeq, ?_⟩
  · rintro flags' n' ⟨⟩
    refine ⟨hq.trans_le hroom, fun hf => ?_⟩
    have hp : passSeqNum flags f.txState = f.seqNum := by simp [passSeqNum, hf, TxFlow.seqNum]
    rw [hp] at hq
    exact hq ▸ Nat.le_add_right _ _
  · rintro o flags' n' ho ⟨⟩
    change f.dist o.nextAckState.txCurrAckNum ≤ f.dist _
    rw [hq]
    by_cases hf : flags.any = true
    · exact (hok hf o ho).trans (Nat.le_add_left _ _)
    · have hp : passSeqNum flags f.txState = f.seqNum := by simp [passSeqNum, hf, TxFlow.seqNum]
      rw [hp]
      exact (h.ackSeq o ho).trans (Nat.le_add_right _ _)

theorem inv_sendWrite {f : TxFlow} (h : Inv f) {flags : RtTimeoutFlags} {n : Numbered}
    (hp : f.sendPass = some (flags, n)) : Inv (f.writeBack n) where
  head := h.head
  seq := (h.pass flags n hp).1
  full := h.full
  pass := by simp [TxFlow.writeBack]
  ackHead := h.ackHead
  ackSeq := fun o ho => h.ackPass o flags n ho hp
  ackPass := by simp [TxFlow.writeBack]

theorem inv_estRead {f : TxFlow} (h : Inv f) {p : BitVec 32}
    (hpast : ¬ acksPastSeq f.ackNum p f.seqNum)
    (hrewind : ∀ flags n, f.sendPass = some (flags, n) → flags.any = true →
      nextAckNum f.ackNum p f.seqNum = p → f.dist p ≤ f.dist n.nextTxData.txCurrSeqNum) :
    Inv { f with estPass := some (f.ackOut p) } := by
  have hle : f.dist (nextAckNum f.ackNum p f.seqNum) ≤ f.dist f.seqNum := nextAckNum_le hpast
  refine ⟨h.head, h.seq, h.full, h.pass, ?_, ?_, ?_⟩
  · rintro o ⟨⟩
    rfl
  · rintro o ⟨⟩
    exact hle
  · rintro o flags n ⟨⟩ hs
    change f.dist (nextAckNum f.ackNum p f.seqNum) ≤ f.dist _
    by_cases hf : flags.any = true
    · rcases nextAckNum_cases f.ackNum p f.seqNum with he | he
      · have h0 : f.dist f.ackNum = 0 := by simp [TxFlow.dist]
        rw [he, h0]
        exact Nat.zero_le _
      · rw [he]
        exact hrewind flags n hs hf he
    · exact hle.trans ((h.pass flags n hs).2 (by simpa using hf))

theorem inv_estWrite {f : TxFlow} (h : Inv f) {o : TxAckOut} (ho : f.estPass = some o) :
    Inv (f.writeAck o) := by
  have hs := h.ackSeq o ho
  have hr : (f.writeAck o).room = f.room - f.dist o.nextAckState.txCurrAckNum :=
    room_advance (hs.trans h.seq)
  have hd {x : BitVec 32} (hx : f.dist o.nextAckState.txCurrAckNum ≤ f.dist x) :
      (f.writeAck o).dist x = f.dist x - f.dist o.nextAckState.txCurrAckNum := dist_advance hx
  refine ⟨h.ackHead o ho, ?_, ?_, ?_, by simp [TxFlow.writeAck], by simp [TxFlow.writeAck],
    by simp [TxFlow.writeAck]⟩
  · change (f.writeAck o).dist f.seqNum ≤ _
    rw [hr, hd hs]
    exact Nat.sub_le_sub_right h.seq _
  · rw [hr]
    exact (Nat.sub_le _ _).trans h.full
  · intro flags n hp
    change (f.writeAck o).dist _ ≤ _ ∧ (_ → (f.writeAck o).dist f.seqNum ≤ _)
    rw [hr, hd hs, hd (h.ackPass o flags n ho hp)]
    obtain ⟨hq, hf⟩ := h.pass flags n hp
    exact ⟨Nat.sub_le_sub_right hq _, fun hn => Nat.sub_le_sub_right (hf hn) _⟩

theorem inv_appTail {f : TxFlow} (h : Inv f) {t : Ptr} (ht : appOk f t) :
    Inv { f with tailPtr := t } := by
  have hr : f.room ≤ TxFlow.room { f with tailPtr := t } := by
    have h1 := ht.1
    rw [h.head] at h1
    exact h1
  have hfull : TxFlow.room { f with tailPtr := t } ≤ ringBytes := by
    have h2 := ht.2
    rw [h.head] at h2
    exact h2
  exact ⟨h.head, h.seq.trans hr, hfull,
    fun flags n hp => ⟨(h.pass flags n hp).1.trans hr, (h.pass flags n hp).2⟩,
    h.ackHead, h.ackSeq, h.ackPass⟩

/-! ### Runs -/

/-- An acknowledgement that `tx_ack_engine` takes over stays at or before the number a
waiting retransmit or timeout pass is about to store. -/
def rewindOk (f : TxFlow) (p : BitVec 32) : Prop :=
  ∀ q ∈ f.sendPass, q.1.any = true → nextAckNum f.ackNum p f.seqNum = p →
    f.dist p ≤ f.dist q.2.nextTxData.txCurrSeqNum

/-- A retransmit or timeout pass starts only when its segment covers what a waiting
acknowledgement is about to release. -/
def resendOk (f : TxFlow) (flags : RtTimeoutFlags) : Prop :=
  ∀ o ∈ f.estPass, flags.any = true →
    f.dist o.nextAckState.txCurrAckNum ≤ (passSegSize flags f.txState f.tailPtr).toNat

/-- No acknowledgement overtakes a rewind, and none is one byte past the sequence number. -/
def NoOvertake : Option TxFlow → TxAct → Prop
  | some f, .estRead p => ¬ acksPastSeq f.ackNum p f.seqNum ∧ rewindOk f p
  | some f, .sendRead flags _ => resendOk f flags
  | _, _ => True

instance (f : TxFlow) (p : BitVec 32) : Decidable (rewindOk f p) :=
  inferInstanceAs (Decidable (∀ q ∈ f.sendPass, _))

instance (f : TxFlow) (flags : RtTimeoutFlags) : Decidable (resendOk f flags) :=
  inferInstanceAs (Decidable (∀ o ∈ f.estPass, _))

instance : ∀ (s : Option TxFlow) (a : TxAct), Decidable (NoOvertake s a)
  | some f, .estRead p => inferInstanceAs (Decidable (¬ acksPastSeq _ _ _ ∧ rewindOk f p))
  | some f, .sendRead flags _ => inferInstanceAs (Decidable (resendOk f flags))
  | none, _ => .isTrue trivial
  | some _, .newFlow _ => .isTrue trivial
  | some _, .sendWrite => .isTrue trivial
  | some _, .estWrite => .isTrue trivial
  | some _, .appTail _ => .isTrue trivial

theorem inv_step {f f' : TxFlow} {a : TxAct} (h : Inv f) (hok : NoOvertake (some f) a)
    (hs : f.step a = some f') : Inv f' := by
  cases a with
  | newFlow n => cases hs
  | sendRead flags now =>
    simp only [TxFlow.step, Option.ite_none_right_eq_some, Option.some.injEq] at hs
    obtain ⟨-, rfl⟩ := hs
    exact inv_sendRead h fun hf o ho => hok o ho hf
  | sendWrite =>
    obtain ⟨⟨flags, n⟩, hp, rfl⟩ := Option.map_eq_some_iff.mp hs
    exact inv_sendWrite h hp
  | estRead p =>
    simp only [TxFlow.step, Option.ite_none_right_eq_some, Option.some.injEq] at hs
    obtain ⟨-, rfl⟩ := hs
    exact inv_estRead h hok.1 fun flags n hp hf he => hok.2 (flags, n) hp hf he
  | estWrite =>
    obtain ⟨o, ho, rfl⟩ := Option.map_eq_some_iff.mp hs
    exact inv_estWrite h ho
  | appTail t =>
    simp only [TxFlow.step, Option.ite_none_right_eq_some, Option.some.injEq] at hs
    obtain ⟨ht, rfl⟩ := hs
    exact inv_appTail h ht

theorem inv_of_reach {s : Option TxFlow} (h : Reach (· = none) txStep NoOvertake s) :
    ∀ f, s = some f → Inv f := by
  refine h.invariant (I := fun s => ∀ f, s = some f → Inv f) ?_ ?_
  · rintro s rfl f ⟨⟩
  · intro s a s' ih hok hs f' hf'
    subst hf'
    cases s with
    | none =>
      cases a with
      | newFlow n =>
        cases hs
        exact inv_initFlow n
      | sendRead _ _ | sendWrite | estRead _ | estWrite | appTail _ => cases hs
    | some f =>
      obtain ⟨f1, hf1, he⟩ := Option.map_eq_some_iff.mp hs
      cases he
      exact inv_step (ih f rfl) hok hf1

/-- In every run in which no acknowledgement overtakes a rewinding pass or runs one byte
past the sequence number, a live flow is ordered in every state. -/
theorem txOrdered_of_noOvertake {f : TxFlow}
    (h : Reach (· = none) txStep NoOvertake (some f)) : TxOrdered f :=
  (inv_of_reach h f rfl).ordered

/-- A retransmit pass across the 32-bit wrap with an acknowledgement in between. -/
theorem txOrdered_of_noOvertake_wrap : ∃ f : TxFlow,
    Reach (· = none) txStep NoOvertake (some f) ∧ f.seqNum = 0 ∧ TxOrdered f := by
  have hrun : ∃ s, Reach (· = none) txStep NoOvertake s ∧
      (s.any fun f => f.seqNum == 0) = true :=
    Reach.exists_of_run [.newFlow 0xFFFFFC00#32, .appTail 0xC00#13, .sendRead ⟨false, false⟩ 0,
      .sendWrite, .sendRead ⟨false, false⟩ 1, .sendWrite, .sendRead ⟨false, true⟩ 2,
      .estRead 0xFFFFFE00#32, .sendWrite, .estWrite] rfl (by decide +kernel)
  obtain ⟨s, hr, hp⟩ := hrun
  cases s with
  | none => cases hp
  | some f => exact ⟨f, hr, by simpa using hp, txOrdered_of_noOvertake hr⟩

/-- Two segments are in flight when a retransmit pass reads the flow; both are acknowledged
before the pass writes the end of the first one back. -/
theorem txOrdered_overtaken : ¬ ∀ f : TxFlow,
    Reach (· = none) txStep Free (some f) → TxOrdered f := by
  intro h
  have hrun : ∃ s, Reach (· = none) txStep Free s ∧
      (s.any fun f => decide (¬ TxOrdered f)) = true :=
    Reach.exists_of_run [.newFlow 0#32, .appTail 0x800#13, .sendRead ⟨false, false⟩ 0,
      .sendWrite, .sendRead ⟨false, false⟩ 1, .sendWrite, .sendRead ⟨false, true⟩ 2,
      .estRead 0x800#32, .estWrite, .sendWrite] rfl (by decide +kernel)
  obtain ⟨s, hr, hp⟩ := hrun
  cases s with
  | none => cases hp
  | some f => exact absurd (h f hr) (by simpa using hp)

end TcpHw.TxSequence
