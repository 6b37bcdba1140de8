import TcpHw.Recv.EstSerial
import TcpHw.Recv.RxFsmPipe

/-!
# Acknowledgements of the transmitted stream

`tx_ack_engine` compares raw 32-bit numbers in two branches. The first part compares its
choice with membership in the window on the number circle. The second follows the
duplicate-acknowledgement counter of one flow through every sequence of packets, while the
send pipe moves the sequence number between them.
-/
namespace TcpHw

open Trace

set_option autoImplicit false

/-! ### The window -/

/-- What an acknowledgement may newly cover: past the current acknowledgement number, and
not past the sequence number. -/
def InAckWindow (ack pkt seq : BitVec 32) : Prop :=
  0 < (pkt - ack).toNat ∧ (pkt - ack).toNat ≤ (seq - ack).toNat

instance (ack pkt seq : BitVec 32) : Decidable (InAckWindow ack pkt seq) :=
  inferInstanceAs (Decidable (_ ∧ _))

/-- Exactly the numbers of the window are taken over, and the head pointer is the low part of
the outcome. -/
def ExactAck (ack pkt seq : BitVec 32) (out : TxAckOut) : Prop :=
  out.nextAckState.txCurrAckNum = (if InAckWindow ack pkt seq then pkt else ack) ∧
    out.nextHeadPtr = out.nextAckState.txCurrAckNum.setWidth 13

instance (ack pkt seq : BitVec 32) (out : TxAckOut) : Decidable (ExactAck ack pkt seq out) :=
  inferInstanceAs (Decidable (_ ∧ _))

/-- Where `curr_seq_num + 1` misleads the unwrapped branch: it lets one number too many
through, and at the last sequence number the sum is 0 and lets nothing through. -/
def PlusOneMisleads (ack pkt seq : BitVec 32) : Prop :=
  ack < seq ∧ if seq = 0xFFFFFFFF#32 then ack < pkt else pkt = seq + 1#32

instance (ack pkt seq : BitVec 32) : Decidable (PlusOneMisleads ack pkt seq) :=
  inferInstanceAs (Decidable (_ ∧ _))

/-- The wrapped branch is exact. -/
theorem nextAckNum_of_wrapped {ack pkt seq : BitVec 32} (h : seq < ack) :
    nextAckNum ack pkt seq = if InAckWindow ack pkt seq then pkt else ack := by
  have hne : dataUnacked seq ack = true := by
    simp only [dataUnacked, Bool.not_eq_true', beq_eq_false_iff_ne, ne_eq]
    bv_omega
  have hwin : (ack < pkt ∨ pkt < seq + 1#32) ↔ InAckWindow ack pkt seq := by
    unfold InAckWindow
    bv_omega
  simp [nextAckNum, h, hne, hwin]

/-- The unwrapped branch tests an interval of plain numbers. -/
theorem nextAckNum_of_unwrapped {ack pkt seq : BitVec 32} (h : ack < seq) :
    nextAckNum ack pkt seq = if ack < pkt ∧ pkt ≤ seq + 1#32 then pkt else ack := by
  have hlt : ¬ seq < ack := by bv_omega
  have hne : dataUnacked seq ack = true := by
    simp only [dataUnacked, Bool.not_eq_true', beq_eq_false_iff_ne, ne_eq]
    bv_omega
  simp [nextAckNum, hlt, hne]

theorem inAckWindow_of_unwrapped {ack pkt seq : BitVec 32} (h : ack < seq) :
    InAckWindow ack pkt seq ↔ ack < pkt ∧ pkt ≤ seq := by
  unfold InAckWindow
  bv_omega

/-- Without outstanding data the number stays and the window is empty. -/
theorem nextAckNum_self (ack pkt : BitVec 32) :
    nextAckNum ack pkt ack = if InAckWindow ack pkt ack then pkt else ack := by
  have hwin : ¬ InAckWindow ack pkt ack := by
    unfold InAckWindow
    bv_omega
  simp [nextAckNum, dataUnacked, hwin]

/-- At the last sequence number the sum is 0: the tested interval is empty, the window is
not. -/
theorem nextAckNum_last_iff {ack pkt : BitVec 32} (h : ack < 0xFFFFFFFF#32) :
    nextAckNum ack pkt 0xFFFFFFFF#32 =
        (if InAckWindow ack pkt 0xFFFFFFFF#32 then pkt else ack) ↔ ¬ ack < pkt := by
  have hempty : ¬ (ack < pkt ∧ pkt ≤ 0xFFFFFFFF#32 + 1#32) := by bv_omega
  have hle : pkt ≤ 0xFFFFFFFF#32 := by bv_omega
  rw [nextAckNum_of_unwrapped h, if_neg hempty]
  simp only [inAckWindow_of_unwrapped h, hle, and_true]
  split
  · rename_i hp
    have hne : ack ≠ pkt := by bv_omega
    simp [hp, hne]
  · rename_i hp
    simp [hp]

/-- Below it the interval has one number more than the window. -/
theorem nextAckNum_below_last_iff {ack pkt seq : BitVec 32} (h : ack < seq)
    (hlast : seq ≠ 0xFFFFFFFF#32) :
    nextAckNum ack pkt seq = (if InAckWindow ack pkt seq then pkt else ack) ↔
      pkt ≠ seq + 1#32 := by
  rw [nextAckNum_of_unwrapped h]
  simp only [inAckWindow_of_unwrapped h]
  by_cases hp : pkt = seq + 1#32
  · have hin : ack < pkt ∧ pkt ≤ seq + 1#32 := by bv_omega
    have hout : ¬ (ack < pkt ∧ pkt ≤ seq) := by bv_omega
    have hne : pkt ≠ ack := by bv_omega
    rw [if_pos hin, if_neg hout]
    exact iff_of_false hne (not_not.mpr hp)
  · have hiff : (ack < pkt ∧ pkt ≤ seq + 1#32) ↔ (ack < pkt ∧ pkt ≤ seq) := by bv_omega
    rw [if_congr hiff rfl rfl]
    exact iff_of_true rfl hp

theorem nextAckNum_window_iff (ack pkt seq : BitVec 32) :
    nextAckNum ack pkt seq = (if InAckWindow ack pkt seq then pkt else ack) ↔
      ¬ PlusOneMisleads ack pkt seq := by
  have htri : ack < seq ∨ ack = seq ∨ seq < ack := by bv_omega
  rcases htri with hlt | rfl | hgt
  · simp only [PlusOneMisleads, hlt, true_and]
    by_cases hlast : seq = 0xFFFFFFFF#32
    · subst hlast
      rw [if_pos rfl]
      exact nextAckNum_last_iff hlt
    · rw [if_neg hlast]
      exact nextAckNum_below_last_iff hlt hlast
  · rw [nextAckNum_self]
    simp [PlusOneMisleads]
  · rw [nextAckNum_of_wrapped hgt]
    have hle : ¬ ack < seq := by bv_omega
    simp [PlusOneMisleads, hle]

/-- `tx_ack_engine` decides window membership exactly where the sum with 1 does not mislead
it. -/
theorem txAckEngine_exact_iff (ack pkt seq : BitVec 32) (cnt : BitVec 2) :
    ExactAck ack pkt seq (txAckEngine ack pkt seq cnt) ↔ ¬ PlusOneMisleads ack pkt seq := by
  rw [← nextAckNum_window_iff]
  simp [ExactAck, txAckEngine]

/-- With a hundred bytes sent from number 0, the acknowledgement of 101 is taken over. -/
theorem txAckEngine_past_seq :
    ¬ ∀ (ack pkt seq : BitVec 32) (cnt : BitVec 2),
      ExactAck ack pkt seq (txAckEngine ack pkt seq cnt) := by
  intro h
  exact absurd (h 0 101 100 0) (by decide)

/-! ### Duplicate acknowledgements -/

/-- What `tx_ack_engine` compared for one packet, and whether it asked for a fast
retransmit. -/
structure AckRecord where
  currAckNum : BitVec 32
  pktAckNum : BitVec 32
  currSeqNum : BitVec 32
  setRtFlag : Bool

/-- The packet repeats the current acknowledgement number while data is outstanding. -/
def AckRecord.Repeats (r : AckRecord) : Prop :=
  r.pktAckNum = r.currAckNum ∧ r.currSeqNum ≠ r.currAckNum

instance (r : AckRecord) : Decidable r.Repeats := inferInstanceAs (Decidable (_ ∧ _))

/-- The length of the current run of such packets, in a history with the latest packet
first. -/
def repeatRun : List AckRecord → Nat
  | [] => 0
  | r :: rs => if r.Repeats then repeatRun rs + 1 else 0

/-- One established flow: the entries `est_pipe` writes, the sequence number the send pipe
writes, and the packets so far, the latest first, which no hardware reads. -/
structure AckFlow where
  est : EstState
  txSeqNum : BitVec 32
  history : List AckRecord

inductive AckEvent where
  | packet (p : EstPkt) (headPtr : Ptr)
  | send (len : BitVec 32)

namespace AckFlow

/-- What `est_pipe` decides for a packet, with the sequence number it finds. -/
def next (s : AckFlow) (p : EstPkt) (headPtr : Ptr) : EstNext := s.est.decide p headPtr s.txSeqNum

def record (s : AckFlow) (p : EstPkt) (headPtr : Ptr) : AckRecord where
  currAckNum := s.est.ack.txCurrAckNum
  pktAckNum := p.tcpHdr.ackNum
  currSeqNum := s.txSeqNum
  setRtFlag := (s.next p headPtr).setRtFlag

/-- A packet passes `est_pipe`, or the send pipe moves the sequence number on. -/
def step (s : AckFlow) : AckEvent → Option AckFlow
  | .packet p headPtr =>
    some
      { s with
        est := s.est.write (s.next p headPtr)
        history := s.record p headPtr :: s.history }
  | .send len => some { s with txSeqNum := s.txSeqNum + len }

/-- A flow as `rx_fsm_pipe` initialises it. -/
def Init (s : AckFlow) : Prop :=
  s.history = [] ∧ ∃ m : RxFsmPipe, s.est.recv = m.rxStateInit ∧
    s.est.ack = m.txStateInit.txCurrAckState ∧ s.txSeqNum = m.txStateInit.txCurrSeqNum

end AckFlow

/-- The duplicate test of the engine. -/
theorem dupAck_iff (ack pkt seq : BitVec 32) :
    (ack == pkt && dataUnacked seq ack) = true ↔ pkt = ack ∧ seq ≠ ack := by
  simp only [dataUnacked, Bool.and_eq_true, beq_iff_eq, Bool.not_eq_true', beq_eq_false_iff_ne]
  rw [eq_comm]

/-- A packet that repeats the number is counted; the third takes the count back to 0. -/
theorem txAckEngine_of_dup {ack pkt seq : BitVec 32} {cnt : BitVec 2} (h : pkt = ack ∧ seq ≠ ack)
    (hcnt : cnt.toNat ≤ 2) :
    ((txAckEngine ack pkt seq cnt).setRtFlag = true ↔ cnt.toNat = 2) ∧
      (txAckEngine ack pkt seq cnt).nextAckState.txCurrAckCnt.toNat = (cnt.toNat + 1) % 3 := by
  have hdup := (dupAck_iff ack pkt seq).mpr h
  have hun : dataUnacked seq ack = true := (Bool.and_eq_true_iff.mp hdup).2
  have hflag : (txAckEngine ack pkt seq cnt).setRtFlag = (cnt.toNat + 1 == 3) := by
    simp only [txAckEngine, hdup, Bool.toNat_true]
  refine ⟨by rw [hflag]; simp, ?_⟩
  have hnext : (txAckEngine ack pkt seq cnt).nextAckState.txCurrAckCnt =
      if cnt.toNat + 1 = 3 then 0 else cnt + 1#2 := by
    simp [txAckEngine, hun, h.1, rtAckThreshold]
  rw [hnext]
  split
  · rename_i h3
    rw [h3]
    rfl
  · bv_omega

/-- Any other packet clears the count. -/
theorem txAckEngine_of_not_dup {ack pkt seq : BitVec 32} {cnt : BitVec 2}
    (h : ¬ (pkt = ack ∧ seq ≠ ack)) (hcnt : cnt.toNat ≤ 2) :
    (txAckEngine ack pkt seq cnt).setRtFlag = false ∧
      (txAckEngine ack pkt seq cnt).nextAckState.txCurrAckCnt = 0 := by
  have hdup : (ack == pkt && dataUnacked seq ack) = false := by
    rw [← Bool.not_eq_true, dupAck_iff]
    exact h
  constructor
  · simp only [txAckEngine, hdup, Bool.toNat_false, beq_eq_false_iff_ne, rtAckThreshold]
    omega
  · simp [txAckEngine, hdup]

namespace AckFlow

variable {s s' : AckFlow}

/-- The stored count is the length of the current run, modulo the threshold. -/
structure Counts (s : AckFlow) : Prop where
  cnt : s.est.ack.txCurrAckCnt.toNat = repeatRun s.history % rtAckThreshold
  flags : ∀ r rs, r :: rs <:+ s.history →
    (r.setRtFlag = true ↔ ∃ k, 1 ≤ k ∧ repeatRun (r :: rs) = rtAckThreshold * k)

theorem counts_packet (h : Counts s) (p : EstPkt) (headPtr : Ptr) :
    (s.est.write (s.next p headPtr)).ack.txCurrAckCnt.toNat =
        repeatRun (s.record p headPtr :: s.history) % rtAckThreshold ∧
      ((s.next p headPtr).setRtFlag = true ↔
        ∃ k, 1 ≤ k ∧ repeatRun (s.record p headPtr :: s.history) = rtAckThreshold * k) := by
  have hcnt : s.est.ack.txCurrAckCnt.toNat ≤ 2 := by
    rw [h.cnt]
    exact Nat.le_of_lt_succ (Nat.mod_lt _ (by decide))
  have hmod : s.est.ack.txCurrAckCnt.toNat = repeatRun s.history % 3 := h.cnt
  simp only [rtAckThreshold]
  by_cases hrep : (s.record p headPtr).Repeats
  · obtain ⟨hflag, hnext⟩ := txAckEngine_of_dup hrep hcnt
    have hrun : repeatRun (s.record p headPtr :: s.history) = repeatRun s.history + 1 := by
      simp [repeatRun, hrep]
    rw [hrun]
    refine ⟨hnext.trans (by omega), hflag.trans ⟨fun h2 => ?_, ?_⟩⟩
    · exact ⟨(repeatRun s.history + 1) / 3, by omega, by omega⟩
    · rintro ⟨k, hk, he⟩
      omega
  · obtain ⟨hflag, hnext⟩ := txAckEngine_of_not_dup hrep hcnt
    have hrun : repeatRun (s.record p headPtr :: s.history) = 0 := by simp [repeatRun, hrep]
    rw [hrun]
    refine ⟨congrArg BitVec.toNat hnext, iff_of_false (Bool.eq_false_iff.mp hflag) ?_⟩
    rintro ⟨k, hk, he⟩
    omega

theorem counts_step {a : AckEvent} (h : Counts s) (hs : s.step a = some s') : Counts s' := by
  cases a with
  | send len =>
    cases hs
    exact ⟨h.cnt, h.flags⟩
  | packet p headPtr =>
    cases hs
    obtain ⟨hcnt, hflag⟩ := counts_packet h p headPtr
    refine ⟨hcnt, fun r rs hsuf => ?_⟩
    rcases List.suffix_cons_iff.mp hsuf with heq | hold
    · obtain ⟨rfl, rfl⟩ := List.cons.inj heq
      exact hflag
    · exact h.flags r rs hold

theorem counts_init (h : s.Init) : Counts s := by
  obtain ⟨hnil, m, -, hack, -⟩ := h
  refine ⟨?_, ?_⟩
  · rw [hack, hnil]
    rfl
  · simp [hnil]

/-- The stored count stays below the threshold, and a packet asks for a fast retransmit exactly
when it is the third, sixth, ninth, … of the current run of repeated acknowledgements. -/
theorem fastRetransmit_counts (h : Reach Init step Free s) :
    s.est.ack.txCurrAckCnt.toNat ≤ rtAckThreshold - 1 ∧
      ∀ r rs, r :: rs <:+ s.history →
        (r.setRtFlag = true ↔ ∃ k, 1 ≤ k ∧ repeatRun (r :: rs) = rtAckThreshold * k) := by
  have hinv : Counts s :=
    h.invariant (fun _ => counts_init) fun _ _ _ hc _ hs => counts_step hc hs
  refine ⟨?_, hinv.flags⟩
  rw [hinv.cnt]
  exact Nat.le_of_lt_succ (Nat.mod_lt _ (by decide))

/-- A flow fresh from the handshake, with number 1 next. -/
def fresh : AckFlow where
  est := { (default : EstState) with
    recv := RxFsmPipe.reset.rxStateInit
    ack := RxFsmPipe.reset.txStateInit.txCurrAckState }
  txSeqNum := RxFsmPipe.reset.txStateInit.txCurrSeqNum
  history := []

theorem fresh_init : fresh.Init := ⟨rfl, RxFsmPipe.reset, rfl, rfl, rfl⟩

/-- An acknowledgement without payload. -/
def ackOf (n : BitVec 32) : AckEvent :=
  .packet { (default : EstPkt) with tcpHdr := { (default : TcpPktHdr) with ackNum := n } } 0

/-- After forty bytes, six repetitions of number 1: the third and the sixth ask. -/
theorem fastRetransmit_counts_six : ∃ s, Reach Init step Free s ∧
    s.history.map AckRecord.setRtFlag = [true, false, false, true, false, false] ∧
    s.est.ack.txCurrAckCnt.toNat ≤ rtAckThreshold - 1 := by
  have hrun : ∃ s, Reach Init step Free s ∧
      decide (s.history.map AckRecord.setRtFlag =
        [true, false, false, true, false, false]) = true :=
    Reach.exists_of_run (.send 40 :: List.replicate 6 (ackOf 1)) fresh_init (by decide +kernel)
  obtain ⟨s, hr, hp⟩ := hrun
  exact ⟨s, hr, decide_eq_true_iff.mp hp, (fastRetransmit_counts hr).1⟩

end AckFlow

end TcpHw
