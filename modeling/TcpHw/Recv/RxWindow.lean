import TcpHw.Recv.RxRing

/-!
# The window announced to the peer

`est_pipe` writes `rx_curr_wnd_size` together with `rx_curr_ack_num`, and
`hdr_assembler_pipe` later announces the two as it finds them. The window is the free space
before the packet at hand, the acknowledgement number is the one after it. So the two
describe one moment exactly when the packet adds nothing to the ring.
-/
namespace TcpHw.RxPath

open Trace

set_option autoImplicit false

/-- `ack_num` and `window` of the header `hdr_assembler_pipe` assembles. A closed window is
announced as one byte, so that the peer keeps sending. -/
def announced (recv : RecvState) : BitVec 32 × BitVec 16 :=
  (recv.rxCurrAckNum, if recv.rxCurrWndSize == 0#16 then 1 else recv.rxCurrWndSize)

/-- The stored window is at most the free space, and the byte before the announced right edge
still has a place in the ring: the byte numbered `rx_curr_ack_num` is the one for the tail. -/
structure WindowFits (recv : RecvState) (headPtr tailPtr : Ptr) : Prop where
  stored : recv.rxCurrWndSize.toNat ≤ ringBytes - (tailPtr - headPtr).toNat
  edge : recv.rxCurrWndSize ≠ 0#16 →
    (tailPtr - headPtr).toNat + ((announced recv).2).toNat ≤ ringBytes

/-- The packet brings bytes that `est_pipe` appends to the ring. -/
def Appends (recv : RecvState) (headPtr tailPtr : Ptr) (p : EstPkt) : Prop :=
  p.payloadVal = true ∧ p.tcpHdr.seqNum = recv.rxCurrAckNum ∧
    0 < p.payloadEntry.payloadLen.toNat ∧
    p.payloadEntry.payloadLen.toNat ≤ ringBytes - (tailPtr - headPtr).toNat

instance (recv : RecvState) (headPtr tailPtr : Ptr) (p : EstPkt) :
    Decidable (Appends recv headPtr tailPtr p) := inferInstanceAs (Decidable (_ ∧ _))

/-- The announced edge adds nothing to the stored bound. -/
theorem windowFits_iff {recv : RecvState} {headPtr tailPtr : Ptr}
    (h : (tailPtr - headPtr).toNat ≤ ringBytes) :
    WindowFits recv headPtr tailPtr ↔
      recv.rxCurrWndSize.toNat ≤ ringBytes - (tailPtr - headPtr).toNat := by
  refine ⟨fun hw => hw.stored, fun hw => ⟨hw, fun hne => ?_⟩⟩
  have hann : (announced recv).2 = recv.rxCurrWndSize := by simp [announced, hne]
  rw [hann]
  omega

/-- The window written is the free space in front of the old tail. -/
theorem estCompute_wndSize (recv : RecvState) {headPtr tailPtr : Ptr} (p : EstPkt)
    (txSeqNum : BitVec 32) (ack : TxAckState) (h : (tailPtr - headPtr).toNat ≤ ringBytes) :
    (estCompute recv txSeqNum ack headPtr tailPtr p).nextRecvState.rxCurrWndSize.toNat =
      ringBytes - (tailPtr - headPtr).toNat := by
  rw [← spaceLeft_toNat h]
  have hlt := (spaceLeft headPtr tailPtr).isLt
  show ((spaceLeft headPtr tailPtr).setWidth 16).toNat = _
  rw [BitVec.toNat_setWidth]
  omega

/-- The distance after the packet. -/
theorem estCompute_distance (recv : RecvState) {headPtr tailPtr : Ptr} (p : EstPkt)
    (txSeqNum : BitVec 32) (ack : TxAckState) (h : (tailPtr - headPtr).toNat ≤ ringBytes) :
    ((estCompute recv txSeqNum ack headPtr tailPtr p).nextTailPtr - headPtr).toNat =
      (tailPtr - headPtr).toNat +
        if Appends recv headPtr tailPtr p then p.payloadEntry.payloadLen.toNat else 0 := by
  have hspace := spaceLeft_toNat h
  by_cases ha : acceptPayload recv headPtr tailPtr p = true
  · obtain ⟨hv, hseq, hlen⟩ := (acceptPayload_iff recv headPtr tailPtr p).mp ha
    rw [(estCompute_of_accept txSeqNum ack ha).2, dist_add (by omega)]
    split
    · rfl
    · rename_i hno
      have hzero : ¬ 0 < p.payloadEntry.payloadLen.toNat :=
        fun hpos => hno ⟨hv, hseq, hpos, by omega⟩
      omega
  · rw [Bool.not_eq_true] at ha
    have hno : ¬ Appends recv headPtr tailPtr p := by
      rintro ⟨hv, hseq, -, hlen⟩
      rw [(acceptPayload_iff recv headPtr tailPtr p).mpr ⟨hv, hseq, by omega⟩] at ha
      cases ha
    rw [(estCompute_of_reject txSeqNum ack ha).2, if_neg hno, Nat.add_zero]

/-- The window fits after a packet exactly when the packet appends nothing. -/
theorem windowFits_estCompute_iff {recv : RecvState} {headPtr tailPtr : Ptr} {p : EstPkt}
    (txSeqNum : BitVec 32) (ack : TxAckState) (h : (tailPtr - headPtr).toNat ≤ ringBytes) :
    WindowFits (estCompute recv txSeqNum ack headPtr tailPtr p).nextRecvState headPtr
        (estCompute recv txSeqNum ack headPtr tailPtr p).nextTailPtr ↔
      ¬ Appends recv headPtr tailPtr p := by
  have hdist := estCompute_distance recv p txSeqNum ack h
  have hwnd := estCompute_wndSize recv p txSeqNum ack h
  by_cases ha : Appends recv headPtr tailPtr p
  · rw [if_pos ha] at hdist
    have hpos := ha.2.2.1
    have hle := ha.2.2.2
    rw [windowFits_iff (by omega), hwnd, hdist]
    exact iff_of_false (by omega) (not_not.mpr ha)
  · rw [if_neg ha] at hdist
    rw [windowFits_iff (by omega), hwnd, hdist]
    exact iff_of_true (by omega) ha

/-! ### Runs -/

/-- The window of flow `f` as the memories hold it. -/
def Path.Fits (s : Path) (f : FlowId) : Prop :=
  WindowFits (s.recvState f) (s.headPtr f) (s.tailPtr f)

/-- The packet appends to the ring of its flow. -/
def Path.Appends (s : Path) (p : EstPkt) : Prop :=
  RxPath.Appends (s.recvState p.flowid) (s.headPtr p.flowid) (s.tailPtr p.flowid) p

/-- The step is not a packet that appends to the ring of flow `f`. -/
def NotAppending (f : FlowId) (s : Path) : RxAct → Prop
  | .packet p _ => p.pkt.flowid = f → ¬ s.Appends p.pkt
  | _ => True

/-- The cells of the packet's flow after `est_pipe`. -/
theorem packet_cells (s : Path) (p : RxPkt) (tx : TxState) :
    (s.packet p tx).recvState p.pkt.flowid = (s.estNext p.pkt tx).nextRecvState ∧
      (s.packet p tx).tailPtr p.pkt.flowid = (s.estNext p.pkt tx).nextTailPtr := by
  refine ⟨by simp [Path.packet], ?_⟩
  by_cases ha : (s.estNext p.pkt tx).acceptPayload = true
  · simp [Path.packet, ha]
  · rw [Bool.not_eq_true] at ha
    rw [(packet_of_reject ha).2]
    exact (estCompute_of_reject tx.txCurrSeqNum tx.txCurrAckState ha).2.symm

theorem fits_packet_iff {s : Path} {p : RxPkt} (tx : TxState)
    (h : (s.tailPtr p.pkt.flowid - s.headPtr p.pkt.flowid).toNat ≤ ringBytes) :
    (s.packet p tx).Fits p.pkt.flowid ↔ ¬ s.Appends p.pkt := by
  obtain ⟨hrecv, htail⟩ := packet_cells s p tx
  unfold Path.Fits
  rw [hrecv, htail]
  exact windowFits_estCompute_iff tx.txCurrSeqNum tx.txCurrAckState h

/-- Released bytes only widen the free space. -/
theorem WindowFits.release {recv : RecvState} {headPtr tailPtr newHead : Ptr}
    (h : WindowFits recv headPtr tailPtr) (hfull : (tailPtr - headPtr).toNat ≤ ringBytes)
    (hle : (newHead - headPtr).toNat ≤ (tailPtr - headPtr).toNat) :
    WindowFits recv newHead tailPtr := by
  have hd := dist_release hle
  have hs := h.stored
  rw [windowFits_iff (by omega)]
  omega

/-- Outside of packets that append to the flow's ring, every step keeps a fitting window. -/
theorem fits_step {s s' : Path} {a : RxAct} {f : FlowId} (hr : RingInv s)
    (h : s.live f = true → s.Fits f) (ha : NotAppending f s a) (hs : rxStep s a = some s')
    (hf : s'.live f = true) : s'.Fits f := by
  cases a with
  | newFlow g n =>
    simp only [rxStep, Option.ite_none_left_eq_some, Option.some.injEq] at hs
    obtain ⟨-, rfl⟩ := hs
    by_cases hg : f = g
    · subst hg
      simp only [Path.Fits, Path.newFlow, Function.update_self]
      exact (windowFits_iff (by decide)).mpr (Nat.le_refl 4096)
    · simp only [Path.newFlow, Function.update_of_ne hg] at hf
      simp only [Path.Fits, Path.newFlow, Function.update_of_ne hg]
      exact h hf
  | packet p tx =>
    simp only [rxStep, Option.ite_none_right_eq_some, Option.some.injEq] at hs
    obtain ⟨⟨hp, -⟩, rfl⟩ := hs
    by_cases hg : p.pkt.flowid = f
    · subst hg
      exact (fits_packet_iff tx (hr.flow _ hp).full).mpr (ha rfl)
    · have hrecv : (s.packet p tx).recvState f = s.recvState f := by
        simp [Path.packet, Ne.symm hg]
      have htail : (s.packet p tx).tailPtr f = s.tailPtr f := by
        by_cases hacc : (s.estNext p.pkt tx).acceptPayload = true <;>
          simp [Path.packet, hacc, Ne.symm hg]
      unfold Path.Fits
      rw [hrecv, htail]
      exact h hf
  | copyOut =>
    simp only [rxStep] at hs
    split at hs
    · cases hs
    · rename_i e q hq
      cases hs
      have hcells : (s.copyOut e q).recvState = s.recvState ∧
          (s.copyOut e q).headPtr = s.headPtr ∧ (s.copyOut e q).tailPtr = s.tailPtr ∧
          (s.copyOut e q).live = s.live := by
        unfold Path.copyOut
        split <;> simp [Path.commit]
      obtain ⟨hrecv, hhead, htail, hlive⟩ := hcells
      unfold Path.Fits
      rw [hrecv, hhead, htail]
      exact h (hlive ▸ hf)
  | appHead g n =>
    simp only [rxStep, Option.ite_none_right_eq_some, Option.some.injEq] at hs
    obtain ⟨⟨hg, hn⟩, rfl⟩ := hs
    by_cases hgf : f = g
    · subst hgf
      have hinv := hr.flow f hg
      have hsum := hinv.sum
      have hn' : (n - s.headPtr f).toNat ≤ (s.commitPtr f - s.headPtr f).toNat := hn
      simp only [Path.Fits, Function.update_self]
      exact (h hg).release hinv.full (by omega)
    · simp only [Path.Fits, Function.update_of_ne hgf]
      exact h hf

/-- In every state whose ring is not overfull the window written for a packet fits if and only
if the packet appends nothing. And along every run, once the window of a flow fits, it does so
for as long as no packet appends to that flow's ring. -/
theorem window_fits_iff_not_appends (f : FlowId) (s : Path) :
    (∀ (p : RxPkt) (tx : TxState), p.pkt.flowid = f →
      (s.tailPtr f - s.headPtr f).toNat ≤ ringBytes →
      ((s.packet p tx).Fits f ↔ ¬ s.Appends p.pkt)) ∧
    (Reach (fun s₀ => Reach rxInit rxStep Free s₀ ∧ (s₀.live f = true → s₀.Fits f)) rxStep
        (NotAppending f) s →
      s.live f = true → s.Fits f) := by
  constructor
  · rintro p tx rfl h
    exact fits_packet_iff tx h
  · intro h
    have hinv : RingInv s ∧ (s.live f = true → s.Fits f) := by
      refine h.invariant (I := fun s => RingInv s ∧ (s.live f = true → s.Fits f))
        (fun s₀ h0 => ⟨ringInv_of_reach h0.1, h0.2⟩) ?_
      rintro s a s' ⟨hr, hfit⟩ hok hs
      exact ⟨ringInv_step hr hs, fits_step hr hfit hok hs⟩
    exact hinv.2

/-- A flow that was just opened, and a packet ahead of the stream. -/
theorem window_fits_iff_not_appends_ahead :
    (Path.packet (emptyPath.newFlow 3 100)
      (dataPkt 3 101 (List.replicate 10 0) (by decide)) default).Fits 3 :=
  ((window_fits_iff_not_appends 3 (emptyPath.newFlow 3 100)).1
    (dataPkt 3 101 (List.replicate 10 0) (by decide)) default rfl (by decide)).mpr
      fun h => absurd h.2.1 (by decide)

/-- The first ten bytes of a flow: the window stays at 4096, but only 4086 bytes are free. -/
theorem window_exceeds_space : ¬ ∀ (s : Path) (p : RxPkt) (tx : TxState),
    Reach rxInit rxStep Free s → s.live p.pkt.flowid = true →
    (s.tailPtr p.pkt.flowid - s.headPtr p.pkt.flowid).toNat ≤ ringBytes →
    (s.packet p tx).Fits p.pkt.flowid := by
  intro h
  have hrun : Reach rxInit rxStep Free (emptyPath.newFlow 3 100) :=
    (Reach.start emptyPath_init).next (.newFlow 3 100) trivial rfl
  have hfit := h _ (dataPkt 3 100 (List.replicate 10 0) (by decide)) default hrun rfl (by decide)
  exact absurd hfit.stored (by decide)

end TcpHw.RxPath
