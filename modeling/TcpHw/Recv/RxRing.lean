import TcpHw.Recv.RxPath

/-!
# The receive ring of every flow

Tail, commit and head pointer live in three memories and are moved by three agents.
The invariant counts the bytes between them: released, committed, waiting. A
packet step adds to the last count, a copy moves bytes from the last to the one
before, and a head update removes committed bytes.
-/
namespace TcpHw.RxPath

open Trace

set_option autoImplicit false

/-- The ring of flow `f`: pointer order, a constant distance between tail and
acknowledgement number, the bytes still to be copied, and a next copy that stays clear
of the unreleased bytes. -/
structure RingOrdered (s : Path) (f : FlowId) : Prop where
  commit_le : (s.commitPtr f - s.headPtr f).toNat ≤ (s.tailPtr f - s.headPtr f).toNat
  tail_le : (s.tailPtr f - s.headPtr f).toNat ≤ ringBytes
  offset : s.tailPtr f - (s.ackNum f).setWidth 13 = 0 - (s.startAck f).setWidth 13
  waiting : (s.tailPtr f - s.commitPtr f).toNat = waitingLen f s.queue
  clear : ∀ e q, s.queue = e :: q → e.isFor f = true →
    ∀ i < e.len, ∀ j < (s.commitPtr f - s.headPtr f).toNat,
      (s.commitPtr f + BitVec.ofNat 13 i).setWidth 12 ≠
        (s.headPtr f + BitVec.ofNat 13 j).setWidth 12

/-- The counted form that every step keeps. -/
structure FlowInv (s : Path) (f : FlowId) : Prop where
  sum : (s.commitPtr f - s.headPtr f).toNat + waitingLen f s.queue =
    (s.tailPtr f - s.headPtr f).toNat
  full : (s.tailPtr f - s.headPtr f).toNat ≤ ringBytes
  offset : s.tailPtr f - (s.ackNum f).setWidth 13 = 0 - (s.startAck f).setWidth 13

structure RingInv (s : Path) : Prop where
  owner : ∀ e ∈ s.queue, s.live e.entry.flowid = true
  flow : ∀ f, s.live f = true → FlowInv s f

/-- Only the flow's own cells and its waiting bytes matter. -/
theorem FlowInv.congr {s s' : Path} {f : FlowId} (h : FlowInv s f)
    (hr : s'.recvState f = s.recvState f) (hh : s'.headPtr f = s.headPtr f)
    (ht : s'.tailPtr f = s.tailPtr f) (hc : s'.commitPtr f = s.commitPtr f)
    (ha : s'.startAck f = s.startAck f)
    (hw : waitingLen f s'.queue = waitingLen f s.queue) : FlowInv s' f := by
  obtain ⟨hsum, hfull, hoff⟩ := h
  constructor
  · rw [hh, ht, hc, hw]
    exact hsum
  · rw [hh, ht]
    exact hfull
  · rw [ht, ha, Path.ackNum, hr]
    exact hoff

/-! ### Pointer arithmetic -/

theorem dist_add {tail head : Ptr} {n : Nat} (h : (tail - head).toNat + n ≤ ringBytes) :
    (tail + BitVec.ofNat 13 n - head).toNat = (tail - head).toNat + n := by
  have hc : tail + BitVec.ofNat 13 n - head = (tail - head) + BitVec.ofNat 13 n := by
    rw [← BitVec.sub_add_comm]
  rw [hc, BitVec.toNat_add, BitVec.toNat_ofNat]
  simp only [ringBytes] at h
  omega

theorem dist_release {x h k : Ptr} (hle : (k - h).toNat ≤ (x - h).toNat) :
    (x - k).toNat = (x - h).toNat - (k - h).toNat := by
  bv_omega

private theorem dist_between {tail commit head : Ptr} {w : Nat}
    (h : (commit - head).toNat + w = (tail - head).toNat) : (tail - commit).toNat = w := by
  bv_omega

theorem spaceLeft_toNat {head tail : Ptr} (h : (tail - head).toNat ≤ ringBytes) :
    (spaceLeft head tail).toNat = ringBytes - (tail - head).toNat := by
  unfold spaceLeft
  simp only [ringBytes] at h ⊢
  bv_omega

/-- The write pointer and the acknowledgement number move together. -/
theorem offset_add (tail : Ptr) (ack : BitVec 32) (n : Nat) :
    tail + BitVec.ofNat 13 n - (ack + BitVec.ofNat 32 n).setWidth 13 = tail - ack.setWidth 13 := by
  rw [BitVec.setWidth_add _ _ (by decide), BitVec.setWidth_ofNat_of_le (by decide),
    BitVec.add_comm (ack.setWidth 13), ← BitVec.sub_sub, BitVec.add_sub_cancel]

/-- Within one ring's distance, addresses below the wrap bit stay apart. -/
private theorem addr_ne {commit head : Ptr} {n i j : Nat}
    (h : (commit - head).toNat + n ≤ ringBytes) (hi : i < n)
    (hj : j < (commit - head).toNat) :
    (commit + BitVec.ofNat 13 i).setWidth 12 ≠ (head + BitVec.ofNat 13 j).setWidth 12 := by
  simp only [ringBytes] at h
  intro he
  have hd : (commit - head).toNat + i - j < 4096 := by omega
  have hx : commit + BitVec.ofNat 13 i =
      head + BitVec.ofNat 13 j + BitVec.ofNat 13 ((commit - head).toNat + i - j) := by
    have hs : (commit - head).toNat + i = j + ((commit - head).toNat + i - j) := by omega
    rw [BitVec.add_assoc, ← BitVec.ofNat_add, ← hs, BitVec.ofNat_add, BitVec.ofNat_toNat,
      BitVec.setWidth_eq, ← BitVec.add_assoc, BitVec.add_comm head, BitVec.sub_add_cancel]
  generalize hk : (commit - head).toNat + i - j = k at hd hx
  have hk0 : 0 < k := by omega
  rw [hx] at he
  generalize head + BitVec.ofNat 13 j = y at he
  bv_omega

/-! ### The counted form gives the order -/

theorem FlowInv.ordered {s : Path} {f : FlowId} (h : FlowInv s f) : RingOrdered s f := by
  have hsum := h.sum
  refine ⟨by omega, h.full, h.offset, dist_between hsum, ?_⟩
  intro e q hq he i hi j hj
  have hw : waitingLen f s.queue = e.len + waitingLen f q := by
    rw [hq, waitingLen_cons, if_pos he]
  have hfull := h.full
  exact addr_ne (n := e.len) (by omega) hi hj

/-! ### One lemma for each step -/

theorem ringInv_newFlow {s : Path} (h : RingInv s) {f : FlowId} (hf : s.live f = false)
    (n : BitVec 32) : RingInv (s.newFlow f n) := by
  have hne : ∀ e ∈ s.queue, e.entry.flowid ≠ f := by
    intro e he heq
    have hl := h.owner e he
    rw [heq, hf] at hl
    cases hl
  constructor
  · intro e he
    simp [Path.newFlow, Function.update_of_ne (hne e he), h.owner e he]
  · intro g hg
    by_cases hgf : g = f
    · subst hgf
      have hw : waitingLen g s.queue = 0 := waitingLen_eq_zero hne
      constructor <;> simp [Path.newFlow, Path.ackNum, hw]
    · have hl : s.live g = true := by simpa [Path.newFlow, hgf] using hg
      refine (h.flow g hl).congr ?_ ?_ ?_ ?_ ?_ rfl <;> simp [Path.newFlow, hgf]

/-- The waiting bytes after a packet of flow `p.pkt.flowid`. -/
theorem waitingLen_packet (s : Path) (p : RxPkt) (tx : TxState) (f : FlowId) :
    waitingLen f (s.packet p tx).queue = waitingLen f s.queue +
      if p.pkt.flowid = f ∧ (s.estNext p.pkt tx).acceptPayload = true then
        p.pkt.payloadEntry.payloadLen.toNat else 0 := by
  have hone : waitingLen f [s.qEntry p tx] =
      if p.pkt.flowid = f ∧ (s.estNext p.pkt tx).acceptPayload = true then
        p.pkt.payloadEntry.payloadLen.toNat else 0 := by
    simp [waitingLen_cons, QEntry.isFor, QEntry.len, Path.qEntry]
  by_cases hl : 0 < p.pkt.payloadEntry.payloadLen.toNat
  · rw [← hone, ← waitingLen_append]
    simp [Path.packet, hl]
  · have h0 : p.pkt.payloadEntry.payloadLen.toNat = 0 := by omega
    simp [Path.packet, h0]

/-- An accepted payload starts at the acknowledgement number, fits the free space, and
moves the acknowledgement number and the tail by its length. -/
theorem packet_of_accept {s : Path} {p : RxPkt} {tx : TxState}
    (ha : (s.estNext p.pkt tx).acceptPayload = true) :
    p.pkt.tcpHdr.seqNum = s.ackNum p.pkt.flowid ∧
      p.slab.length ≤ (spaceLeft (s.headPtr p.pkt.flowid) (s.tailPtr p.pkt.flowid)).toNat ∧
      (s.packet p tx).ackNum p.pkt.flowid =
        s.ackNum p.pkt.flowid + BitVec.ofNat 32 p.slab.length ∧
      (s.packet p tx).tailPtr p.pkt.flowid =
        s.tailPtr p.pkt.flowid + BitVec.ofNat 13 p.slab.length := by
  obtain ⟨-, hseq, hlen⟩ := (acceptPayload_iff _ _ _ _).mp ha
  obtain ⟨hnext, htail⟩ := estCompute_of_accept tx.txCurrSeqNum tx.txCurrAckState ha
  rw [p.length_eq]
  refine ⟨hseq, hlen, ?_, ?_⟩
  · simp only [Path.ackNum, Path.packet, Function.update_self]
    exact hnext
  · simp only [Path.packet, ha, if_true, Function.update_self]
    exact htail

theorem packet_of_reject {s : Path} {p : RxPkt} {tx : TxState}
    (ha : (s.estNext p.pkt tx).acceptPayload = false) :
    (s.packet p tx).ackNum p.pkt.flowid = s.ackNum p.pkt.flowid ∧
      (s.packet p tx).tailPtr = s.tailPtr := by
  obtain ⟨hnext, -⟩ := estCompute_of_reject tx.txCurrSeqNum tx.txCurrAckState ha
  refine ⟨?_, by simp [Path.packet, ha]⟩
  simp only [Path.ackNum, Path.packet, Function.update_self]
  exact hnext

theorem flowInv_packet {s : Path} {p : RxPkt} {tx : TxState} (h : FlowInv s p.pkt.flowid) :
    FlowInv (s.packet p tx) p.pkt.flowid := by
  have hw := waitingLen_packet s p tx p.pkt.flowid
  rw [← p.length_eq] at hw
  obtain ⟨hsum, hfull, hoff⟩ := h
  by_cases ha : (s.estNext p.pkt tx).acceptPayload = true
  · obtain ⟨-, hlen, hack, ht⟩ := packet_of_accept ha
    rw [spaceLeft_toNat hfull] at hlen
    have hd : (s.tailPtr p.pkt.flowid + BitVec.ofNat 13 p.slab.length -
        s.headPtr p.pkt.flowid).toNat =
        (s.tailPtr p.pkt.flowid - s.headPtr p.pkt.flowid).toNat + p.slab.length :=
      dist_add (by omega)
    rw [if_pos ⟨rfl, ha⟩] at hw
    constructor
    · rw [ht, hw]
      change (s.commitPtr p.pkt.flowid - s.headPtr p.pkt.flowid).toNat + _ =
        (_ - s.headPtr p.pkt.flowid).toNat
      omega
    · rw [ht]
      change (_ - s.headPtr p.pkt.flowid).toNat ≤ _
      omega
    · rw [ht, hack]
      change _ = 0 - BitVec.setWidth 13 (s.startAck p.pkt.flowid)
      rw [← hoff]
      exact offset_add _ _ _
  · obtain ⟨hack, ht⟩ := packet_of_reject (Bool.not_eq_true _ ▸ ha)
    rw [if_neg (fun hc => ha hc.2), Nat.add_zero] at hw
    constructor
    · rw [ht, hw]
      exact hsum
    · rw [ht]
      exact hfull
    · rw [ht, hack]
      exact hoff

theorem ringInv_packet {s : Path} (h : RingInv s) {p : RxPkt} (hp : s.live p.pkt.flowid = true)
    (tx : TxState) : RingInv (s.packet p tx) := by
  constructor
  · intro e he
    by_cases hl : 0 < p.pkt.payloadEntry.payloadLen.toNat
    · simp only [Path.packet, hl, if_true, List.mem_append, List.mem_singleton] at he
      rcases he with he | rfl
      · exact h.owner e he
      · exact hp
    · simp only [Path.packet, hl, if_false] at he
      exact h.owner e he
  · intro f hf
    by_cases hpf : f = p.pkt.flowid
    · subst hpf
      exact flowInv_packet (h.flow _ hf)
    · have hw := waitingLen_packet s p tx f
      rw [if_neg (fun hc => hpf hc.1.symm), Nat.add_zero] at hw
      refine (h.flow f hf).congr ?_ rfl ?_ rfl rfl hw
      · simp [Path.packet, hpf]
      · by_cases ha : (s.estNext p.pkt tx).acceptPayload = true <;> simp [Path.packet, ha, hpf]

theorem copyOut_of_skip {s : Path} {e : QEntry} {q : List QEntry}
    (h : e.len = 0 ∨ e.entry.acceptPayload = false) : s.copyOut e q = { s with queue := q } := by
  have hc : (e.entry.payloadEntry.payloadLen == 0 || !e.entry.acceptPayload) = true := by
    rcases h with h | h
    · have h0 : e.entry.payloadEntry.payloadLen = 0 := BitVec.eq_of_toNat_eq h
      simp [h0]
    · simp [h]
  simp only [Path.copyOut, hc, if_true]

theorem copyOut_of_commit {s : Path} {e : QEntry} {q : List QEntry} (hl : e.len ≠ 0)
    (ha : e.entry.acceptPayload = true) : s.copyOut e q = { s.commit e with queue := q } := by
  have hc : (e.entry.payloadEntry.payloadLen == 0 || !e.entry.acceptPayload) = false := by
    have h0 : e.entry.payloadEntry.payloadLen ≠ 0#16 := fun h => hl (by simp [QEntry.len, h])
    simp [h0, ha]
  rw [Path.copyOut, hc, if_neg Bool.false_ne_true]

/-- A copy turns the first waiting bytes of its flow into committed ones. -/
theorem flowInv_commit {s : Path} {e : QEntry} {q : List QEntry} (hq : s.queue = e :: q)
    (ha : e.entry.acceptPayload = true) (h : FlowInv s e.entry.flowid) :
    FlowInv { s.commit e with queue := q } e.entry.flowid := by
  have hw : waitingLen e.entry.flowid s.queue = e.len + waitingLen e.entry.flowid q := by
    rw [hq, waitingLen_cons, if_pos (by simp [QEntry.isFor, ha])]
  have hsum := h.sum
  have hfull := h.full
  have hd : (s.commitPtr e.entry.flowid + BitVec.ofNat 13 e.len -
      s.headPtr e.entry.flowid).toNat =
      (s.commitPtr e.entry.flowid - s.headPtr e.entry.flowid).toNat + e.len :=
    dist_add (by omega)
  refine ⟨?_, h.full, h.offset⟩
  have hc : (s.commit e).commitPtr e.entry.flowid =
      s.commitPtr e.entry.flowid + BitVec.ofNat 13 e.len := by
    simp [Path.commit, QEntry.len]
  change ((s.commit e).commitPtr e.entry.flowid - s.headPtr e.entry.flowid).toNat + waitingLen _ q =
    (s.tailPtr e.entry.flowid - s.headPtr e.entry.flowid).toNat
  rw [hc, hd]
  omega

theorem ringInv_copyOut {s : Path} (h : RingInv s) {e : QEntry} {q : List QEntry}
    (hq : s.queue = e :: q) : RingInv (s.copyOut e q) := by
  have howner : ∀ e' ∈ q, s.live e'.entry.flowid = true := fun e' he =>
    h.owner e' (by rw [hq]; exact List.mem_cons_of_mem _ he)
  by_cases hskip : e.len = 0 ∨ e.entry.acceptPayload = false
  · rw [copyOut_of_skip hskip]
    refine ⟨howner, fun f hf => (h.flow f hf).congr rfl rfl rfl rfl rfl ?_⟩
    rw [hq, waitingLen_cons]
    rcases hskip with h0 | h0 <;> simp [QEntry.isFor, h0]
  · simp only [not_or, Bool.not_eq_false] at hskip
    rw [copyOut_of_commit hskip.1 hskip.2]
    refine ⟨howner, fun f hf => ?_⟩
    by_cases hef : f = e.entry.flowid
    · subst hef
      exact flowInv_commit hq hskip.2 (h.flow _ hf)
    · refine (h.flow f hf).congr rfl rfl rfl ?_ rfl ?_
      · simp [Path.commit, hef]
      · have hne : e.isFor f = false := by simp [QEntry.isFor, Ne.symm hef]
        simp [hq, waitingLen_cons, hne]

theorem ringInv_appHead {s : Path} (h : RingInv s) {f : FlowId} {p : Ptr}
    (hp : appHeadOk s f p) :
    RingInv { s with headPtr := Function.update s.headPtr f p } := by
  refine ⟨h.owner, fun g hg => ?_⟩
  by_cases hgf : g = f
  · subst hgf
    obtain ⟨hsum, hfull, hoff⟩ := h.flow g hg
    have hc := dist_release hp
    have hle : (p - s.headPtr g).toNat ≤ (s.commitPtr g - s.headPtr g).toNat := hp
    have ht := dist_release (x := s.tailPtr g) (h := s.headPtr g) (k := p) (by omega)
    constructor
    · simp only [Function.update_self]
      omega
    · simp only [Function.update_self]
      omega
    · exact hoff
  · exact (h.flow g hg).congr rfl (by simp [hgf]) rfl rfl rfl rfl

/-! ### Runs -/

theorem ringInv_step {s s' : Path} {a : RxAct} (h : RingInv s) (hs : rxStep s a = some s') :
    RingInv s' := by
  cases a with
  | newFlow f n =>
    simp only [rxStep, Option.ite_none_left_eq_some, Option.some.injEq] at hs
    obtain ⟨hf, rfl⟩ := hs
    exact ringInv_newFlow h (by simpa using hf) n
  | packet p tx =>
    simp only [rxStep, Option.ite_none_right_eq_some, Option.some.injEq] at hs
    obtain ⟨⟨hp, -⟩, rfl⟩ := hs
    exact ringInv_packet h hp tx
  | copyOut =>
    simp only [rxStep] at hs
    split at hs
    · cases hs
    · rename_i e q hq
      cases hs
      exact ringInv_copyOut h hq
  | appHead f p =>
    simp only [rxStep, Option.ite_none_right_eq_some, Option.some.injEq] at hs
    obtain ⟨⟨-, hp⟩, rfl⟩ := hs
    exact ringInv_appHead h hp

theorem ringInv_init {s : Path} (h : rxInit s) : RingInv s where
  owner := by simp [h.2.1]
  flow := fun f hf => by simp [h.1 f] at hf

theorem ringInv_of_reach {ok : Path → RxAct → Prop} {s : Path} (h : Reach rxInit rxStep ok s) :
    RingInv s :=
  h.invariant (fun _ => ringInv_init) (fun _ _ _ hi _ hs => ringInv_step hi hs)

/-- Every live flow's ring is ordered in every reachable state. -/
theorem ring_ordered {s : Path} (h : Reach rxInit rxStep Free s) {f : FlowId}
    (hf : s.live f = true) : RingOrdered s f :=
  ((ringInv_of_reach h).flow f hf).ordered

/-- A full ring is released, filled again across the wrap of the address, and copied. -/
theorem ring_ordered_wrap : ∃ s : Path, Reach rxInit rxStep Free s ∧
    s.commitPtr 3 = 0x1010#13 ∧ RingOrdered s 3 := by
  let zeros (seq : BitVec 32) (n : Nat) (h : n < 2 ^ 16) : RxPkt :=
    dataPkt 3 seq (List.replicate n 0) (by rwa [List.length_replicate])
  have hrun : ∃ s, Reach rxInit rxStep Free s ∧
      (s.live 3 && s.commitPtr 3 == 0x1010#13) = true :=
    Reach.exists_of_run [.newFlow 3 100, .packet (zeros 100 4000 (by decide)) default, .copyOut,
      .packet (zeros 4100 4000 (by decide)) default, .copyOut, .appHead 3 3000,
      .packet (zeros 4100 104 (by decide)) default, .packet (zeros 4204 8 (by decide)) default,
      .copyOut, .copyOut] emptyPath_init (by decide +kernel)
  obtain ⟨s, hr, hp⟩ := hrun
  simp only [Bool.and_eq_true, beq_iff_eq] at hp
  exact ⟨s, hr, hp.2, ring_ordered hr hp.1⟩

end TcpHw.RxPath
