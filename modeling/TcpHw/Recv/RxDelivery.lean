import TcpHw.Recv.RxRing

/-!
# In-order, exactly-once delivery

The peer of a flow sends one byte stream: whatever packets arrive, the byte with a
given sequence number is always the same. The commit pointer starts at zero and
counts copied bytes, so stream byte `j` belongs at ring address `j` modulo the ring
size. That turns the ring contents into a statement without pointers.
-/
namespace TcpHw.RxPath

open Trace

set_option autoImplicit false

/-- A stream and the sequence number of its first byte. -/
structure Stream where
  isn : BitVec 32
  bytes : List Byte
  short : bytes.length < 2 ^ 31

def Stream.byteAt (S : Stream) (seq : BitVec 32) : Option Byte :=
  S.bytes[(seq - S.isn).toNat]?

/-- Every flow starts at the beginning of its stream, and every byte of every packet is
the stream's byte for its sequence number. -/
def Carries (S : FlowId → Stream) (_ : Path) : RxAct → Prop
  | .newFlow f n => n = (S f).isn
  | .packet p _ => ∀ i < p.slab.length,
      (S p.pkt.flowid).byteAt (p.pkt.tcpHdr.seqNum + BitVec.ofNat 32 i) = p.slab[i]?
  | _ => True

instance (S : FlowId → Stream) (s : Path) : ∀ a, Decidable (Carries S s a)
  | .newFlow f n => inferInstanceAs (Decidable (n = (S f).isn))
  | .packet p _ => inferInstanceAs (Decidable (∀ i < p.slab.length, _))
  | .copyOut => .isTrue trivial
  | .appHead _ _ => .isTrue trivial

/-- Committed bytes the application has not released. -/
def Path.held (s : Path) (f : FlowId) : Nat := (s.commitPtr f - s.headPtr f).toNat

/-- The ring between head and commit holds consecutive bytes of the stream, the last one
just before the bytes still waiting, and everything committed is a prefix of the stream. -/
structure Delivered (S : Stream) (s : Path) (f : FlowId) : Prop where
  ring_eq : ∀ i < s.held f,
    S.byteAt (s.ackNum f - BitVec.ofNat 32 (waitingLen f s.queue) -
        BitVec.ofNat 32 (s.held f) + BitVec.ofNat 32 i) =
      some (s.ring f ((s.headPtr f + BitVec.ofNat 13 i).setWidth 12))
  committed_prefix : s.committed f <+: S.bytes

/-! ### Bytes in the queue -/

def waitingBytes (f : FlowId) (q : List QEntry) : List Byte :=
  (q.filter (QEntry.isFor f)).flatMap QEntry.slab

theorem waitingBytes_length (f : FlowId) (q : List QEntry) :
    (waitingBytes f q).length = waitingLen f q := by
  rw [waitingBytes, List.length_flatMap, waitingLen]
  congr 1
  exact List.map_congr_left fun e _ => e.length_eq

theorem waitingBytes_cons (f : FlowId) (e : QEntry) (q : List QEntry) :
    waitingBytes f (e :: q) = (if e.isFor f then e.slab else []) ++ waitingBytes f q := by
  unfold waitingBytes
  by_cases h : e.isFor f <;> simp [h]

theorem waitingBytes_packet (s : Path) (p : RxPkt) (tx : TxState) (f : FlowId) :
    waitingBytes f (s.packet p tx).queue = waitingBytes f s.queue ++
      if p.pkt.flowid = f ∧ (s.estNext p.pkt tx).acceptPayload = true then p.slab else [] := by
  have hone : waitingBytes f [s.qEntry p tx] =
      if p.pkt.flowid = f ∧ (s.estNext p.pkt tx).acceptPayload = true then p.slab else [] := by
    rw [waitingBytes_cons]
    simp [QEntry.isFor, Path.qEntry, waitingBytes]
  by_cases hl : 0 < p.pkt.payloadEntry.payloadLen.toNat
  · rw [← hone]
    simp [Path.packet, hl, waitingBytes]
  · have h0 : p.slab = [] := List.eq_nil_of_length_eq_zero (by rw [p.length_eq]; omega)
    simp [Path.packet, hl, h0]

/-! ### The invariant -/

structure FlowDelivery (S : Stream) (s : Path) (f : FlowId) : Prop where
  accepted : s.committed f ++ waitingBytes f s.queue <+: S.bytes
  ack : s.ackNum f =
    S.isn + BitVec.ofNat 32 ((s.committed f).length + waitingLen f s.queue)
  commit : s.commitPtr f = BitVec.ofNat 13 (s.committed f).length
  held_le : s.held f ≤ (s.committed f).length
  ring : ∀ j < (s.committed f).length, (s.committed f).length ≤ j + s.held f →
    some (s.ring f (BitVec.ofNat 12 j)) = (s.committed f)[j]?

structure DeliveryInv (S : FlowId → Stream) (s : Path) : Prop where
  unborn : ∀ f, s.live f = false → s.committed f = []
  flow : ∀ f, s.live f = true → FlowDelivery (S f) s f

theorem FlowDelivery.congr {S : Stream} {s s' : Path} {f : FlowId} (h : FlowDelivery S s f)
    (hr : s'.ackNum f = s.ackNum f) (hh : s'.headPtr f = s.headPtr f)
    (hc : s'.commitPtr f = s.commitPtr f) (hm : s'.ring f = s.ring f)
    (hd : s'.committed f = s.committed f)
    (hw : waitingBytes f s'.queue = waitingBytes f s.queue) : FlowDelivery S s' f := by
  have hl : waitingLen f s'.queue = waitingLen f s.queue := by
    rw [← waitingBytes_length, ← waitingBytes_length, hw]
  have hn : s'.held f = s.held f := by rw [Path.held, hh, hc, Path.held]
  obtain ⟨h1, h2, h3, h4, h5⟩ := h
  constructor
  · rw [hd, hw]
    exact h1
  · rw [hr, hd, hl]
    exact h2
  · rw [hc, hd]
    exact h3
  · rw [hn, hd]
    exact h4
  · rw [hn, hd, hm]
    exact h5

/-- Bytes the stream has at the sequence numbers following a prefix extend the prefix. -/
theorem prefix_extend {S : Stream} {xs ys : List Byte} (hx : xs <+: S.bytes)
    (hl : ys.length < 2 ^ 16)
    (hy : ∀ i < ys.length,
      S.byteAt (S.isn + BitVec.ofNat 32 xs.length + BitVec.ofNat 32 i) = ys[i]?) :
    xs ++ ys <+: S.bytes := by
  have hxl := hx.length_le
  have hs := S.short
  obtain ⟨t, ht⟩ := hx
  have hpre : ys <+: t := by
    rw [List.prefix_iff_getElem?]
    intro i hi
    have hi' := hy i hi
    have hd : (S.isn + BitVec.ofNat 32 xs.length + BitVec.ofNat 32 i - S.isn).toNat =
        xs.length + i := by
      rw [BitVec.add_assoc, ← BitVec.ofNat_add, BitVec.add_comm, BitVec.add_sub_cancel,
        BitVec.toNat_ofNat]
      omega
    rw [Stream.byteAt, hd, ← ht, List.getElem?_append_right (by omega)] at hi'
    simpa [hi] using hi'
  obtain ⟨u, rfl⟩ := hpre
  exact ⟨u, by rw [List.append_assoc, ht]⟩

private theorem ofNat_sub_ofNat {w a b : Nat} (h : b ≤ a) :
    BitVec.ofNat w a - BitVec.ofNat w b = BitVec.ofNat w (a - b) := by
  have ha : BitVec.ofNat w a = BitVec.ofNat w (a - b) + BitVec.ofNat w b := by
    rw [← BitVec.ofNat_add, Nat.sub_add_cancel h]
  rw [ha, BitVec.add_sub_cancel]

/-- The head pointer is the stream position of the first unreleased byte. -/
theorem FlowDelivery.head_eq {S : Stream} {s : Path} {f : FlowId} (h : FlowDelivery S s f) :
    s.headPtr f = BitVec.ofNat 13 ((s.committed f).length - s.held f) := by
  rw [← ofNat_sub_ofNat h.held_le, ← h.commit, Path.held, BitVec.ofNat_toNat,
    BitVec.setWidth_eq]
  bv_omega

theorem FlowDelivery.delivered {S : Stream} {s : Path} {f : FlowId} (h : FlowDelivery S s f) :
    Delivered S s f := by
  have hpre : s.committed f <+: S.bytes := (List.prefix_append _ _).trans h.accepted
  refine ⟨fun i hi => ?_, hpre⟩
  have hle := h.held_le
  have hshort := S.short
  have hlen := hpre.length_le
  have hseq : s.ackNum f - BitVec.ofNat 32 (waitingLen f s.queue) - BitVec.ofNat 32 (s.held f) +
      BitVec.ofNat 32 i - S.isn =
      BitVec.ofNat 32 ((s.committed f).length - s.held f + i) := by
    rw [h.ack, BitVec.ofNat_add, ← BitVec.add_assoc, BitVec.add_sub_cancel, BitVec.ofNat_add,
      ← ofNat_sub_ofNat hle]
    bv_omega
  have haddr : (s.headPtr f + BitVec.ofNat 13 i).setWidth 12 =
      BitVec.ofNat 12 ((s.committed f).length - s.held f + i) := by
    rw [h.head_eq, ← BitVec.ofNat_add]
    apply BitVec.eq_of_toNat_eq
    simp only [BitVec.toNat_setWidth, BitVec.toNat_ofNat]
    omega
  have hj : (s.committed f).length - s.held f + i < (s.committed f).length := by omega
  rw [Stream.byteAt, hseq, haddr, h.ring _ hj (by omega), BitVec.toNat_ofNat,
    Nat.mod_eq_of_lt (by omega)]
  exact (List.prefix_iff_getElem?.mp hpre _ hj).trans (List.getElem?_eq_getElem hj).symm

/-! ### One lemma for each step -/

theorem delivery_newFlow {S : FlowId → Stream} {s : Path} (hr : RingInv s) (h : DeliveryInv S s)
    {f : FlowId} (hf : s.live f = false) {n : BitVec 32} (hn : n = (S f).isn) :
    DeliveryInv S (s.newFlow f n) := by
  constructor
  · intro g hg
    by_cases hgf : g = f
    · simp [Path.newFlow, hgf] at hg
    · exact h.unborn g (by simpa [Path.newFlow, hgf] using hg)
  · intro g hg
    by_cases hgf : g = f
    · subst hgf
      have hne : ∀ e ∈ s.queue, e.entry.flowid ≠ g := by
        intro e he heq
        have hl := hr.owner e he
        rw [heq, hf] at hl
        cases hl
      have hw : waitingLen g s.queue = 0 := waitingLen_eq_zero hne
      have hwb : waitingBytes g s.queue = [] :=
        List.eq_nil_of_length_eq_zero ((waitingBytes_length g s.queue).trans hw)
      have hc := h.unborn g hf
      constructor <;> simp [Path.newFlow, Path.ackNum, Path.held, hw, hwb, hc, hn]
    · have hl : s.live g = true := by simpa [Path.newFlow, hgf] using hg
      refine (h.flow g hl).congr ?_ ?_ ?_ rfl rfl rfl <;> simp [Path.newFlow, Path.ackNum, hgf]

/-- An accepted packet starts at the acknowledgement number, which is the sequence number
after everything accepted so far. -/
theorem flowDelivery_accept {S : Stream} {s : Path} {p : RxPkt} {tx : TxState}
    (h : FlowDelivery S s p.pkt.flowid) (ha : (s.estNext p.pkt tx).acceptPayload = true)
    (hc : ∀ i < p.slab.length,
      S.byteAt (p.pkt.tcpHdr.seqNum + BitVec.ofNat 32 i) = p.slab[i]?) :
    FlowDelivery S (s.packet p tx) p.pkt.flowid := by
  obtain ⟨hseq, -, hack, -⟩ := packet_of_accept ha
  have hwb := waitingBytes_packet s p tx p.pkt.flowid
  rw [if_pos ⟨rfl, ha⟩] at hwb
  have hwl : waitingLen p.pkt.flowid (s.packet p tx).queue =
      waitingLen p.pkt.flowid s.queue + p.slab.length := by
    rw [← waitingBytes_length, hwb, List.length_append, waitingBytes_length]
  refine ⟨?_, ?_, h.commit, h.held_le, h.ring⟩
  · rw [hwb]
    change s.committed p.pkt.flowid ++ (_ ++ _) <+: _
    rw [← List.append_assoc]
    refine prefix_extend h.accepted ?_ fun i hi => ?_
    · rw [p.length_eq]
      exact p.pkt.payloadEntry.payloadLen.isLt
    · rw [List.length_append, waitingBytes_length, ← h.ack]
      exact hseq ▸ hc i hi
  · change _ = S.isn + BitVec.ofNat 32 ((s.committed p.pkt.flowid).length + _)
    rw [hack, hwl, h.ack, ← Nat.add_assoc, BitVec.add_assoc, ← BitVec.ofNat_add]

theorem delivery_packet {S : FlowId → Stream} {s : Path} (h : DeliveryInv S s) {p : RxPkt}
    {tx : TxState} (hc : Carries S s (.packet p tx)) : DeliveryInv S (s.packet p tx) := by
  refine ⟨h.unborn, fun f hf => ?_⟩
  by_cases hpf : p.pkt.flowid = f ∧ (s.estNext p.pkt tx).acceptPayload = true
  · obtain ⟨rfl, ha⟩ := hpf
    exact flowDelivery_accept (h.flow _ hf) ha hc
  · have hwb := waitingBytes_packet s p tx f
    rw [if_neg hpf, List.append_nil] at hwb
    refine (h.flow f hf).congr ?_ rfl rfl rfl rfl hwb
    by_cases hf' : f = p.pkt.flowid
    · subst hf'
      have ha : (s.estNext p.pkt tx).acceptPayload = false := by simpa using hpf
      exact (packet_of_reject ha).1
    · simp [Path.ackNum, Path.packet, hf']

/-- Distances on the address bits from the first address a copy writes: the copied bytes
come first, the unreleased ones only after a whole ring minus their number. -/
private theorem addr_dist {c j n k : Nat} (hk : n + k ≤ 4096) (hj : j < c + k)
    (hn : c ≤ j + n) :
    (BitVec.ofNat 12 j - BitVec.ofNat 12 c).toNat = if c ≤ j then j - c else 4096 - (c - j) := by
  rw [BitVec.toNat_sub, BitVec.toNat_ofNat, BitVec.toNat_ofNat]
  split <;> omega

/-- A copy stores the next stretch of the stream behind the unreleased bytes. -/
theorem flowDelivery_commit {S : Stream} {s : Path} {e : QEntry} {q : List QEntry}
    (hq : s.queue = e :: q) (ha : e.entry.acceptPayload = true)
    (hr : FlowInv s e.entry.flowid) (h : FlowDelivery S s e.entry.flowid) :
    FlowDelivery S { s.commit e with queue := q } e.entry.flowid := by
  have hfor : e.isFor e.entry.flowid = true := by simp [QEntry.isFor, ha]
  have hwb : waitingBytes e.entry.flowid s.queue =
      e.slab ++ waitingBytes e.entry.flowid q := by
    rw [hq, waitingBytes_cons, if_pos hfor]
  have hwl : waitingLen e.entry.flowid s.queue =
      e.slab.length + waitingLen e.entry.flowid q := by
    rw [← waitingBytes_length, hwb, List.length_append, waitingBytes_length]
  have hroom : s.held e.entry.flowid + e.slab.length ≤ 4096 := by
    have hsum := hr.sum
    have hfull := hr.full
    simp only [ringBytes] at hfull
    unfold Path.held
    omega
  have hlog : (s.commit e).committed e.entry.flowid = s.committed e.entry.flowid ++ e.slab := by
    simp [Path.commit]
  have hptr : (s.commit e).commitPtr e.entry.flowid =
      s.commitPtr e.entry.flowid + BitVec.ofNat 13 e.slab.length := by
    simp [Path.commit, e.length_eq]
  have hheld : (s.commit e).held e.entry.flowid =
      s.held e.entry.flowid + e.slab.length := by
    rw [Path.held, hptr]
    exact dist_add hroom
  have hle := h.held_le
  constructor
  · change (s.commit e).committed e.entry.flowid ++ waitingBytes e.entry.flowid q <+: _
    rw [hlog, List.append_assoc, ← hwb]
    exact h.accepted
  · change s.ackNum e.entry.flowid =
      S.isn + BitVec.ofNat 32 (((s.commit e).committed e.entry.flowid).length + waitingLen _ q)
    rw [hlog, List.length_append, Nat.add_assoc, ← hwl]
    exact h.ack
  · change (s.commit e).commitPtr e.entry.flowid =
      BitVec.ofNat 13 ((s.commit e).committed e.entry.flowid).length
    rw [hptr, hlog, List.length_append, h.commit, BitVec.ofNat_add]
  · change (s.commit e).held e.entry.flowid ≤
      ((s.commit e).committed e.entry.flowid).length
    rw [hheld, hlog, List.length_append]
    omega
  · intro j hj hn
    change j < ((s.commit e).committed e.entry.flowid).length at hj
    change ((s.commit e).committed e.entry.flowid).length ≤
      j + (s.commit e).held e.entry.flowid at hn
    change some ((s.commit e).ring e.entry.flowid (BitVec.ofNat 12 j)) =
      ((s.commit e).committed e.entry.flowid)[j]?
    rw [hlog, List.length_append] at hj hn
    rw [hheld] at hn
    have hd := addr_dist hroom hj (by omega)
    have hw : (s.commit e).ring e.entry.flowid (BitVec.ofNat 12 j) =
        e.slab.getD (BitVec.ofNat 12 j -
          BitVec.ofNat 12 (s.committed e.entry.flowid).length).toNat
          (s.ring e.entry.flowid (BitVec.ofNat 12 j)) := by
      have hp : (s.commitPtr e.entry.flowid).setWidth 12 =
          BitVec.ofNat 12 (s.committed e.entry.flowid).length := by
        rw [h.commit]
        apply BitVec.eq_of_toNat_eq
        simp only [BitVec.toNat_setWidth, BitVec.toNat_ofNat]
        omega
      simp only [Path.commit, Function.update_self, hp]
      exact Ring.write_eq _ _ _ (by omega)
    rw [hw, hd, hlog]
    split
    · rename_i hcj
      rw [List.getElem?_append_right hcj, List.getD_eq_getElem _ _ (by omega),
        List.getElem?_eq_getElem (by omega)]
    · rename_i hcj
      rw [List.getElem?_append_left (by omega), List.getD_eq_default _ _ (by omega)]
      exact h.ring j (by omega) (by omega)

theorem delivery_copyOut {S : FlowId → Stream} {s : Path} (hr : RingInv s)
    (h : DeliveryInv S s) {e : QEntry} {q : List QEntry} (hq : s.queue = e :: q) :
    DeliveryInv S (s.copyOut e q) := by
  by_cases hskip : e.len = 0 ∨ e.entry.acceptPayload = false
  · rw [copyOut_of_skip hskip]
    refine ⟨h.unborn, fun f hf => (h.flow f hf).congr rfl rfl rfl rfl rfl ?_⟩
    rw [hq, waitingBytes_cons]
    rcases hskip with h0 | h0
    · have hs : e.slab = [] := List.eq_nil_of_length_eq_zero (e.length_eq.trans h0)
      simp [hs]
    · simp [QEntry.isFor, h0]
  · simp only [not_or, Bool.not_eq_false] at hskip
    have hlive : s.live e.entry.flowid = true := hr.owner e (by simp [hq])
    rw [copyOut_of_commit hskip.1 hskip.2]
    constructor
    · intro f hf
      have hef : f ≠ e.entry.flowid := by
        rintro rfl
        exact absurd hf (by simp [Path.commit, hlive])
      simpa [Path.commit, hef] using h.unborn f hf
    · intro f hf
      by_cases hef : f = e.entry.flowid
      · subst hef
        exact flowDelivery_commit hq hskip.2 (hr.flow _ hf) (h.flow _ hf)
      · have hne : e.isFor f = false := by simp [QEntry.isFor, Ne.symm hef]
        refine (h.flow f hf).congr rfl rfl ?_ ?_ ?_ ?_
        · simp [Path.commit, hef]
        · simp [Path.commit, hef]
        · simp [Path.commit, hef]
        · simp [hq, waitingBytes_cons, hne]

theorem delivery_appHead {S : FlowId → Stream} {s : Path} (h : DeliveryInv S s) {f : FlowId}
    {p : Ptr} (hp : appHeadOk s f p) :
    DeliveryInv S { s with headPtr := Function.update s.headPtr f p } := by
  refine ⟨h.unborn, fun g hg => ?_⟩
  by_cases hgf : g = f
  · subst hgf
    obtain ⟨h1, h2, h3, h4, h5⟩ := h.flow g hg
    have hle : Path.held { s with headPtr := Function.update s.headPtr g p } g ≤ s.held g := by
      unfold Path.held
      simp only [Function.update_self]
      rw [dist_release hp]
      exact Nat.sub_le _ _
    exact ⟨h1, h2, h3, hle.trans h4, fun j hj hn => h5 j hj (hn.trans (by omega))⟩
  · exact (h.flow g hg).congr rfl (by simp [hgf]) rfl rfl rfl rfl

/-! ### Runs -/

theorem delivery_step {S : FlowId → Stream} {s s' : Path} {a : RxAct} (hr : RingInv s)
    (h : DeliveryInv S s) (hc : Carries S s a) (hs : rxStep s a = some s') :
    DeliveryInv S s' := by
  cases a with
  | newFlow f n =>
    simp only [rxStep, Option.ite_none_left_eq_some, Option.some.injEq] at hs
    obtain ⟨hf, rfl⟩ := hs
    exact delivery_newFlow hr h (by simpa using hf) hc
  | packet p tx =>
    simp only [rxStep, Option.ite_none_right_eq_some, Option.some.injEq] at hs
    obtain ⟨-, rfl⟩ := hs
    exact delivery_packet h hc
  | copyOut =>
    simp only [rxStep] at hs
    split at hs
    · cases hs
    · rename_i e q hq
      cases hs
      exact delivery_copyOut hr h hq
  | appHead f p =>
    simp only [rxStep, Option.ite_none_right_eq_some, Option.some.injEq] at hs
    obtain ⟨⟨-, hp⟩, rfl⟩ := hs
    exact delivery_appHead h hp

theorem delivery_init {S : FlowId → Stream} {s : Path} (h : rxInit s) : DeliveryInv S s where
  unborn := fun f _ => h.2.2 f
  flow := fun f hf => by simp [h.1 f] at hf

/-- Whatever packets of the streams arrive, each live flow's ring and everything committed
for it are the stream, in order and once. -/
theorem delivered_in_order (S : FlowId → Stream) {s : Path}
    (h : Reach rxInit rxStep (Carries S) s) {f : FlowId} (hf : s.live f = true) :
    Delivered (S f) s f := by
  have hinv : DeliveryInv S s :=
    h.invariant_of (fun _ => ringInv_of_reach) (fun _ => delivery_init)
      (fun _ _ _ hr hd hc hs => delivery_step hr hd hc hs)
  exact (hinv.flow f hf).delivered

/-- A stream that crosses the wrap of the sequence number, arriving out of order, doubled
and overlapping. -/
theorem delivered_in_order_wrap : ∃ s : Path,
    Reach rxInit rxStep (Carries fun _ => ⟨0xFFFFFFFE#32, [1, 2, 3, 4, 5], by decide⟩) s ∧
      s.committed 7 = [1, 2, 3, 4] ∧
      Delivered ⟨0xFFFFFFFE#32, [1, 2, 3, 4, 5], by decide⟩ s 7 := by
  have hrun : ∃ s, Reach rxInit rxStep
      (Carries fun _ => ⟨0xFFFFFFFE#32, [1, 2, 3, 4, 5], by decide⟩) s ∧
        (s.live 7 && s.committed 7 == [1, 2, 3, 4]) = true :=
    Reach.exists_of_run [.newFlow 7 0xFFFFFFFE#32,
      .packet (dataPkt 7 0 [3, 4] (by decide)) default,
      .packet (dataPkt 7 0xFFFFFFFE#32 [1, 2] (by decide)) default, .copyOut, .copyOut,
      .packet (dataPkt 7 0xFFFFFFFE#32 [1, 2] (by decide)) default,
      .packet (dataPkt 7 0xFFFFFFFF#32 [2, 3, 4] (by decide)) default, .appHead 7 1,
      .packet (dataPkt 7 0 [3, 4] (by decide)) default, .copyOut, .copyOut, .copyOut,
      .packet (dataPkt 7 2 [5] (by decide)) default] emptyPath_init (by decide +kernel)
  obtain ⟨s, hr, hp⟩ := hrun
  simp only [Bool.and_eq_true, beq_iff_eq] at hp
  exact ⟨s, hr, hp.2, delivered_in_order _ hr hp.1⟩

end TcpHw.RxPath
