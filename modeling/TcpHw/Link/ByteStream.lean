import TcpHw.Link.TcpLink

/-!
# The byte stream over a link

The receiver accepts a segment by its number alone. Among the messages that are still alive the
number tells the place in the stream, and the sender releases a byte only when it has seen an
acknowledgement for it, so that the segment at the place the receiver waits for was read out of the
ring before any of its bytes could be released. Segments that were read too late lie before that
place.
-/
namespace TcpHw

open Trace RxPath TxSequence

set_option autoImplicit false

/-! ### The receive half -/

namespace RxPath

/-- What the receive path of a flow keeps whatever is accepted: the acknowledgement number counts
the accepted bytes, and the committed bytes that were not read are in the ring. -/
structure Receives (isn : BitVec 32) (f : FlowId) (s : Path) (read : List Byte) : Prop where
  live : s.live f = true
  ack : s.ackNum f =
    isn + BitVec.ofNat 32 (s.committed f ++ waitingBytes f s.queue).length
  commit : s.commitPtr f = BitVec.ofNat 13 (s.committed f).length
  ring : s.committed f = read ++ Ring.slice (s.ring f) (BitVec.ofNat 12 read.length) (s.held f)

variable {isn : BitVec 32} {f : FlowId} {s s' : Path} {read : List Byte}

theorem length_slice {w : Nat} (m : BitVec w → Byte) (p : BitVec w) (n : Nat) :
    (Ring.slice m p n).length = n := by
  simp [Ring.slice]

theorem Receives.length_committed (h : Receives isn f s read) :
    (s.committed f).length = read.length + s.held f := by
  rw [h.ring, List.length_append, length_slice]

theorem Receives.head_eq (h : Receives isn f s read) :
    s.headPtr f = BitVec.ofNat 13 read.length := by
  have hc := h.commit
  rw [h.length_committed, BitVec.ofNat_add, Path.held, BitVec.ofNat_toNat, BitVec.setWidth_eq] at hc
  bv_omega

theorem Receives.congr (h : Receives isn f s read) (hl : s'.live f = s.live f)
    (ha : s'.ackNum f = s.ackNum f) (hh : s'.headPtr f = s.headPtr f)
    (hc : s'.commitPtr f = s.commitPtr f) (hr : s'.ring f = s.ring f)
    (hd : s'.committed f = s.committed f)
    (hw : waitingBytes f s'.queue = waitingBytes f s.queue) : Receives isn f s' read := by
  have hn : s'.held f = s.held f := by rw [Path.held, hh, hc, Path.held]
  refine ⟨hl.trans h.live, ?_, ?_, ?_⟩
  · rw [ha, hd, hw]
    exact h.ack
  · rw [hc, hd]
    exact h.commit
  · rw [hd, hr, hn]
    exact h.ring

/-- A packet adds its bytes to the accepted ones or changes nothing. -/
theorem accepted_packet (p : RxPkt) (tx : TxState) :
    (s.packet p tx).committed f ++ waitingBytes f (s.packet p tx).queue =
      (s.committed f ++ waitingBytes f s.queue) ++
        if p.pkt.flowid = f ∧ (s.estNext p.pkt tx).acceptPayload = true then p.slab else [] := by
  rw [waitingBytes_packet, List.append_assoc]
  rfl

theorem Receives.packet (h : Receives isn f s read) (p : RxPkt) (tx : TxState) :
    Receives isn f (s.packet p tx) read := by
  refine ⟨h.live, ?_, h.commit, h.ring⟩
  rw [accepted_packet, List.length_append, BitVec.ofNat_add, ← BitVec.add_assoc, ← h.ack]
  by_cases hf : p.pkt.flowid = f
  · subst hf
    by_cases ha : (s.estNext p.pkt tx).acceptPayload = true
    · rw [if_pos ⟨rfl, ha⟩]
      exact (packet_of_accept ha).2.2.1
    · rw [if_neg fun hc => ha hc.2, (packet_of_reject (Bool.not_eq_true _ ▸ ha)).1]
      simp
  · rw [if_neg fun hc => hf hc.1]
    simp [Path.ackNum, Path.packet, Ne.symm hf]

/-- A copy moves bytes of its flow from the queue to the committed ones. -/
theorem accepted_copyOut {e : QEntry} {q : List QEntry} (hq : s.queue = e :: q) :
    (s.copyOut e q).committed f ++ waitingBytes f (s.copyOut e q).queue =
      s.committed f ++ waitingBytes f s.queue := by
  have hwait : waitingBytes f s.queue = (if e.isFor f then e.slab else []) ++ waitingBytes f q := by
    rw [hq, waitingBytes_cons]
  rw [hwait]
  by_cases hskip : e.len = 0 ∨ e.entry.acceptPayload = false
  · have hnone : (if e.isFor f then e.slab else []) = [] := by
      rcases hskip with h0 | h0
      · have hs : e.slab = [] := List.eq_nil_of_length_eq_zero (e.length_eq.trans h0)
        simp [hs]
      · simp [QEntry.isFor, h0]
    rw [copyOut_of_skip hskip, hnone]
    rfl
  · simp only [not_or, Bool.not_eq_false] at hskip
    rw [copyOut_of_commit hskip.1 hskip.2]
    show (s.commit e).committed f ++ waitingBytes f q = _
    by_cases hef : f = e.entry.flowid
    · subst hef
      simp [Path.commit, QEntry.isFor, hskip.2]
    · have hne : e.isFor f = false := by simp [QEntry.isFor, Ne.symm hef]
      simp [Path.commit, hef, hne]

/-- A copied slab comes behind the bytes that were not read. -/
theorem Receives.commit_own {e : QEntry} {q : List QEntry} (hq : s.queue = e :: q)
    (hlen : e.len ≠ 0) (ha : e.entry.acceptPayload = true) (hr : FlowInv s e.entry.flowid)
    (h : Receives isn e.entry.flowid s read) :
    Receives isn e.entry.flowid (s.copyOut e q) read := by
  have hsame := accepted_copyOut (f := e.entry.flowid) hq
  have hwait : waitingLen e.entry.flowid s.queue = e.slab.length + waitingLen e.entry.flowid q := by
    rw [hq, waitingLen_cons, if_pos (by simp [QEntry.isFor, ha]), QEntry.len, e.length_eq]
  have hroom : s.held e.entry.flowid + e.slab.length ≤ ringBytes := by
    have hsum := hr.sum
    have hfull := hr.full
    unfold Path.held
    omega
  rw [copyOut_of_commit hlen ha] at hsame ⊢
  have hlog : (s.commit e).committed e.entry.flowid = s.committed e.entry.flowid ++ e.slab := by
    simp [Path.commit]
  have hptr : (s.commit e).commitPtr e.entry.flowid =
      s.commitPtr e.entry.flowid + BitVec.ofNat 13 e.slab.length := by
    simp [Path.commit, e.length_eq]
  have hheld : (s.commit e).held e.entry.flowid = s.held e.entry.flowid + e.slab.length := by
    rw [Path.held, hptr]
    exact dist_add hroom
  have haddr : (s.commitPtr e.entry.flowid).setWidth 12 =
      BitVec.ofNat 12 read.length + BitVec.ofNat 12 (s.held e.entry.flowid) := by
    rw [h.commit, h.length_committed, BitVec.setWidth_ofNat_of_le (by decide), BitVec.ofNat_add]
  have hring : (s.commit e).ring e.entry.flowid = Ring.write (s.ring e.entry.flowid)
      (BitVec.ofNat 12 read.length + BitVec.ofNat 12 (s.held e.entry.flowid)) e.slab := by
    simp [Path.commit, haddr]
  refine ⟨h.live, ?_, ?_, ?_⟩
  · rw [hsame]
    exact h.ack
  · show (s.commit e).commitPtr e.entry.flowid = BitVec.ofNat 13 ((s.commit e).committed _).length
    rw [hptr, hlog, List.length_append, h.commit, BitVec.ofNat_add]
  · show (s.commit e).committed e.entry.flowid = read ++ Ring.slice
      ((s.commit e).ring e.entry.flowid) _ ((s.commit e).held e.entry.flowid)
    rw [hlog, hring, hheld, Ring.slice_write _ _ _ hroom, ← List.append_assoc, ← h.ring]

theorem Receives.copyOut {e : QEntry} {q : List QEntry} (hq : s.queue = e :: q) (hr : RingInv s)
    (h : Receives isn f s read) : Receives isn f (s.copyOut e q) read := by
  have hsame := accepted_copyOut (f := f) hq
  by_cases hskip : e.len = 0 ∨ e.entry.acceptPayload = false
  · rw [copyOut_of_skip hskip] at hsame ⊢
    refine h.congr rfl rfl rfl rfl rfl rfl ?_
    exact List.append_cancel_left hsame
  · simp only [not_or, Bool.not_eq_false] at hskip
    by_cases hef : f = e.entry.flowid
    · subst hef
      exact h.commit_own hq hskip.1 hskip.2 (hr.flow _ h.live)
    · have hlog : (s.copyOut e q).committed f = s.committed f := by
        simp [copyOut_of_commit hskip.1 hskip.2, Path.commit, hef]
      rw [hlog] at hsame
      refine h.congr ?_ ?_ ?_ ?_ ?_ hlog (List.append_cancel_left hsame)
      all_goals simp [copyOut_of_commit hskip.1 hskip.2, Path.commit, Path.ackNum, hef]

/-- What the application reads comes out of the front of the ring. -/
theorem Receives.release (h : Receives isn f s read) {p : Ptr} (hp : appHeadOk s f p) :
    Receives isn f { s with headPtr := Function.update s.headPtr f p } (read ++
      Ring.slice (s.ring f) ((s.headPtr f).setWidth 12) (p - s.headPtr f).toNat) := by
  have hle : (p - s.headPtr f).toNat ≤ s.held f := hp
  have hheld : Path.held { s with headPtr := Function.update s.headPtr f p } f =
      s.held f - (p - s.headPtr f).toNat := by
    simp only [Path.held, Function.update_self]
    exact dist_release hp
  have haddr : (s.headPtr f).setWidth 12 = BitVec.ofNat 12 read.length := by
    rw [h.head_eq, BitVec.setWidth_ofNat_of_le (by decide)]
  refine ⟨h.live, h.ack, h.commit, ?_⟩
  have hring := h.ring
  rw [← Nat.add_sub_cancel' hle, Ring.slice_add] at hring
  rw [hheld, haddr, List.length_append, length_slice, BitVec.ofNat_add, List.append_assoc]
  exact hring

/-- Nothing of a flow was committed before it is live. -/
theorem unborn_of_reach (h : Reach rxInit rxStep Free s) : ∀ f, s.live f = false →
    s.committed f = [] := by
  refine h.invariant_of (I := fun s => ∀ f, s.live f = false → s.committed f = [])
    (fun _ => ringInv_of_reach) (fun s h0 f _ => h0.2.2 f) ?_
  intro s a s' hr hun _ hs g hg
  cases a with
  | newFlow f n =>
    simp only [rxStep, Option.ite_none_left_eq_some, Option.some.injEq] at hs
    obtain ⟨-, rfl⟩ := hs
    by_cases hgf : g = f
    · simp [Path.newFlow, hgf] at hg
    · exact hun g (by simpa [Path.newFlow, hgf] using hg)
  | packet p tx =>
    simp only [rxStep, Option.ite_none_right_eq_some, Option.some.injEq] at hs
    obtain ⟨-, rfl⟩ := hs
    exact hun g hg
  | copyOut =>
    simp only [rxStep] at hs
    split at hs
    · cases hs
    · rename_i e q hq
      cases hs
      have hlive : s.live e.entry.flowid = true := hr.owner e (by simp [hq])
      unfold Path.copyOut at hg ⊢
      split at hg
      · rw [if_pos (by assumption)]
        exact hun g hg
      · rw [if_neg (by assumption)]
        have hge : g ≠ e.entry.flowid := by
          rintro rfl
          have hfalse : s.live e.entry.flowid = false := hg
          rw [hlive] at hfalse
          cases hfalse
        have hcom : (s.commit e).committed g = s.committed g := by simp [Path.commit, hge]
        exact hcom.trans (hun g hg)
  | appHead f p =>
    simp only [rxStep, Option.ite_none_right_eq_some, Option.some.injEq] at hs
    obtain ⟨-, rfl⟩ := hs
    exact hun g hg

/-- A flow that was just set up has received nothing. -/
theorem receives_newFlow (h : Reach rxInit rxStep Free s) (hf : s.live f = false) :
    RingInv (s.newFlow f isn) ∧ Receives isn f (s.newFlow f isn) [] ∧
      (s.newFlow f isn).committed f ++ waitingBytes f (s.newFlow f isn).queue = [] := by
  have hr := ringInv_of_reach h
  have hc := unborn_of_reach h f hf
  have hne : ∀ e ∈ s.queue, e.entry.flowid ≠ f := by
    intro e he heq
    have hl := hr.owner e he
    rw [heq, hf] at hl
    cases hl
  have hwb : waitingBytes f s.queue = [] :=
    List.eq_nil_of_length_eq_zero ((waitingBytes_length f s.queue).trans (waitingLen_eq_zero hne))
  refine ⟨ringInv_newFlow hr hf isn, ?_, ?_⟩
  · constructor <;> simp [Path.newFlow, Path.ackNum, Path.held, hc, hwb]
  · simp [Path.newFlow, hc, hwb]

end RxPath

namespace TcpLink

/-! ### The invariant -/

/-- The bytes of the stream from a place on begin with these. -/
def At (s : TcpLink) (pos : Nat) (bytes : List Byte) : Prop := bytes <+: s.written.drop pos

/-- A pass or a segment with a number, a place, a length and the address of its payload. -/
structure Placed (isn : BitVec 32) (top : Nat) (seqNum : BitVec 32) (b : PayloadBuf) (pos : Nat) :
    Prop where
  num : seqNum = isn + BitVec.ofNat 32 pos
  addr : b.payloadAddr.setWidth 12 = seqNum.setWidth 12
  le : pos + b.payloadLen.toNat ≤ top

/-- `top` is the place behind everything that was handed to the assembler. -/
structure Inv (isn : BitVec 32) (f : FlowId) (s : TcpLink) (top : Nat) : Prop where
  tx : TxSequence.Inv s.tx
  ack : s.tx.ackNum = isn + BitVec.ofNat 32 s.acked
  tail : s.written.length = s.acked + s.tx.room
  ring : Ring.slice s.txRing (s.tx.ackNum.setWidth 12) s.tx.room = s.written.drop s.acked
  emitted : s.tx.emitted = isn + BitVec.ofNat 32 top
  top_le : top ≤ s.written.length
  pass : ∀ flags n, s.tx.sendPass = some (flags, n) →
    Placed isn s.written.length n.txPktSeqNum n.payloadBuf s.passPos ∧
      n.nextTxData.txCurrSeqNum =
        isn + BitVec.ofNat 32 (s.passPos + n.payloadBuf.payloadLen.toNat) ∧
      s.acked ≤ s.passPos + n.payloadBuf.payloadLen.toNat
  descs : ∀ d ∈ s.descs, Placed isn top d.seqNum d.payloadBuf d.pos
  segs : ∀ g ∈ s.segs, g.seqNum = isn + BitVec.ofNat 32 g.pos ∧ g.pos + g.bytes.length ≤ top ∧
    (g.pos < s.acked ∨ s.At g.pos g.bytes)
  acks : ∀ a ∈ s.acks, a.ackNum = isn + BitVec.ofNat 32 a.pos ∧ a.pos ≤ (s.accepted f).length
  est : ∀ o, s.tx.estPass = some o →
    s.acked + s.tx.dist o.nextAckState.txCurrAckNum ≤ (s.accepted f).length
  rings : RingInv s.rx
  rx : Receives isn f s.rx s.read
  stream : s.accepted f <+: s.written
  sent : (s.accepted f).length ≤ top
  seen : s.acked ≤ (s.accepted f).length

variable {isn : BitVec 32} {f : FlowId} {s : TcpLink} {top : Nat}

/-- A number as a place behind the acknowledged bytes. -/
theorem num_eq (h : s.tx.ackNum = isn + BitVec.ofNat 32 s.acked) (x : BitVec 32) :
    x = isn + BitVec.ofNat 32 (s.acked + s.tx.dist x) := by
  rw [BitVec.ofNat_add, ← BitVec.add_assoc, ← h, TxFlow.dist, BitVec.ofNat_toNat, BitVec.setWidth_eq]
  bv_omega

theorem dist_place (h : s.tx.ackNum = isn + BitVec.ofNat 32 s.acked) {k : Nat}
    (hlo : s.acked ≤ k) (hhi : k < s.acked + 2 ^ 32) :
    s.tx.dist (isn + BitVec.ofNat 32 k) = k - s.acked := by
  have hk : BitVec.ofNat 32 k = BitVec.ofNat 32 s.acked + BitVec.ofNat 32 (k - s.acked) := by
    rw [← BitVec.ofNat_add, Nat.add_sub_cancel' hlo]
  have hsub : isn + BitVec.ofNat 32 k - s.tx.ackNum = BitVec.ofNat 32 (k - s.acked) := by
    rw [h, hk]
    bv_omega
  rw [TxFlow.dist, hsub, BitVec.toNat_ofNat, Nat.mod_eq_of_lt (by omega)]

/-- A place that was acknowledged is far away on the number circle. -/
theorem dist_behind (h : s.tx.ackNum = isn + BitVec.ofNat 32 s.acked) {k : Nat}
    (hlo : k < s.acked) (hhi : s.acked < k + 2 ^ 31) :
    2 ^ 31 < s.tx.dist (isn + BitVec.ofNat 32 k) := by
  have hk : BitVec.ofNat 32 s.acked = BitVec.ofNat 32 k + BitVec.ofNat 32 (s.acked - k) := by
    rw [← BitVec.ofNat_add, Nat.add_sub_cancel' (Nat.le_of_lt hlo)]
  have hsub : isn + BitVec.ofNat 32 k - s.tx.ackNum = 0 - BitVec.ofNat 32 (s.acked - k) := by
    rw [h, hk]
    bv_omega
  have hmod : (BitVec.ofNat 32 (s.acked - k)).toNat = s.acked - k := by
    rw [BitVec.toNat_ofNat, Nat.mod_eq_of_lt (by omega)]
  rw [TxFlow.dist, hsub]
  generalize BitVec.ofNat 32 (s.acked - k) = d at hmod
  bv_omega

/-- Two places with one number that are near each other are the same. -/
theorem place_inj {j k : Nat} (h : isn + BitVec.ofNat 32 j = isn + BitVec.ofNat 32 k)
    (hj : j < k + 2 ^ 31) (hk : k < j + 2 ^ 31) : j = k := by
  have heq := congrArg BitVec.toNat ((BitVec.add_right_inj isn).mp h)
  rw [BitVec.toNat_ofNat, BitVec.toNat_ofNat] at heq
  omega

theorem Inv.bound (h : Inv isn f s top) : s.written.length ≤ s.acked + ringBytes := by
  have hroom := h.tx.full
  rw [h.tail]
  omega

/-! ### The sending engine -/

/-- The application writes behind the tail. -/
theorem Inv.write (h : Inv isn f s top) {bytes : List Byte}
    (hroom : (s.tx.tailPtr - s.tx.headPtr).toNat + bytes.length ≤ ringBytes) :
    Inv isn f (s.writeBytes bytes) top := by
  rw [h.tx.head] at hroom
  have hroom' : s.tx.room + bytes.length ≤ ringBytes := hroom
  have hadd : (s.writeBytes bytes).tx.room = s.tx.room + bytes.length := dist_add hroom
  have happ : appOk s.tx (s.tx.tailPtr + BitVec.ofNat 13 bytes.length) := by
    have hhead := h.tx.head
    unfold appOk
    rw [hhead]
    show s.tx.room ≤ (s.writeBytes bytes).tx.room ∧ (s.writeBytes bytes).tx.room ≤ ringBytes
    omega
  have hlen : (s.writeBytes bytes).written.length = s.written.length + bytes.length :=
    List.length_append
  have htail : s.tx.tailPtr.setWidth 12 =
      s.tx.ackNum.setWidth 12 + BitVec.ofNat 12 s.tx.room := by
    unfold TxFlow.room
    bv_omega
  have hpre : s.written <+: (s.writeBytes bytes).written := List.prefix_append _ _
  have hle := hpre.length_le
  have htop := h.top_le
  refine ⟨inv_appTail h.tx happ, h.ack, ?_, ?_, h.emitted, by omega, ?_, h.descs, ?_, h.acks, h.est,
    h.rings, h.rx, h.stream.trans hpre, h.sent, h.seen⟩
  · rw [hlen, hadd, h.tail, Nat.add_assoc]
    rfl
  · show Ring.slice (Ring.write s.txRing (s.tx.tailPtr.setWidth 12) bytes)
      (s.tx.ackNum.setWidth 12) (s.writeBytes bytes).tx.room =
        (s.written ++ bytes).drop s.acked
    rw [hadd, htail, Ring.slice_write _ _ _ hroom', h.ring, List.drop_append_of_le_length]
    rw [h.tail]
    omega
  · intro flags n hp
    obtain ⟨⟨hnum, haddr, hfit⟩, hnext, hpast⟩ := h.pass flags n hp
    exact ⟨⟨hnum, haddr, Nat.le_trans hfit hle⟩, hnext, hpast⟩
  · intro g hg
    obtain ⟨hnum, hfit, hor⟩ := h.segs g hg
    refine ⟨hnum, hfit, hor.imp_right fun hat => ?_⟩
    exact List.IsPrefix.trans hat (hpre.drop g.pos)

/-- A pass begins at the first byte that was not sent, or at the first one that was not
acknowledged. -/
theorem Inv.sendRead (h : Inv isn f s top) {flags : RtTimeoutFlags} {now : BitVec 64}
    (hok : NoOvertake (some s.tx) (.sendRead flags now)) :
    Inv isn f (s.numbered flags now) top := by
  obtain ⟨hdist, hroom⟩ := dist_numbering h.tx flags now
  have hnum := num_eq h.ack (passSeqNum flags s.tx.txState)
  have hlen : (numbering flags s.tx.txState s.tx.tailPtr now).payloadBuf.payloadLen.toNat =
      (passSegSize flags s.tx.txState s.tx.tailPtr).toNat := by
    have hlt := (passSegSize flags s.tx.txState s.tx.tailPtr).isLt
    show ((passSegSize flags s.tx.txState s.tx.tailPtr).setWidth 16).toNat = _
    rw [BitVec.toNat_setWidth, Nat.mod_eq_of_lt (by omega)]
  refine ⟨inv_sendRead h.tx fun hf o ho => hok o ho hf, h.ack, h.tail, h.ring, h.emitted, h.top_le,
    ?_, h.descs, h.segs, h.acks, h.est, h.rings, h.rx, h.stream, h.sent, h.seen⟩
  rintro flags' n ⟨⟩
  refine ⟨⟨hnum, ?_, ?_⟩, ?_, ?_⟩
  · show BitVec.setWidth 12 (((passSeqNum flags s.tx.txState).setWidth 12).setWidth 32) =
      (passSeqNum flags s.tx.txState).setWidth 12
    bv_omega
  · show s.acked + s.tx.dist (passSeqNum flags s.tx.txState) + _ ≤ s.written.length
    rw [hlen, h.tail]
    omega
  · show passSeqNum flags s.tx.txState + (passSegSize _ _ _).setWidth 32 =
      isn + BitVec.ofNat 32 (s.acked + s.tx.dist (passSeqNum flags s.tx.txState) + _)
    rw [hlen, BitVec.ofNat_add, ← BitVec.add_assoc, ← hnum, BitVec.ofNat_toNat]
  · show s.acked ≤ s.acked + s.tx.dist (passSeqNum flags s.tx.txState) + _
    omega

/-- The higher of two places. -/
theorem seqMax_place {j k : Nat} (hj : j < k + 2 ^ 31) (hk : k < j + 2 ^ 31) :
    seqMax (isn + BitVec.ofNat 32 j) (isn + BitVec.ofNat 32 k) =
      isn + BitVec.ofNat 32 (max j k) := by
  have hsub : isn + BitVec.ofNat 32 k - (isn + BitVec.ofNat 32 j) =
      BitVec.ofNat 32 k - BitVec.ofNat 32 j := by bv_omega
  unfold seqMax
  rw [hsub, BitVec.toNat_sub, BitVec.toNat_ofNat, BitVec.toNat_ofNat]
  by_cases hle : j ≤ k
  · rw [if_pos (by omega), Nat.max_eq_right hle]
  · rw [if_neg (by omega), Nat.max_eq_left (by omega)]

/-- A pass hands its segment over. -/
theorem Inv.sendWrite (h : Inv isn f s top) {flags : RtTimeoutFlags} {n : Numbered}
    (hp : s.tx.sendPass = some (flags, n)) : ∃ top', Inv isn f (s.sent n) top' := by
  obtain ⟨⟨hnum, haddr, hfit⟩, hnext, hpast⟩ := h.pass flags n hp
  have hbound := h.bound
  have htop := h.top_le
  have hsent := h.sent
  have hseen := h.seen
  simp only [ringBytes] at hbound
  have hend : n.txPktSeqNum + n.payloadBuf.payloadLen.setWidth 32 =
      isn + BitVec.ofNat 32 (s.passPos + n.payloadBuf.payloadLen.toNat) := by
    rw [hnum, BitVec.ofNat_add, BitVec.add_assoc, BitVec.ofNat_toNat]
  have hmax := @seqMax_place isn top (s.passPos + n.payloadBuf.payloadLen.toNat)
    (by omega) (by omega)
  cases hgen : n.generatePkt with
  | false =>
    have hdescs : (s.sent n).descs = s.descs := by simp [TcpLink.sent, hgen]
    have hemit : (s.sent n).tx.emitted = s.tx.emitted := by
      simp [TcpLink.sent, TxFlow.writeBack, hgen]
    refine ⟨top, inv_sendWrite h.tx hp, h.ack, h.tail, h.ring, hemit.trans h.emitted, h.top_le,
      ?_, ?_, h.segs, h.acks, h.est, h.rings, h.rx, h.stream, h.sent, h.seen⟩
    · intro flags' n' hp'
      cases hp'
    · rw [hdescs]
      exact h.descs
  | true =>
    have hdescs : (s.sent n).descs = s.descs ++ [⟨n.txPktSeqNum, n.payloadBuf, s.passPos⟩] := by
      simp [TcpLink.sent, hgen]
    have hemit : (s.sent n).tx.emitted =
        seqMax s.tx.emitted (n.txPktSeqNum + n.payloadBuf.payloadLen.setWidth 32) := by
      simp [TcpLink.sent, TxFlow.writeBack, hgen]
    have hle : top ≤ max top (s.passPos + n.payloadBuf.payloadLen.toNat) := Nat.le_max_left _ _
    refine ⟨max top (s.passPos + n.payloadBuf.payloadLen.toNat), inv_sendWrite h.tx hp, h.ack,
      h.tail, h.ring, ?_, Nat.max_le.mpr ⟨htop, hfit⟩, ?_, ?_, ?_, h.acks, h.est, h.rings, h.rx,
      h.stream, Nat.le_trans hsent hle, h.seen⟩
    · rw [hemit, hend, h.emitted, hmax]
    · intro flags' n' hp'
      cases hp'
    · rw [hdescs]
      intro d hd
      rcases List.mem_append.mp hd with hd | hd
      · obtain ⟨h1, h2, h3⟩ := h.descs d hd
        exact ⟨h1, h2, Nat.le_trans h3 hle⟩
      · rw [List.mem_singleton.mp hd]
        exact ⟨hnum, haddr, Nat.le_max_right _ _⟩
    · intro g hg
      obtain ⟨h1, h2, h3⟩ := h.segs g hg
      exact ⟨h1, Nat.le_trans h2 hle, h3⟩

/-- The ring still has the stream from the acknowledged place on. -/
theorem Inv.slice_eq (h : Inv isn f s top) {k n : Nat} (hlo : s.acked ≤ k)
    (hhi : k + n ≤ s.written.length) :
    Ring.slice s.txRing ((isn + BitVec.ofNat 32 k).setWidth 12) n =
      (s.written.drop k).take n := by
  have hroom : s.tx.room = (k - s.acked) + (n + (s.written.length - (k + n))) := by
    have htail := h.tail
    omega
  have hring := h.ring
  rw [hroom, Ring.slice_add, Ring.slice_add] at hring
  have haddr : s.tx.ackNum.setWidth 12 + BitVec.ofNat 12 (k - s.acked) =
      (isn + BitVec.ofNat 32 k).setWidth 12 := by
    have hnum : BitVec.ofNat 32 k = BitVec.ofNat 32 s.acked + BitVec.ofNat 32 (k - s.acked) := by
      rw [← BitVec.ofNat_add, Nat.add_sub_cancel' hlo]
    rw [hnum, ← BitVec.add_assoc, ← h.ack, BitVec.setWidth_add _ _ (by decide),
      BitVec.setWidth_ofNat_of_le (by decide)]
  rw [haddr] at hring
  have hpos : s.written.drop k = (s.written.drop s.acked).drop (k - s.acked) := by
    rw [List.drop_drop, Nat.add_sub_cancel' hlo]
  rw [hpos, ← hring, List.drop_left' (length_slice _ _ _), List.take_left' (length_slice _ _ _)]

/-- A payload is read, in time or too late. -/
theorem Inv.fetch (h : Inv isn f s top) {d : TxDesc} {ds : List TxDesc} (hd : s.descs = d :: ds) :
    Inv isn f (s.fetch d ds) top := by
  obtain ⟨hnum, haddr, hfit⟩ := h.descs d (hd ▸ List.mem_cons_self)
  have htop := h.top_le
  refine ⟨h.tx, h.ack, h.tail, h.ring, h.emitted, h.top_le, h.pass, ?_, ?_, h.acks, h.est, h.rings,
    h.rx, h.stream, h.sent, h.seen⟩
  · intro d' hd'
    exact h.descs d' (hd ▸ List.mem_cons_of_mem _ hd')
  · intro g hg
    rcases List.mem_append.mp hg with hg | hg
    · exact h.segs g hg
    · rw [List.mem_singleton.mp hg]
      have hlen : (s.fetched d).bytes.length = d.payloadBuf.payloadLen.toNat := length_slice _ _ _
      refine ⟨hnum, ?_, ?_⟩
      · rw [hlen]
        exact hfit
      · by_cases hlate : d.pos < s.acked
        · exact .inl hlate
        · right
          have hslice := h.slice_eq (Nat.le_of_not_lt hlate) (Nat.le_trans hfit htop)
          show Ring.slice s.txRing _ _ <+: s.written.drop d.pos
          rw [haddr, hnum, hslice]
          exact List.take_prefix _ _

/-- An acknowledgement that is taken over was really given. -/
theorem Inv.ackRead (h : Inv isn f s top) {a : NetAck} (ha : a ∈ s.acks) (hal : s.Alive a.pos)
    (hok : NoOvertake (some s.tx) (.estRead a.ackNum)) : Inv isn f (s.ackSeen a) top := by
  obtain ⟨hnum, hpos⟩ := h.acks a ha
  refine ⟨inv_estRead h.tx hok.1 fun flags n hp hf he => hok.2 (flags, n) hp hf he, h.ack, h.tail,
    h.ring, h.emitted, h.top_le, h.pass, h.descs, h.segs, h.acks, ?_, h.rings, h.rx, h.stream,
    h.sent, h.seen⟩
  rintro o ⟨⟩
  show s.acked + s.tx.dist (nextAckNum s.tx.ackNum a.ackNum s.tx.seqNum) ≤ (s.accepted f).length
  rcases nextAckNum_cases s.tx.ackNum a.ackNum s.tx.seqNum with he | he
  · have hzero : s.tx.dist s.tx.ackNum = 0 := by simp [TxFlow.dist]
    rw [he, hzero]
    exact h.seen
  · have hwindow : s.tx.dist a.ackNum ≤ ringBytes := by
      have hle : s.tx.dist (nextAckNum s.tx.ackNum a.ackNum s.tx.seqNum) ≤ s.tx.dist s.tx.seqNum :=
        nextAckNum_le hok.1
      rw [he] at hle
      exact Nat.le_trans hle (Nat.le_trans h.tx.seq h.tx.full)
    have hbound := h.bound
    have hpre := h.stream.length_le
    have hlive : s.written.length < a.pos + 2 ^ 31 := hal
    have hseen := h.seen
    simp only [ringBytes] at hwindow hbound
    by_cases hlo : s.acked ≤ a.pos
    · rw [he, hnum, dist_place h.ack hlo (by omega)]
      omega
    · -- it would be behind the window
      have hfar := dist_behind h.ack (Nat.lt_of_not_le hlo) (by omega)
      rw [hnum] at hwindow
      omega

/-- An acknowledgement releases bytes that were accepted. -/
theorem Inv.ackWrite (h : Inv isn f s top) {o : TxAckOut} (ho : s.tx.estPass = some o) :
    Inv isn f (s.ackWritten o) top := by
  have hroom : s.tx.dist o.nextAckState.txCurrAckNum ≤ s.tx.room :=
    Nat.le_trans (h.tx.ackSeq o ho) h.tx.seq
  have hnext : (s.ackWritten o).tx.room = s.tx.room - s.tx.dist o.nextAckState.txCurrAckNum := by
    show (s.tx.tailPtr - o.nextAckState.txCurrAckNum.setWidth 13).toNat = _
    unfold TxFlow.room TxFlow.dist at *
    bv_omega
  have hplace := num_eq h.ack o.nextAckState.txCurrAckNum
  have htail := h.tail
  have hacked : (s.ackWritten o).acked = s.acked + s.tx.dist o.nextAckState.txCurrAckNum := rfl
  refine ⟨inv_estWrite h.tx ho, hplace, ?_, ?_, h.emitted, h.top_le, ?_, h.descs, ?_, h.acks, ?_,
    h.rings, h.rx, h.stream, h.sent, h.est o ho⟩
  · rw [hnext, hacked]
    show s.written.length = _
    omega
  · have hslice := h.slice_eq (k := (s.ackWritten o).acked) (n := (s.ackWritten o).tx.room)
      (by omega) (by omega)
    show Ring.slice s.txRing (o.nextAckState.txCurrAckNum.setWidth 12) (s.ackWritten o).tx.room =
      s.written.drop (s.ackWritten o).acked
    rw [hplace, ← hacked, hslice, List.take_of_length_le]
    rw [List.length_drop]
    omega
  · intro flags n hp
    obtain ⟨hplaced, hseq, hpast⟩ := h.pass flags n hp
    refine ⟨hplaced, hseq, ?_⟩
    have hle := h.tx.ackPass o flags n ho hp
    have hbound := h.bound
    have hfit := hplaced.le
    simp only [ringBytes] at hbound
    rw [hseq, dist_place h.ack hpast (by omega)] at hle
    show (s.ackWritten o).acked ≤ s.passPos + n.payloadBuf.payloadLen.toNat
    omega
  · intro g hg
    obtain ⟨h1, h2, h3⟩ := h.segs g hg
    exact ⟨h1, h2, h3.imp_left fun hlt => Nat.lt_of_lt_of_le hlt (by omega)⟩
  · intro o' ho'
    cases ho'

/-! ### The receiving engine -/

/-- The segment that is accepted is the one at the place the receiver waits for. -/
theorem Inv.deliver (h : Inv isn f s top) {g : NetSegment} {p : RxPkt} {tx : TxState}
    (hb : s.Brings f g p) (hal : s.Alive g.pos) (hlive : s.rx.live p.pkt.flowid = true) :
    Inv isn f { s with rx := s.rx.packet p tx } top := by
  obtain ⟨hg, hflow, hseq, hslab⟩ := hb
  obtain ⟨hnum, hfit, hor⟩ := h.segs g hg
  have hacc : TcpLink.accepted f { s with rx := s.rx.packet p tx } = s.accepted f ++
      if p.pkt.flowid = f ∧ (s.rx.estNext p.pkt tx).acceptPayload = true then p.slab else [] :=
    accepted_packet p tx
  have hmore : (s.accepted f).length ≤
      (TcpLink.accepted f { s with rx := s.rx.packet p tx }).length := by
    rw [hacc, List.length_append]
    omega
  have hnew : TcpLink.accepted f { s with rx := s.rx.packet p tx } <+: s.written ∧
      (TcpLink.accepted f { s with rx := s.rx.packet p tx }).length ≤ top := by
    by_cases ha : (s.rx.estNext p.pkt tx).acceptPayload = true
    · have hwait : s.rx.ackNum f = isn + BitVec.ofNat 32 (s.accepted f).length := h.rx.ack
      have hmatch : isn + BitVec.ofNat 32 g.pos =
          isn + BitVec.ofNat 32 (s.accepted f).length := by
        rw [← hnum, ← hseq, (packet_of_accept ha).1, hflow, hwait]
      have hbound := h.bound
      have htop := h.top_le
      have hseen := h.seen
      have hpre := h.stream.length_le
      have hlt : s.written.length < g.pos + 2 ^ 31 := hal
      simp only [ringBytes] at hbound
      have hpos := place_inj hmatch (by omega) (by omega)
      have hat : p.slab <+: s.written.drop (s.accepted f).length := by
        rw [hslab, ← hpos]
        exact hor.resolve_left (by omega)
      rw [hacc, if_pos ⟨hflow, ha⟩, List.length_append, hslab]
      refine ⟨?_, by omega⟩
      have hjoin : s.written = s.accepted f ++ s.written.drop (s.accepted f).length :=
        (List.prefix_iff_eq_append.mp h.stream).symm
      rw [hjoin]
      exact (List.prefix_append_right_inj _).mpr (hslab ▸ hat)
    · rw [hacc, if_neg fun hc => ha hc.2, List.append_nil]
      exact ⟨h.stream, h.sent⟩
  refine ⟨h.tx, h.ack, h.tail, h.ring, h.emitted, h.top_le, h.pass, h.descs, h.segs, ?_, ?_,
    ringInv_packet h.rings hlive tx, h.rx.packet p tx, hnew.1, hnew.2, Nat.le_trans h.seen hmore⟩
  · intro a ha
    exact ⟨(h.acks a ha).1, Nat.le_trans (h.acks a ha).2 hmore⟩
  · intro o ho
    exact Nat.le_trans (h.est o ho) hmore

/-- What the receive path does on its own or for other flows. -/
theorem receives_aside {rx rx' : Path} {read : List Byte} (hr : RingInv rx)
    (h : Receives isn f rx read) {a : RxAct} (ha : Aside f a) (hs : rxStep rx a = some rx') :
    Receives isn f rx' read ∧ rx'.committed f ++ waitingBytes f rx'.queue =
      rx.committed f ++ waitingBytes f rx.queue := by
  cases a with
  | newFlow g n =>
    have hne : g ≠ f := ha
    simp only [rxStep, Option.ite_none_left_eq_some, Option.some.injEq] at hs
    obtain ⟨-, rfl⟩ := hs
    refine ⟨h.congr ?_ ?_ ?_ ?_ rfl rfl rfl, rfl⟩
    all_goals simp [Path.newFlow, Path.ackNum, Ne.symm hne]
  | packet p tx =>
    have hne : p.pkt.flowid ≠ f := ha
    simp only [rxStep, Option.ite_none_right_eq_some, Option.some.injEq] at hs
    obtain ⟨-, rfl⟩ := hs
    refine ⟨h.packet p tx, ?_⟩
    rw [accepted_packet, if_neg fun hc => hne hc.1, List.append_nil]
  | copyOut =>
    simp only [rxStep] at hs
    split at hs
    · cases hs
    · rename_i e q hq
      cases hs
      exact ⟨h.copyOut hq hr, accepted_copyOut hq⟩
  | appHead g p =>
    have hne : g ≠ f := ha
    simp only [rxStep, Option.ite_none_right_eq_some, Option.some.injEq] at hs
    obtain ⟨-, rfl⟩ := hs
    exact ⟨h.congr rfl rfl (by simp [Ne.symm hne]) rfl rfl rfl rfl, rfl⟩

/-- Where the same bytes are accepted, the rest of the receive path may move. -/
theorem Inv.moved (h : Inv isn f s top) {rx : Path} {read : List Byte} (hr : RingInv rx)
    (hrx : Receives isn f rx read)
    (hacc : rx.committed f ++ waitingBytes f rx.queue = s.accepted f) :
    Inv isn f { s with rx, read } top := by
  have hacc' : TcpLink.accepted f { s with rx, read } = s.accepted f := hacc
  refine ⟨h.tx, h.ack, h.tail, h.ring, h.emitted, h.top_le, h.pass, h.descs, h.segs, ?_, ?_, hr,
    hrx, ?_, ?_, ?_⟩
  · rw [hacc']
    exact h.acks
  · rw [hacc']
    exact h.est
  · rw [hacc']
    exact h.stream
  · rw [hacc']
    exact h.sent
  · rw [hacc']
    exact h.seen

theorem Inv.receive (h : Inv isn f s top) {a : RxAct} {rx : Path} (ha : Aside f a)
    (hs : rxStep s.rx a = some rx) : Inv isn f { s with rx } top := by
  obtain ⟨hrx, hacc⟩ := receives_aside h.rings h.rx ha hs
  exact h.moved (ringInv_step h.rings hs) hrx hacc

/-! ### Runs -/

theorem inv_step {a : LinkAct} {s' : TcpLink} (h : Inv isn f s top) (hok : s.Timely a)
    (hs : s.step f a = some s') : ∃ top', Inv isn f s' top' := by
  cases a with
  | write bytes =>
    simp only [step, Option.ite_none_right_eq_some, Option.some.injEq] at hs
    obtain ⟨hroom, rfl⟩ := hs
    exact ⟨top, h.write hroom⟩
  | sendRead flags now =>
    simp only [step, Option.ite_none_right_eq_some, Option.some.injEq] at hs
    obtain ⟨-, rfl⟩ := hs
    exact ⟨top, h.sendRead hok⟩
  | sendWrite =>
    obtain ⟨⟨flags, n⟩, hp, rfl⟩ := Option.map_eq_some_iff.mp hs
    exact h.sendWrite hp
  | fetch =>
    simp only [step] at hs
    split at hs
    · cases hs
    · rename_i d ds hd
      cases hs
      exact ⟨top, h.fetch hd⟩
  | deliver g p tx =>
    simp only [step, Option.ite_none_right_eq_some] at hs
    obtain ⟨hb, hs⟩ := hs
    obtain ⟨rx, hrx, rfl⟩ := Option.map_eq_some_iff.mp hs
    simp only [rxStep, Option.ite_none_right_eq_some, Option.some.injEq] at hrx
    obtain ⟨⟨hlive, -⟩, rfl⟩ := hrx
    exact ⟨top, h.deliver hb hok hlive⟩
  | receive a =>
    simp only [step, Option.ite_none_right_eq_some] at hs
    obtain ⟨ha, hs⟩ := hs
    obtain ⟨rx, hrx, rfl⟩ := Option.map_eq_some_iff.mp hs
    exact ⟨top, h.receive ha hrx⟩
  | release p =>
    simp only [step, Option.ite_none_right_eq_some, Option.some.injEq] at hs
    obtain ⟨hp, rfl⟩ := hs
    exact ⟨top, h.moved (ringInv_appHead h.rings hp) (h.rx.release hp) rfl⟩
  | sendAck =>
    cases hs
    refine ⟨top, h.tx, h.ack, h.tail, h.ring, h.emitted, h.top_le, h.pass, h.descs, h.segs, ?_,
      h.est, h.rings, h.rx, h.stream, h.sent, h.seen⟩
    intro a ha
    rcases List.mem_append.mp ha with ha | ha
    · exact h.acks a ha
    · rw [List.mem_singleton.mp ha]
      exact ⟨h.rx.ack, Nat.le_refl _⟩
  | ackRead a =>
    simp only [step, Option.ite_none_right_eq_some, Option.some.injEq] at hs
    obtain ⟨⟨ha, -⟩, rfl⟩ := hs
    exact ⟨top, h.ackRead ha hok.1 hok.2⟩
  | ackWrite =>
    obtain ⟨o, ho, rfl⟩ := Option.map_eq_some_iff.mp hs
    exact ⟨top, h.ackWrite ho⟩

theorem Init.inv (h : s.Init f isn) : Inv isn f s 0 := by
  obtain ⟨htx, ⟨p, hp, hf, hrx⟩, hd, hg, ha, hw, hread, hacked⟩ := h
  obtain ⟨hring, hrecv, hnone⟩ := @receives_newFlow isn f p hp hf
  have hacc : s.accepted f = [] := by rw [accepted, hrx, hnone]
  refine ⟨htx ▸ inv_initFlow isn, ?_, ?_, ?_, ?_, Nat.zero_le _, ?_, ?_, ?_, ?_, ?_, hrx ▸ hring,
    ?_, ?_, ?_, ?_⟩
  · rw [htx, hacked]
    simp [initFlow, TxFlow.ackNum]
  · rw [htx, hw, hacked]
    simp [initFlow, TxFlow.room, TxFlow.ackNum]
  · rw [htx, hw]
    simp [initFlow, TxFlow.room, TxFlow.ackNum]
  · rw [htx]
    simp [initFlow]
  · simp [htx, initFlow]
  · simp [hd]
  · simp [hg]
  · simp [ha]
  · simp [htx, initFlow]
  · rw [hrx, hread]
    exact hrecv
  · simp [hacc]
  · simp [hacc]
  · simp [hacked]

theorem inv_of_reach (h : Reach (fun s => Init f s isn) (step f) Timely s) :
    ∃ top, Inv isn f s top := by
  refine h.invariant (I := fun s => ∃ top, Inv isn f s top) (fun s h0 => ⟨0, Init.inv h0⟩) ?_
  rintro s a s' ⟨top, hi⟩ hok hs
  exact inv_step hi hok hs

/-- The unread bytes in the ring of the receiver. -/
def unread (f : FlowId) (s : TcpLink) : List Byte :=
  Ring.slice (s.rx.ring f) ((s.rx.headPtr f).setWidth 12) (s.rx.held f)

/-- The receiving end has a prefix of the stream, the sending end has the rest, and neither end
leaves what the other one relies on. -/
structure Faithful (isn : BitVec 32) (f : FlowId) (s : TcpLink) : Prop where
  stream : s.read ++ unread f s ++ waitingBytes f s.rx.queue <+: s.written
  kept : ∀ k, (s.accepted f).length ≤ k → k < s.written.length →
    some (s.txRing ((isn + BitVec.ofNat 32 k).setWidth 12)) = s.written[k]?
  window : TxOrdered s.tx
  ackNum : s.rx.ackNum f = isn + BitVec.ofNat 32 (s.accepted f).length
  acks : ∀ a ∈ s.acks, s.Alive a.pos → peerOk s.tx a.ackNum

/-- In every run in which no message outlives its time and no acknowledgement overtakes a rewinding
pass, whatever the network loses, repeats or reorders, what the receiving application reads is
a prefix of what the sending one has written, and the sender keeps every byte that was not accepted
yet. -/
theorem link_faithful (h : Reach (fun s => Init f s isn) (step f) Timely s) : Faithful isn f s := by
  obtain ⟨top, hi⟩ := inv_of_reach h
  have hbound := hi.bound
  have htop := hi.top_le
  have hsent := hi.sent
  have hseen := hi.seen
  refine ⟨?_, ?_, hi.tx.ordered, hi.rx.ack, ?_⟩
  · have hread : s.read ++ unread f s = s.rx.committed f := by
      rw [hi.rx.ring, unread, hi.rx.head_eq, BitVec.setWidth_ofNat_of_le (by decide)]
    rw [hread]
    exact hi.stream
  · intro k hlo hhi
    have hslice := hi.slice_eq (k := k) (n := 1) (Nat.le_trans hseen hlo) hhi
    have hcell := congrArg List.head? hslice
    simpa [Ring.slice, List.head?_take, List.head?_drop] using hcell
  · intro a ha hal
    obtain ⟨hnum, hpos⟩ := hi.acks a ha
    have hal' : s.written.length < a.pos + 2 ^ 31 := hal
    have hsub : s.tx.emitted - a.ackNum = BitVec.ofNat 32 (top - a.pos) := by
      have hk : BitVec.ofNat 32 top = BitVec.ofNat 32 a.pos + BitVec.ofNat 32 (top - a.pos) := by
        rw [← BitVec.ofNat_add, Nat.add_sub_cancel' (by omega)]
      rw [hi.emitted, hnum, hk]
      bv_omega
    unfold peerOk
    rw [hsub, BitVec.toNat_ofNat]
    omega

/-- A link over which nothing has been sent. -/
def opened (isn : BitVec 32) (f : FlowId) : TcpLink where
  tx := initFlow isn
  txRing _ := 0
  descs := []
  segs := []
  acks := []
  rx := emptyPath.newFlow f isn
  written := []
  read := []
  acked := 0
  passPos := 0

theorem init_opened (isn : BitVec 32) (f : FlowId) : Init f (opened isn f) isn :=
  ⟨rfl, ⟨emptyPath, .start emptyPath_init, rfl, rfl⟩, rfl, rfl, rfl, rfl, rfl, rfl⟩

/-- Five bytes across the wrap of the numbers, sent twice; the second copy arrives first, and the
first one when it was acknowledged. -/
theorem link_faithful_repeated : ∃ s,
    Reach (fun s => Init 7 s 0xFFFFFFFE#32) (step 7) Timely s ∧ s.read = [1, 2, 3, 4, 5] ∧
      s.tx.ackNum = 3 ∧ Faithful 0xFFFFFFFE#32 7 s := by
  let seg : NetSegment := ⟨0xFFFFFFFE#32, [1, 2, 3, 4, 5], 0⟩
  let pkt : RxPkt := dataPkt 7 0xFFFFFFFE#32 [1, 2, 3, 4, 5] (by decide)
  have hrun : ∃ s, Reach (fun s => Init 7 s 0xFFFFFFFE#32) (step 7) Timely s ∧
      decide (s.read = [1, 2, 3, 4, 5] ∧ s.tx.ackNum = 3) = true :=
    Reach.exists_of_run
      [.write [1, 2, 3, 4, 5], .sendRead ⟨false, false⟩ 0, .sendWrite, .fetch,
        .sendRead ⟨false, true⟩ 1, .sendWrite, .fetch, .deliver seg pkt default, .sendAck,
        .ackRead ⟨3, 5⟩, .ackWrite, .deliver seg pkt default, .receive .copyOut, .receive .copyOut,
        .release 5] (init_opened _ 7) (by decide +kernel)
  obtain ⟨s, hs, hp⟩ := hrun
  obtain ⟨hread, hack⟩ := of_decide_eq_true hp
  exact ⟨s, hs, hread, hack, link_faithful hs⟩

end TcpLink

end TcpHw
