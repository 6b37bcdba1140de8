import TcpHw.Link.ByteStream
import TcpHw.Recv.TxAck
import TcpHw.Send.Segmentation

/-!
# A link is never stuck

From every state both engines can finish what they have begun, the receiver can copy and read
everything that was accepted, and its acknowledgement brings the sender to the place from which the
next segment is accepted. Only where the stream ends at the last sequence number `tx_ack_engine`
takes no acknowledgement, so that such a stream has to grow first.
-/
namespace TcpHw

open Trace RxPath TxSequence Segmentation

set_option autoImplicit false

namespace TcpLink

variable {isn : BitVec 32} {f : FlowId} {s s' t : TcpLink} {top : Nat}

/-- Some steps that meet the condition. -/
def Leads (f : FlowId) (s s' : TcpLink) : Prop := Reach (fun t => t = s) (step f) Timely s'

theorem Leads.refl : Leads f s s := Reach.start rfl

theorem Leads.one {a : LinkAct} (hok : s.Timely a) (hs : s.step f a = some s') : Leads f s s' :=
  Reach.next a (Reach.start rfl) hok hs

theorem Leads.trans (h : Leads f s s') (h' : Leads f s' t) : Leads f s t := by
  induction h' with
  | start h0 => exact h0 ▸ h
  | next a _ hok hs ih => exact ih.next a hok hs

/-- What holds in every run holds after some more steps. -/
theorem Leads.inv (h : Leads f s s') (hi : ∃ top, Inv isn f s top) : ∃ top, Inv isn f s' top := by
  refine Reach.invariant (I := fun s => ∃ top, Inv isn f s top) (fun x (h0 : x = s) => h0 ▸ hi) ?_ h
  rintro s a s' ⟨top, hi⟩ hok hs
  exact inv_step hi hok hs

/-! ### The sender finishes what it has begun -/

/-- Neither pipe of the sender holds a packet of the flow, and no payload is to be read. -/
structure Settled (s : TcpLink) : Prop where
  est : s.tx.estPass = none
  pass : s.tx.sendPass = none
  descs : s.descs = []

/-- The stream and the receiver are as before. -/
structure SameEnd (s s' : TcpLink) : Prop where
  rx : s'.rx = s.rx
  read : s'.read = s.read
  written : s'.written = s.written

theorem SameEnd.refl : SameEnd s s := ⟨rfl, rfl, rfl⟩

theorem SameEnd.trans (h : SameEnd s s') (h' : SameEnd s' t) : SameEnd s t :=
  ⟨h'.rx.trans h.rx, h'.read.trans h.read, h'.written.trans h.written⟩

theorem SameEnd.accepted (h : SameEnd s s') : s'.accepted f = s.accepted f := by
  rw [TcpLink.accepted, TcpLink.accepted, h.rx]

theorem fetch_all (ds : List TxDesc) (hd : s.descs = ds) (he : s.tx.estPass = none)
    (hp : s.tx.sendPass = none) : ∃ s', Leads f s s' ∧ Settled s' ∧ SameEnd s s' := by
  induction ds generalizing s with
  | nil => exact ⟨s, .refl, ⟨he, hp, hd⟩, .refl⟩
  | cons d ds ih =>
    have hs : s.step f .fetch = some (s.fetch d ds) := by simp [step, hd]
    obtain ⟨s', hl, hset, hsame⟩ := ih (s := s.fetch d ds) rfl he hp
    exact ⟨s', (Leads.one (a := .fetch) trivial hs).trans hl, hset, ⟨hsame.rx, hsame.read, hsame.written⟩⟩

theorem settles (s : TcpLink) : ∃ s', Leads f s s' ∧ Settled s' ∧ SameEnd s s' := by
  have hack : ∃ s', Leads f s s' ∧ s'.tx.estPass = none ∧ SameEnd s s' := by
    cases he : s.tx.estPass with
    | none => exact ⟨s, .refl, he, .refl⟩
    | some o =>
      exact ⟨s.ackWritten o, Leads.one (a := .ackWrite) trivial (by simp [step, he]), rfl, rfl, rfl, rfl⟩
  obtain ⟨s1, hl1, he1, hsame1⟩ := hack
  have hpass : ∃ s', Leads f s1 s' ∧ s'.tx.estPass = none ∧ s'.tx.sendPass = none ∧
      SameEnd s1 s' := by
    cases hp : s1.tx.sendPass with
    | none => exact ⟨s1, .refl, he1, hp, .refl⟩
    | some p =>
      exact ⟨s1.sent p.2, Leads.one (a := .sendWrite) trivial (by simp [step, hp]), he1, rfl, rfl, rfl, rfl⟩
  obtain ⟨s2, hl2, he2, hp2, hsame2⟩ := hpass
  obtain ⟨s3, hl3, hset, hsame3⟩ := fetch_all (f := f) s2.descs rfl he2 hp2
  exact ⟨s3, (hl1.trans hl2).trans hl3, hset, (hsame1.trans hsame2).trans hsame3⟩

/-! ### A whole pass -/

/-- What a pass numbers. -/
def passOf (s : TcpLink) (flags : RtTimeoutFlags) (now : BitVec 64) : Numbered :=
  numbering flags s.tx.txState s.tx.tailPtr now

/-- The segment of a pass, with its payload. -/
def segmentOf (s : TcpLink) (flags : RtTimeoutFlags) (now : BitVec 64) : NetSegment :=
  s.fetched ⟨(s.passOf flags now).txPktSeqNum, (s.passOf flags now).payloadBuf,
    s.acked + s.tx.dist (passSeqNum flags s.tx.txState)⟩

/-- What a pass of a settled sender leaves. -/
structure Passed (s : TcpLink) (flags : RtTimeoutFlags) (now : BitVec 64) (s' : TcpLink) : Prop where
  settled : Settled s'
  same : SameEnd s s'
  seqNum : s'.tx.seqNum = (s.passOf flags now).nextTxData.txCurrSeqNum
  ackNum : s'.tx.ackNum = s.tx.ackNum
  tailPtr : s'.tx.tailPtr = s.tx.tailPtr
  acked : s'.acked = s.acked
  seg : (s.passOf flags now).generatePkt = true → s.segmentOf flags now ∈ s'.segs

theorem passes (hs : Settled s) (flags : RtTimeoutFlags) (now : BitVec 64) :
    ∃ s', Leads f s s' ∧ Passed s flags now s' := by
  have hok : s.Timely (.sendRead flags now) := by
    intro o ho
    rw [hs.est] at ho
    cases ho
  have hread : Leads f s (s.numbered flags now) :=
    Leads.one hok (by simp [step, hs.pass])
  have hwrite : Leads f (s.numbered flags now) ((s.numbered flags now).sent (s.passOf flags now)) :=
    Leads.one (a := .sendWrite) trivial rfl
  cases hg : (s.passOf flags now).generatePkt with
  | false =>
    have hnone : ((s.numbered flags now).sent (s.passOf flags now)).descs = [] := by
      simp [sent, numbered, hs.descs, hg]
    refine ⟨_, hread.trans hwrite, ⟨hs.est, rfl, hnone⟩, ⟨rfl, rfl, rfl⟩, rfl, rfl, rfl, rfl, ?_⟩
    intro hc
    rw [hg] at hc
    cases hc
  | true =>
    have hone : ((s.numbered flags now).sent (s.passOf flags now)).descs =
        [⟨(s.passOf flags now).txPktSeqNum, (s.passOf flags now).payloadBuf,
          s.acked + s.tx.dist (passSeqNum flags s.tx.txState)⟩] := by
      simp [sent, numbered, hs.descs, hg]
    have hfetch := Leads.one (f := f) (a := .fetch)
      (s := (s.numbered flags now).sent (s.passOf flags now)) trivial (by rw [step, hone])
    refine ⟨_, (hread.trans hwrite).trans hfetch, ⟨hs.est, rfl, rfl⟩, ⟨rfl, rfl, rfl⟩, rfl, rfl,
      rfl, rfl, fun _ => ?_⟩
    exact List.mem_append_right _ List.mem_cons_self

/-- What was not sent yet is sent, pass after pass. -/
theorem catches_up (hi : ∃ top, Inv isn f s top) (hs : Settled s) :
    ∃ s', Leads f s s' ∧ Settled s' ∧ SameEnd s s' ∧ s'.acked = s.acked ∧
      s'.tx.seqNum = isn + BitVec.ofNat 32 s.written.length := by
  generalize hm : s.tx.room - s.tx.dist s.tx.seqNum = m
  induction m using Nat.strongRecOn generalizing s with
  | _ m ih =>
    obtain ⟨top, h⟩ := hi
    have hle := h.tx.seq
    by_cases hz : m = 0
    · refine ⟨s, .refl, hs, .refl, rfl, ?_⟩
      have hroom : s.written.length = s.acked + s.tx.dist s.tx.seqNum := by
        rw [h.tail]
        omega
      rw [hroom]
      exact num_eq h.ack _
    · obtain ⟨s1, hl, hp⟩ := passes (f := f) hs noFlags 0
      have hseq : passSeqNum noFlags s.tx.txState = s.tx.seqNum := rfl
      obtain ⟨hdist, hroom⟩ := dist_numbering h.tx noFlags 0
      rw [hseq] at hdist hroom
      have hpos : 0 < (passSegSize noFlags s.tx.txState s.tx.tailPtr).toNat := by
        apply segmentCalculator_pos
        show (s.tx.tailPtr - s.tx.seqNum.setWidth 13).toNat ≠ 0
        unfold TxFlow.room TxFlow.dist at *
        bv_omega
      have hroom1 : s1.tx.room = s.tx.room := by
        rw [TxFlow.room, TxFlow.room, hp.tailPtr, hp.ackNum]
      have hdist1 : s1.tx.dist s1.tx.seqNum = s.tx.dist s.tx.seqNum +
          (passSegSize noFlags s.tx.txState s.tx.tailPtr).toNat := by
        rw [TxFlow.dist, hp.ackNum, hp.seqNum]
        exact hdist
      obtain ⟨s2, hl2, hset2, hsame2, hack2, hseq2⟩ :=
        ih (s1.tx.room - s1.tx.dist s1.tx.seqNum) (by omega) (hl.inv ⟨top, h⟩) hp.settled rfl
      refine ⟨s2, hl.trans hl2, hset2, hp.same.trans hsame2, hack2.trans hp.acked, ?_⟩
      rw [hseq2, hp.same.written]

/-- The acknowledgement of everything accepted is taken over when all is sent. -/
theorem acknowledges (hi : ∃ top, Inv isn f s top) (hs : Settled s)
    (hseq : s.tx.seqNum = isn + BitVec.ofNat 32 s.written.length)
    (hlast : isn + BitVec.ofNat 32 s.written.length ≠ 0xFFFFFFFF#32) :
    ∃ s', Leads f s s' ∧ Settled s' ∧ SameEnd s s' ∧ s'.acked = (s.accepted f).length := by
  obtain ⟨top, h⟩ := hi
  have hbound := h.bound
  have hseen := h.seen
  have hpre := h.stream.length_le
  simp only [ringBytes] at hbound
  by_cases hall : s.acked = (s.accepted f).length
  · exact ⟨s, .refl, hs, .refl, hall⟩
  have hack : s.rx.ackNum f = isn + BitVec.ofNat 32 (s.accepted f).length := h.rx.ack
  let a : NetAck := ⟨s.rx.ackNum f, (s.accepted f).length⟩
  let s1 : TcpLink := { s with acks := s.acks ++ [a] }
  have hsend : Leads f s s1 := Leads.one (a := .sendAck) trivial rfl
  have hne : s.rx.ackNum f ≠ s.tx.seqNum + 1 := by
    intro hc
    have hone : s.tx.seqNum + 1 = isn + BitVec.ofNat 32 (s.written.length + 1) := by
      rw [hseq, BitVec.ofNat_add, BitVec.add_assoc]
      rfl
    rw [hack, hone] at hc
    have hpos := place_inj hc (by omega) (by omega)
    omega
  have hok : s1.Timely (.ackRead a) := by
    refine ⟨?_, fun hc => hne hc.2.2, ?_⟩
    · show s.written.length < (s.accepted f).length + 2 ^ 31
      omega
    · intro q hq
      have hnone : s1.tx.sendPass = none := hs.pass
      rw [hnone] at hq
      cases hq
  have hread : Leads f s1 (s1.ackSeen a) := by
    refine Leads.one hok ?_
    have hmem : a ∈ s1.acks := List.mem_append_right _ List.mem_cons_self
    have hidle : s1.tx.estPass = none := hs.est
    simp [step, hmem, hidle]
  have hwrite : Leads f (s1.ackSeen a) ((s1.ackSeen a).ackWritten (s1.tx.ackOut a.ackNum)) :=
    Leads.one (a := .ackWrite) trivial rfl
  refine ⟨_, (hsend.trans hread).trans hwrite, ⟨rfl, hs.pass, hs.descs⟩, ⟨rfl, rfl, rfl⟩, ?_⟩
  show s.acked + s.tx.dist (nextAckNum s.tx.ackNum (s.rx.ackNum f) s.tx.seqNum) = _
  have hplace := dist_place h.ack hseen (by omega)
  have hend := dist_place h.ack (k := s.written.length) (by omega) (by omega)
  have hwin : InAckWindow s.tx.ackNum (s.rx.ackNum f) s.tx.seqNum := by
    show 0 < s.tx.dist (s.rx.ackNum f) ∧ s.tx.dist (s.rx.ackNum f) ≤ s.tx.dist s.tx.seqNum
    rw [hack, hseq, hplace, hend]
    omega
  have hexact : ¬ PlusOneMisleads s.tx.ackNum (s.rx.ackNum f) s.tx.seqNum := by
    rintro ⟨-, hc⟩
    rw [if_neg (hseq ▸ hlast)] at hc
    exact hne hc
  rw [(nextAckNum_window_iff _ _ _).mpr hexact, if_pos hwin, hack, hplace]
  omega

/-! ### The receiver reads what it has -/

/-- The sender is as before. -/
structure SameStart (s s' : TcpLink) : Prop where
  tx : s'.tx = s.tx
  descs : s'.descs = s.descs
  segs : s'.segs = s.segs
  written : s'.written = s.written
  acked : s'.acked = s.acked

theorem SameStart.refl : SameStart s s := ⟨rfl, rfl, rfl, rfl, rfl⟩

theorem SameStart.trans (h : SameStart s s') (h' : SameStart s' t) : SameStart s t :=
  ⟨h'.tx.trans h.tx, h'.descs.trans h.descs, h'.segs.trans h.segs, h'.written.trans h.written,
    h'.acked.trans h.acked⟩

/-- Every packet in the queue is copied or dropped. -/
theorem copies (q : List QEntry) (hq : s.rx.queue = q) :
    ∃ s', Leads f s s' ∧ SameStart s s' ∧ s'.rx.queue = [] ∧ s'.accepted f = s.accepted f := by
  induction q generalizing s with
  | nil => exact ⟨s, .refl, .refl, hq, rfl⟩
  | cons e q ih =>
    have hs : s.step f (.receive .copyOut) = some { s with rx := s.rx.copyOut e q } := by
      simp [step, Aside, rxStep, hq]
    have hrest : (s.rx.copyOut e q).queue = q := by
      unfold Path.copyOut
      split <;> rfl
    obtain ⟨s', hl, hsame, hnil, hacc⟩ := ih (s := { s with rx := s.rx.copyOut e q }) hrest
    refine ⟨s', (Leads.one (a := .receive .copyOut) trivial hs).trans hl,
      ⟨hsame.tx, hsame.descs, hsame.segs, hsame.written, hsame.acked⟩, hnil, ?_⟩
    rw [hacc]
    exact accepted_copyOut hq

/-- The receiving application has read everything that was accepted, and its ring is free. -/
theorem reads (hi : ∃ top, Inv isn f s top) : ∃ s', Leads f s s' ∧ SameStart s s' ∧
    s'.rx.queue = [] ∧ s'.accepted f = s.accepted f ∧ s'.read = s.accepted f ∧
      (s'.rx.tailPtr f - s'.rx.headPtr f).toNat = 0 := by
  obtain ⟨s1, hl1, hsame, hq, hacc⟩ := copies (f := f) s.rx.queue rfl
  obtain ⟨top, h1⟩ := hl1.inv hi
  have happ : appHeadOk s1.rx f (s1.rx.commitPtr f) := Nat.le_refl _
  have hl2 : Leads f s1 (s1.releasedTo f (s1.rx.commitPtr f)) :=
    Leads.one (a := .release (s1.rx.commitPtr f)) trivial (by simp [step, happ])
  have hnone : waitingBytes f s1.rx.queue = [] := by rw [hq]; rfl
  refine ⟨_, hl1.trans hl2, hsame.trans ⟨rfl, rfl, rfl, rfl, rfl⟩, hq, hacc, ?_, ?_⟩
  · have hcom : s1.accepted f = s1.rx.committed f := by
      rw [accepted, hnone, List.append_nil]
    rw [← hacc, hcom, h1.rx.ring]
    show s1.read ++ Ring.slice (s1.rx.ring f) ((s1.rx.headPtr f).setWidth 12) (s1.rx.held f) = _
    rw [h1.rx.head_eq, BitVec.setWidth_ofNat_of_le (by decide)]
  · have hsum := (h1.rings.flow f h1.rx.live).sum
    have hwait : waitingLen f s1.rx.queue = 0 := by rw [hq]; rfl
    have heq : s1.rx.tailPtr f = s1.rx.commitPtr f := by bv_omega
    show (s1.rx.tailPtr f - Function.update s1.rx.headPtr f (s1.rx.commitPtr f) f).toNat = 0
    rw [Function.update_self, heq, BitVec.sub_self]
    rfl

/-! ### One more segment arrives -/

/-- Sent again from the place the receiver waits for, a segment is accepted. -/
theorem delivers (hi : ∃ top, Inv isn f s top) (hs : Settled s)
    (hacked : s.acked = (s.accepted f).length) (hmore : s.acked < s.written.length)
    (hq : s.rx.queue = []) (hfree : (s.rx.tailPtr f - s.rx.headPtr f).toNat = 0) :
    ∃ s', Leads f s s' ∧ s'.written = s.written ∧
      (s.accepted f).length < (s'.accepted f).length := by
  have hrt : RtTimeoutFlags.any ⟨false, true⟩ = true := rfl
  obtain ⟨s1, hl1, hp⟩ := passes (f := f) hs ⟨false, true⟩ 0
  obtain ⟨top, h⟩ := hi
  obtain ⟨top1, h1⟩ := hl1.inv ⟨top, h⟩
  have hmem := hp.seg (numbering_generate_of_any hrt _ _ _)
  have hfrom : passSeqNum ⟨false, true⟩ s.tx.txState = s.tx.ackNum := by
    rw [passSeqNum, if_pos hrt]
    rfl
  have hnum : (s.segmentOf ⟨false, true⟩ 0).seqNum = s.rx.ackNum f := by
    show passSeqNum ⟨false, true⟩ s.tx.txState = _
    rw [hfrom, h.ack, hacked]
    exact h.rx.ack.symm
  have hsize : (s.segmentOf ⟨false, true⟩ 0).bytes.length =
      (passSegSize ⟨false, true⟩ s.tx.txState s.tx.tailPtr).toNat := by
    have hlt := (passSegSize ⟨false, true⟩ s.tx.txState s.tx.tailPtr).isLt
    have hlen : (s.segmentOf ⟨false, true⟩ 0).bytes.length =
        ((passSegSize ⟨false, true⟩ s.tx.txState s.tx.tailPtr).setWidth 16).toNat :=
      length_slice _ _ _
    rw [hlen, BitVec.toNat_setWidth, Nat.mod_eq_of_lt (by omega)]
  have hle : (passSegSize ⟨false, true⟩ s.tx.txState s.tx.tailPtr).toNat ≤ 1024 :=
    segmentCalculator_le_max _ _
  have hpos : 0 < (passSegSize ⟨false, true⟩ s.tx.txState s.tx.tailPtr).toNat := by
    apply segmentCalculator_pos
    have htail := h.tail
    rw [hfrom]
    show s.tx.room ≠ 0
    omega
  let p : RxPkt := dataPkt f (s.rx.ackNum f) (s.segmentOf ⟨false, true⟩ 0).bytes (by omega)
  have hrx : s1.rx = s.rx := hp.same.rx
  have hb : s1.Brings f (s.segmentOf ⟨false, true⟩ 0) p := ⟨hmem, rfl, hnum.symm, rfl⟩
  have hbound := h.bound
  simp only [ringBytes] at hbound
  have hal : s1.Timely (.deliver (s.segmentOf ⟨false, true⟩ 0) p default) := by
    show s1.written.length < s.acked + s.tx.dist (passSeqNum ⟨false, true⟩ s.tx.txState) + 2 ^ 31
    rw [hp.same.written]
    omega
  have hlive : s1.rx.live f = true := h1.rx.live
  have hstep : s1.step f (.deliver (s.segmentOf ⟨false, true⟩ 0) p default) =
      some { s1 with rx := s1.rx.packet p default } := by
    have hroom : s1.rx.queue.length < storeBufQEls := by
      rw [hrx, hq]
      decide
    have htake : rxStep s1.rx (.packet p default) = some (s1.rx.packet p default) :=
      if_pos ⟨hlive, hroom⟩
    rw [step, if_pos hb, htake]
    rfl
  have haccept : (s1.rx.estNext p.pkt default).acceptPayload = true := by
    refine (acceptPayload_iff _ _ _ _).mpr ⟨rfl, ?_, ?_⟩
    · show s.rx.ackNum f = s1.rx.ackNum f
      rw [hrx]
    · show p.pkt.payloadEntry.payloadLen.toNat ≤
        (spaceLeft (s1.rx.headPtr f) (s1.rx.tailPtr f)).toNat
      have hlen : (s.segmentOf ⟨false, true⟩ 0).bytes.length = p.pkt.payloadEntry.payloadLen.toNat :=
        p.length_eq
      rw [hrx, spaceLeft_toNat (by rw [hfree]; decide), hfree, ← hlen, hsize]
      simp only [ringBytes]
      omega
  refine ⟨_, hl1.trans (Leads.one hal hstep), hp.same.written, ?_⟩
  have hacc : TcpLink.accepted f { s1 with rx := s1.rx.packet p default } = s1.accepted f ++
      if p.pkt.flowid = f ∧ (s1.rx.estNext p.pkt default).acceptPayload = true then p.slab else [] :=
    accepted_packet p default
  rw [hacc, if_pos ⟨rfl, haccept⟩, List.length_append, hp.same.accepted]
  show _ < _ + (s.segmentOf ⟨false, true⟩ 0).bytes.length
  omega

/-! ### All of the stream arrives -/

theorem all_read (hi : ∃ top, Inv isn f s top)
    (hlast : isn + BitVec.ofNat 32 s.written.length ≠ 0xFFFFFFFF#32) :
    ∃ s', Leads f s s' ∧ s'.written = s.written ∧ s'.read = s.written := by
  generalize hm : s.written.length - (s.accepted f).length = m
  induction m using Nat.strongRecOn generalizing s with
  | _ m ih =>
    obtain ⟨s1, hl1, hset1, hsame1⟩ := settles (f := f) s
    have hi1 := hl1.inv hi
    obtain ⟨s2, hl2, hset2, hsame2, -, hseq2⟩ := catches_up hi1 hset1
    have hi2 := hl2.inv hi1
    have hw2 : s2.written = s.written := hsame2.written.trans hsame1.written
    rw [← hsame2.written] at hseq2
    obtain ⟨s3, hl3, hset3, hsame3, hack3⟩ := acknowledges hi2 hset2 hseq2 (hw2 ▸ hlast)
    have hi3 := hl3.inv hi2
    obtain ⟨s4, hl4, hsame4, hq4, hacc4, hread4, hfree4⟩ := reads hi3
    have hi4 := hl4.inv hi3
    have hw4 : s4.written = s.written := hsame4.written.trans (hsame3.written.trans hw2)
    have hacc : s4.accepted f = s.accepted f := by
      rw [hacc4, hsame3.accepted, hsame2.accepted, hsame1.accepted]
    have hl : Leads f s s4 := ((hl1.trans hl2).trans hl3).trans hl4
    by_cases hz : m = 0
    · refine ⟨s4, hl, hw4, ?_⟩
      obtain ⟨top, h4⟩ := hi4
      rw [hread4, ← hacc4, ← hw4]
      exact h4.stream.eq_of_length_le (by rw [hacc, hw4]; omega)
    · have hset4 : Settled s4 :=
        ⟨hsame4.tx ▸ hset3.est, hsame4.tx ▸ hset3.pass, hsame4.descs.trans hset3.descs⟩
      have hacked : s4.acked = (s4.accepted f).length := by
        rw [hsame4.acked, hack3, hacc, hsame2.accepted, hsame1.accepted]
      obtain ⟨s5, hl5, hw5, hgrow⟩ :=
        delivers hi4 hset4 hacked (by rw [hacked, hacc, hw4]; omega) hq4 hfree4
      have hw : s5.written = s.written := hw5.trans hw4
      rw [hacc] at hgrow
      obtain ⟨s6, hl6, hw6, hr6⟩ := ih (s5.written.length - (s5.accepted f).length)
        (by rw [hw]; omega) (hl5.inv hi4) (hw ▸ hlast) rfl
      exact ⟨s6, (hl.trans hl5).trans hl6, hw6.trans hw, hr6.trans hw⟩

/-- From every state that can be reached, unless the stream ends at the last sequence number, the
link can go on until the receiving application has read all that was written. -/
theorem link_never_stuck (h : Reach (fun s => Init f s isn) (step f) Timely s)
    (hlast : isn + BitVec.ofNat 32 s.written.length ≠ 0xFFFFFFFF#32) :
    ∃ s', Reach (fun t => t = s) (step f) Timely s' ∧ s'.written = s.written ∧
      s'.read = s.written :=
  all_read (inv_of_reach h) hlast

/-- Its only segment was lost, and the acknowledgement of an older state of the receiver is left. -/
theorem link_never_stuck_lost : ∃ s, Reach (fun s => Init 7 s 0xFFFFFFFE#32) (step 7) Timely s ∧
    s.read = [] ∧ ∃ s', Reach (fun t => t = s) (step 7) Timely s' ∧ s'.read = [1, 2, 3, 4, 5] := by
  have hrun : ∃ s, Reach (fun s => Init 7 s 0xFFFFFFFE#32) (step 7) Timely s ∧
      decide (s.read = [] ∧ s.written = [1, 2, 3, 4, 5]) = true :=
    Reach.exists_of_run
      [.sendAck, .write [1, 2, 3, 4, 5], .sendRead noFlags 0, .sendWrite, .fetch]
      (init_opened _ 7) (by decide +kernel)
  obtain ⟨s, hs, hp⟩ := hrun
  obtain ⟨hread, hwritten⟩ := of_decide_eq_true hp
  obtain ⟨s', hr, -, hall⟩ := link_never_stuck hs (by rw [hwritten]; decide)
  exact ⟨s, hs, hread, s', hr, hall.trans hwritten⟩

/-! ### A stream that ends at the last number -/

/-- Fewer than 32 bytes up to the last number are not acknowledged, and the receiver waits for one
in the middle of them, where no segment begins. -/
structure Cornered (f : FlowId) (s : TcpLink) : Prop where
  seq : s.tx.seqNum = 0xFFFFFFFF#32
  tail : s.tx.tailPtr = 0x1FFF#13
  near : 0 < s.tx.dist s.tx.seqNum ∧ s.tx.dist s.tx.seqNum < 32
  inside : s.tx.ackNum ≠ s.rx.ackNum f ∧ 0xFFFFFFFF#32 ≠ s.rx.ackNum f
  est : ∀ o, s.tx.estPass = some o → o.nextAckState.txCurrAckNum = s.tx.ackNum
  pass : ∀ flags n, s.tx.sendPass = some (flags, n) →
    n.nextTxData.txCurrSeqNum = 0xFFFFFFFF#32 ∧ n.txPktSeqNum ≠ s.rx.ackNum f
  descs : ∀ d ∈ s.descs, d.seqNum ≠ s.rx.ackNum f
  segs : ∀ g ∈ s.segs, g.seqNum ≠ s.rx.ackNum f

/-- Such a link, with what holds of every link. -/
structure Stuck (isn : BitVec 32) (f : FlowId) (s : TcpLink) : Prop extends Cornered f s where
  rings : RingInv s.rx
  rx : Receives isn f s.rx s.read
  short : (s.accepted f).length < s.written.length

/-- The application writes nothing more. -/
def NoWrite (_ : TcpLink) (a : LinkAct) : Prop := ∀ bytes, a ≠ .write bytes

/-- Any pass sends the same bytes again, up to the last number. -/
theorem Stuck.numbers (h : Stuck isn f s) (flags : RtTimeoutFlags) (now : BitVec 64) :
    (s.passOf flags now).nextTxData.txCurrSeqNum = 0xFFFFFFFF#32 ∧
      (s.passOf flags now).txPktSeqNum ≠ s.rx.ackNum f := by
  obtain ⟨hpos, hlt⟩ := h.near
  have hseq : s.tx.txState.txCurrSeqNum = 0xFFFFFFFF#32 := h.seq
  have hnext : (s.passOf flags now).nextTxData.txCurrSeqNum = passSeqNum flags s.tx.txState +
      (segmentCalculator ((passSeqNum flags s.tx.txState).setWidth 13) 0x1FFF#13).setWidth 32 := by
    rw [← h.tail]
    rfl
  have hnum : (s.passOf flags now).txPktSeqNum = passSeqNum flags s.tx.txState := rfl
  rw [hnext, hnum]
  cases hf : flags.any with
  | false =>
    have hfrom : passSeqNum flags s.tx.txState = 0xFFFFFFFF#32 := by simp [passSeqNum, hf, hseq]
    rw [hfrom]
    exact ⟨rfl, h.inside.2⟩
  | true =>
    have hfrom : passSeqNum flags s.tx.txState = s.tx.ackNum := by
      simp [passSeqNum, hf, TxFlow.ackNum]
    have hsize := segmentCalculator_toNat (s.tx.ackNum.setWidth 13) 0x1FFF#13
    rw [TxFlow.dist, h.seq] at hpos hlt
    have hroom : (0x1FFF#13 - s.tx.ackNum.setWidth 13).toNat =
        (0xFFFFFFFF#32 - s.tx.ackNum).toNat := by bv_omega
    rw [hroom, if_neg (by omega), if_pos hlt] at hsize
    rw [hfrom]
    refine ⟨?_, h.inside.1⟩
    generalize segmentCalculator (s.tx.ackNum.setWidth 13) 0x1FFF#13 = size at hsize
    bv_omega

/-- The receiver stays where it is. -/
theorem Stuck.moved (h : Stuck isn f s) {rx : Path} {read : List RxPath.Byte} (hr : RingInv rx)
    (hrx : Receives isn f rx read)
    (hacc : rx.committed f ++ waitingBytes f rx.queue = s.accepted f) :
    Stuck isn f { s with rx, read } := by
  have hnum : rx.ackNum f = s.rx.ackNum f := by
    rw [hrx.ack, hacc]
    exact h.rx.ack.symm
  have hacc' : TcpLink.accepted f { s with rx, read } = s.accepted f := hacc
  refine ⟨⟨h.seq, h.tail, h.near, ?_, h.est, ?_, ?_, ?_⟩, hr, hrx, ?_⟩
  · exact hnum ▸ h.inside
  · exact hnum ▸ h.pass
  · exact hnum ▸ h.descs
  · exact hnum ▸ h.segs
  · rw [hacc']
    exact h.short

theorem Stuck.step {a : LinkAct} (h : Stuck isn f s) (hok : s.NoWrite a)
    (hs : s.step f a = some s') : Stuck isn f s' ∧ s'.written = s.written := by
  cases a with
  | write bytes => exact absurd rfl (hok bytes)
  | sendRead flags now =>
    simp only [TcpLink.step, Option.ite_none_right_eq_some, Option.some.injEq] at hs
    obtain ⟨-, rfl⟩ := hs
    refine ⟨⟨⟨h.seq, h.tail, h.near, h.inside, h.est, ?_, h.descs, h.segs⟩, h.rings, h.rx, h.short⟩, rfl⟩
    rintro flags' n ⟨⟩
    exact h.numbers flags now
  | sendWrite =>
    obtain ⟨⟨flags, n⟩, hp, rfl⟩ := Option.map_eq_some_iff.mp hs
    obtain ⟨hseq, hne⟩ := h.pass flags n hp
    have hnear : (s.sent n).tx.dist (s.sent n).tx.seqNum = s.tx.dist s.tx.seqNum := by
      show s.tx.dist n.nextTxData.txCurrSeqNum = _
      rw [hseq, h.seq]
    refine ⟨⟨⟨hseq, h.tail, hnear ▸ h.near, h.inside, h.est, ?_, ?_, h.segs⟩, h.rings, h.rx, h.short⟩, rfl⟩
    · intro flags' n' hp'
      cases hp'
    · intro d hd
      rcases List.mem_append.mp hd with hd | hd
      · exact h.descs d hd
      · split_ifs at hd
        · rw [List.mem_singleton.mp hd]
          exact hne
        · cases hd
  | fetch =>
    simp only [TcpLink.step] at hs
    split at hs
    · cases hs
    · rename_i d ds hd
      cases hs
      refine ⟨⟨⟨h.seq, h.tail, h.near, h.inside, h.est, h.pass, ?_, ?_⟩, h.rings, h.rx, h.short⟩, rfl⟩
      · intro d' hd'
        exact h.descs d' (hd ▸ List.mem_cons_of_mem _ hd')
      · intro g hg
        rcases List.mem_append.mp hg with hg | hg
        · exact h.segs g hg
        · rw [List.mem_singleton.mp hg]
          exact h.descs d (hd ▸ List.mem_cons_self)
  | deliver g p tx =>
    simp only [TcpLink.step, Option.ite_none_right_eq_some] at hs
    obtain ⟨⟨hg, hflow, hseq, -⟩, hs⟩ := hs
    obtain ⟨rx, hrx, rfl⟩ := Option.map_eq_some_iff.mp hs
    have hr := ringInv_step h.rings hrx
    simp only [rxStep, Option.ite_none_right_eq_some, Option.some.injEq] at hrx
    obtain ⟨-, rfl⟩ := hrx
    refine ⟨h.moved hr (h.rx.packet p tx) ?_, rfl⟩
    have hno : ¬ (s.rx.estNext p.pkt tx).acceptPayload = true := by
      intro ha
      have hwait := (packet_of_accept ha).1
      rw [hflow, hseq] at hwait
      exact h.segs g hg hwait
    rw [accepted_packet, if_neg fun hc => hno hc.2, List.append_nil]
    rfl
  | receive a =>
    simp only [TcpLink.step, Option.ite_none_right_eq_some] at hs
    obtain ⟨ha, hs⟩ := hs
    obtain ⟨rx, hrx, rfl⟩ := Option.map_eq_some_iff.mp hs
    obtain ⟨hrecv, hacc⟩ := receives_aside h.rings h.rx ha hrx
    exact ⟨h.moved (ringInv_step h.rings hrx) hrecv hacc, rfl⟩
  | release p =>
    simp only [TcpLink.step, Option.ite_none_right_eq_some, Option.some.injEq] at hs
    obtain ⟨hp, rfl⟩ := hs
    exact ⟨h.moved (ringInv_appHead h.rings hp) (h.rx.release hp) rfl, rfl⟩
  | sendAck =>
    cases hs
    exact ⟨⟨⟨h.seq, h.tail, h.near, h.inside, h.est, h.pass, h.descs, h.segs⟩, h.rings, h.rx, h.short⟩, rfl⟩
  | ackRead a =>
    simp only [TcpLink.step, Option.ite_none_right_eq_some, Option.some.injEq] at hs
    obtain ⟨-, rfl⟩ := hs
    refine ⟨⟨⟨h.seq, h.tail, h.near, h.inside, ?_, h.pass, h.descs, h.segs⟩, h.rings, h.rx, h.short⟩, rfl⟩
    rintro o ⟨⟩
    -- the sum with 1 is 0
    show nextAckNum s.tx.ackNum a.ackNum s.tx.seqNum = s.tx.ackNum
    have hpos := h.near.1
    rw [TxFlow.dist, h.seq] at hpos
    rw [h.seq, nextAckNum_of_unwrapped (by bv_omega), if_neg (by bv_omega)]
  | ackWrite =>
    obtain ⟨o, ho, rfl⟩ := Option.map_eq_some_iff.mp hs
    have hsame : (s.ackWritten o).tx.ackNum = s.tx.ackNum := h.est o ho
    have hnear : (s.ackWritten o).tx.dist (s.ackWritten o).tx.seqNum = s.tx.dist s.tx.seqNum := by
      rw [TxFlow.dist, hsame]
      rfl
    refine ⟨⟨⟨h.seq, h.tail, hnear ▸ h.near, hsame ▸ h.inside, ?_, h.pass, h.descs, h.segs⟩,
      h.rings, h.rx, h.short⟩, rfl⟩
    intro o' ho'
    cases ho'

theorem Cornered.stuck (h : Cornered f s) (hi : Inv isn f s top) : Stuck isn f s := by
  refine ⟨h, hi.rings, hi.rx, ?_⟩
  have hle := hi.stream.length_le
  have hbound := hi.bound
  have hack : s.rx.ackNum f = isn + BitVec.ofNat 32 (s.accepted f).length := hi.rx.ack
  have hend : isn + BitVec.ofNat 32 s.written.length = 0xFFFFFFFF#32 := by
    have hroom : s.tx.room = s.tx.dist s.tx.seqNum := by
      obtain ⟨-, hlt⟩ := h.near
      have htail := h.tail
      rw [TxFlow.dist, h.seq] at hlt
      rw [TxFlow.room, TxFlow.dist, h.seq, htail]
      bv_omega
    rw [hi.tail, hroom, ← h.seq]
    exact (num_eq hi.ack _).symm
  have hne : (s.accepted f).length ≠ s.written.length := by
    intro hc
    rw [hc, hend] at hack
    exact h.inside.2 hack.symm
  omega

/-- A stream that ends at the last number can be cut off: once every segment on its way begins
elsewhere than where the receiver waits, less than 32 bytes before the end, nothing that the timers,
the network and the acknowledgements do brings the rest to the other end. -/
theorem link_cut_off (h : Reach (fun s => Init f s isn) (step f) Timely s) (hc : Cornered f s)
    (hr : Reach (fun t => t = s) (step f) NoWrite s') : s'.read ≠ s'.written := by
  obtain ⟨top, hinv⟩ := inv_of_reach h
  have hi : Stuck isn f s' := by
    refine hr.invariant (fun t ht => ht ▸ hc.stuck hinv) ?_
    intro t a t' ht hok hs
    exact (ht.step hok hs).1
  have hcom := hi.rx.length_committed
  have hshort := hi.short
  intro hread
  have hlen := congrArg List.length hread
  rw [TcpLink.accepted, List.length_append] at hshort
  omega

/-- Five of twenty bytes are accepted, and both passes began at the first one. -/
theorem link_cut_off_twenty : ∃ s, Reach (fun s => Init 7 s 0xFFFFFFEB#32) (step 7) Timely s ∧
    ∀ s', Reach (fun t => t = s) (step 7) NoWrite s' → s'.read ≠ s'.written := by
  let seg : NetSegment := ⟨0xFFFFFFEB#32, [1, 2, 3, 4, 5], 0⟩
  let pkt : RxPkt := dataPkt 7 0xFFFFFFEB#32 [1, 2, 3, 4, 5] (by decide)
  have hrun : ∃ s, Reach (fun s => Init 7 s 0xFFFFFFEB#32) (step 7) Timely s ∧
      decide (s.tx.seqNum = 0xFFFFFFFF#32 ∧ s.tx.tailPtr = 0x1FFF#13 ∧
        (0 < s.tx.dist s.tx.seqNum ∧ s.tx.dist s.tx.seqNum < 32) ∧
        (s.tx.ackNum ≠ s.rx.ackNum 7 ∧ 0xFFFFFFFF#32 ≠ s.rx.ackNum 7) ∧
        s.tx.estPass.isNone ∧ s.tx.sendPass.isNone ∧
        (∀ d ∈ s.descs, d.seqNum ≠ s.rx.ackNum 7) ∧ (∀ g ∈ s.segs, g.seqNum ≠ s.rx.ackNum 7)) =
          true :=
    Reach.exists_of_run
      [.write [1, 2, 3, 4, 5], .sendRead noFlags 0, .sendWrite, .fetch, .deliver seg pkt default,
        .write (List.replicate 15 9), .sendRead ⟨false, true⟩ 1, .sendWrite, .fetch]
      (init_opened _ 7) (by decide +kernel)
  obtain ⟨s, hs, hp⟩ := hrun
  obtain ⟨hseq, htail, hnear, hinside, hest, hpass, hdescs, hsegs⟩ := of_decide_eq_true hp
  refine ⟨s, hs, fun s' hr => link_cut_off hs ⟨hseq, htail, hnear, hinside, ?_, ?_, hdescs, hsegs⟩ hr⟩
  · intro o ho
    rw [ho] at hest
    cases hest
  · intro flags n hn
    rw [hn] at hpass
    cases hpass

end TcpLink

end TcpHw
