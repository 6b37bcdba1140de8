import TcpHw.Recv.EstPipe

/-!
# When pipelining cannot be observed

Stage C always sees the receive and acknowledgement state its predecessor leaves: they
arrive after the predecessor has reached stage W, and the bypass covers the cycles it spends
there. The tail pointer is taken over one cycle earlier, when the packet leaves stage R. If
its predecessor of the same flow leaves stage W in that very cycle, the pointer is the old
one and no bypass applies afterwards.
-/
namespace TcpHw

open Trace

set_option autoImplicit false

/-! ### The reference, one event at a time -/

/-- The state of a flow as one decision leaves it. -/
def EstNext.state (n : EstNext) : EstState where
  recv := n.nextRecvState
  ack := n.nextAckState
  txHeadPtr := n.nextTxHeadPtr
  tailPtr := n.nextTailPtr

/-- The decision for a packet that finds the state `m`. -/
def EstState.decide (m : EstState) (p : EstPkt) (headPtr : Ptr) (txSeqNum : BitVec 32) : EstNext :=
  estCompute m.recv txSeqNum m.ack headPtr m.tailPtr p

theorem write_decide (m : EstState) (p : EstPkt) (headPtr : Ptr) (txSeqNum : BitVec 32) :
    m.write (m.decide p headPtr txSeqNum) = (m.decide p headPtr txSeqNum).state := by
  by_cases ha : acceptPayload m.recv headPtr m.tailPtr p = true
  · simp [EstState.write, EstNext.state, EstState.decide, estCompute, ha]
  · simp [EstState.write, EstNext.state, EstState.decide, estCompute, ha]

theorem write_write (m : EstState) (n : EstNext) : (m.write n).write n = m.write n := by
  simp only [EstState.write]
  split <;> rfl

theorem serial_append (m : FlowId → EstState) (es fs : List EstEvent) :
    serial m (es ++ fs) = ((serial (serial m es).1 fs).1, (serial m es).2 ++
      (serial (serial m es).1 fs).2) := by
  induction es generalizing m with
  | nil => rfl
  | cons e es ih =>
    cases e with
    | packet p h n => simp only [List.cons_append, serial, ih]
    | newFlow f st => simp only [List.cons_append, serial, ih]

namespace EstPipe

/-- The state of the flows when the events so far are processed one at a time. -/
def serialMem (s : EstPipe) : FlowId → EstState := (serial s.log.start s.log.events).1

/-- The pipe has processed its packets once and in order, has decided each as if they had come
one at a time, and the memories of flows without a packet in stage W are what that leaves. -/
structure Transparent (s : EstPipe) : Prop where
  packets : s.log.taken =
    s.log.events.filterMap EstEvent.pkt? ++ (s.c.map EstC.pkt).toList ++ s.r.toList
  decisions : s.log.decisions = (serial s.log.start s.log.events).2
  stored : ∀ f, (∀ w ∈ s.w, w.pkt.flowid ≠ f) → s.mem f = s.serialMem f

/-- No packet leaves stage R while a packet of its flow leaves stage W with a new tail pointer
that is not yet in the memory. -/
def NoStaleTail (s : EstPipe) (i : EstIn) : Prop :=
  ∀ p ∈ s.rOut i, ∀ w ∈ s.w, w.pkt.flowid = p.flowid → i.stallW = false →
    (s.mem p.flowid).tailPtr = w.next.nextTailPtr

instance (s : EstPipe) (i : EstIn) : Decidable (NoStaleTail s i) :=
  inferInstanceAs (Decidable (∀ _, _ → _))

/-! ### The arbiter, the read ports and the stages -/

/-- A packet in stage C is the one the arbiter waits for, and the ports answer for the
packets in stages R and C. -/
structure PortInv (s : EstPipe) : Prop where
  ready : s.arb.waiting = false → s.c = none ∧ s.recvRd = none ∧ s.txRd = none
  est : s.arb.waiting = true → s.arb.fsmGrant = false →
    ∃ x, s.c = some x ∧ s.recvRd = some x.pkt.flowid ∧ s.txRd = some x.pkt.flowid
  fsm : s.arb.waiting = true → s.arb.fsmGrant = true →
    s.c = none ∧ s.recvRd.isSome = true ∧ s.txRd.isSome = true
  read : ∀ p ∈ s.r, s.headRd = some p.flowid ∧ s.tailRd = some p.flowid

variable {s : EstPipe} {i : EstIn}

/-- While the arbiter waits nothing leaves stage R. -/
theorem rOut_of_waiting (h : s.arb.waiting = true) : s.rOut i = none := by
  unfold rOut
  cases hr : s.r with
  | none => simp
  | some p => simp [stallR, hr, estGrant, grant, h]

theorem rOut_of_not_estGrant (h : s.estGrant i = false) : s.rOut i = none := by
  unfold rOut
  cases hr : s.r with
  | none => simp
  | some p => simp [stallR, hr, h]

/-- A packet in stage C moves on exactly when stage W does. -/
theorem PortInv.stallC_eq (h : PortInv s) {x : EstC} (hc : s.c = some x) :
    s.arb.waiting = true ∧ s.stallC i = i.stallW := by
  have hw : s.arb.waiting = true := by
    by_contra hn
    rw [(h.ready (by simpa using hn)).1] at hc
    cases hc
  have hf : s.arb.fsmGrant = false := by
    by_contra hn
    rw [(h.fsm hw (by simpa using hn)).1] at hc
    cases hc
  obtain ⟨y, -, hr, ht⟩ := h.est hw hf
  exact ⟨hw, by simp [stallC, hc, estRespVal, hw, hf, hr, ht]⟩

/-- A packet that leaves stage R finds stage C empty. -/
theorem PortInv.rOut_cases (h : PortInv s) {p : EstPkt} (hp : s.rOut i = some p) :
    s.arb.waiting = false ∧ s.c = none ∧ s.r = some p ∧ s.stallR i = false := by
  have hw : s.arb.waiting = false := by
    by_contra hn
    rw [rOut_of_waiting (by simpa using hn)] at hp
    cases hp
  refine ⟨hw, (h.ready hw).1, ?_⟩
  unfold rOut at hp
  split at hp
  · cases hp
  · rename_i hs
    exact ⟨hp, by simpa using hs⟩

theorem portInv_read (h : PortInv s) :
    ∀ p ∈ (s.step i).r, (s.step i).headRd = some p.flowid ∧ (s.step i).tailRd = some p.flowid := by
  intro p hp
  have hp' : (if s.stallR i then s.r else i.hdr) = some p := hp
  change Ram.next s.headRd _ _ = _ ∧ Ram.next s.tailRd _ _ = _
  split at hp'
  · rename_i hs
    obtain ⟨hh, ht⟩ := h.read p hp'
    simp [Ram.next, hs, hh, ht]
  · rename_i hs
    simp [Ram.next, hs, hp']

theorem step_c (hc : s.stallC i = false) (hr : s.rOut i = none) : (s.step i).c = none := by
  simp [step, hc, hr]

/-- The arbiter is ready and grants nothing, the FSM or stage R. -/
theorem portInv_ready (h : PortInv s) (hw : s.arb.waiting = false) : PortInv (s.step i) := by
  obtain ⟨hc, hrecv, htx⟩ := h.ready hw
  have hstall : s.stallC i = false := by simp [stallC, hc]
  have hgrant : s.grant i = s.arbOutput i := by simp [grant, hw, Ram.reqRdy, hrecv, htx]
  have hports : (s.step i).recvRd = s.stateReq i ∧ (s.step i).txRd = s.stateReq i := by
    simp [step, Ram.next, hrecv, htx]
  have hread := portInv_read (i := i) h
  cases hg : s.arbOutput i with
  | none =>
    rw [hg] at hgrant
    have harb : (s.step i).arb = s.arb := by simp [step, arbNext, hw, hgrant]
    have hreq : s.stateReq i = none := by simp [stateReq, hgrant]
    have hrout := rOut_of_not_estGrant (s := s) (i := i) (by simp [estGrant, hgrant])
    rw [hreq] at hports
    refine ⟨fun _ => ⟨step_c hstall hrout, hports.1, hports.2⟩, ?_, ?_, hread⟩ <;>
      simp [harb, hw]
  | some g =>
    rw [hg] at hgrant
    have harb : (s.step i).arb.waiting = true ∧ (s.step i).arb.fsmGrant = g := by
      simp [step, arbNext, hw, hgrant]
    cases g with
    | true =>
      have hfsm : i.fsmReq.isSome = true := by
        unfold arbOutput at hg
        split at hg
        · rename_i hf
          simp only [Bool.and_eq_true] at hf
          exact hf.2
        · split at hg
          · cases hg
          · split at hg
            · assumption
            · cases hg
      have hreq : s.stateReq i = i.fsmReq := by simp [stateReq, hgrant]
      have hrout := rOut_of_not_estGrant (s := s) (i := i) (by simp [estGrant, hgrant])
      rw [hreq] at hports
      refine ⟨by simp [harb], by simp [harb], fun _ _ => ?_, hread⟩
      exact ⟨step_c hstall hrout, by rw [hports.1]; exact hfsm, by rw [hports.2]; exact hfsm⟩
    | false =>
      obtain ⟨p, hp⟩ : ∃ p, s.r = some p := by
        unfold arbOutput at hg
        split at hg
        · cases hg
        · split at hg
          · rename_i hr
            exact Option.isSome_iff_exists.mp hr
          · split at hg <;> cases hg
      obtain ⟨hh, ht⟩ := h.read p hp
      have hrout : s.rOut i = some p := by
        simp [rOut, stallR, hp, hstall, estGrant, hgrant, hh, ht]
      have hreq : s.stateReq i = some p.flowid := by simp [stateReq, hgrant, hp]
      rw [hreq] at hports
      refine ⟨by simp [harb], fun _ _ => ?_, by simp [harb], hread⟩
      exact ⟨_, by simp [step, hstall, hrout]; rfl, hports.1, hports.2⟩

theorem portInv_waiting (h : PortInv s) (hw : s.arb.waiting = true) : PortInv (s.step i) := by
  have hrout := rOut_of_waiting (i := i) hw
  have hgrant : s.grant i = none := by simp [grant, hw]
  have hreq : s.stateReq i = none := by simp [stateReq, hgrant]
  have hread := portInv_read (i := i) h
  have hsome : s.recvRd.isSome = true ∧ s.txRd.isSome = true := by
    cases hf : s.arb.fsmGrant with
    | true => exact (h.fsm hw hf).2
    | false =>
      obtain ⟨x, -, hr, ht⟩ := h.est hw hf
      simp [hr, ht]
  have harb : (s.step i).arb = { s.arb with waiting := !s.respRdy i } := by
    simp [step, arbNext, hw, hsome]
  cases hrdy : s.respRdy i with
  | true =>
    have hstall : s.stallC i = false := by
      cases hf : s.arb.fsmGrant with
      | true => simp [stallC, (h.fsm hw hf).1]
      | false => simpa [respRdy, hf] using hrdy
    have hports : (s.step i).recvRd = none ∧ (s.step i).txRd = none := by
      simp [step, Ram.next, hrdy, hreq]
    refine ⟨fun _ => ⟨step_c hstall hrout, hports.1, hports.2⟩, ?_, ?_, hread⟩ <;>
      simp [harb, hrdy]
  | false =>
    have hports : (s.step i).recvRd = s.recvRd ∧ (s.step i).txRd = s.txRd := by
      simp [step, Ram.next, hrdy, hsome]
    have hc : (s.step i).c = s.c := by
      cases hf : s.arb.fsmGrant with
      | true =>
        have hn := (h.fsm hw hf).1
        rw [step_c (by simp [stallC, hn]) hrout, hn]
      | false =>
        have hstall : s.stallC i = true := by simpa [respRdy, hf] using hrdy
        simp [step, hstall]
    refine ⟨by simp [harb, hrdy], ?_, ?_, hread⟩
    · intro _ hf
      rw [hc, hports.1, hports.2]
      exact h.est hw (by simpa [harb] using hf)
    · intro _ hf
      rw [hc, hports.1, hports.2]
      exact h.fsm hw (by simpa [harb] using hf)

theorem portInv_step (h : PortInv s) : PortInv (s.step i) := by
  cases hw : s.arb.waiting with
  | false => exact portInv_ready h hw
  | true => exact portInv_waiting h hw

/-! ### The stages and the reference -/

structure SerialInv (s : EstPipe) : Prop extends Transparent s where
  tailC : ∀ x ∈ s.c, (∀ w ∈ s.w, w.pkt.flowid ≠ x.pkt.flowid) →
    x.tailPtr = (s.mem x.pkt.flowid).tailPtr
  stageW : ∀ w ∈ s.w, (s.mem w.pkt.flowid).write w.next = s.serialMem w.pkt.flowid ∧
    s.serialMem w.pkt.flowid = w.next.state

theorem packets_step (h : Transparent s) : (s.step i).log.taken =
    (s.step i).log.events.filterMap EstEvent.pkt? ++ ((s.step i).c.map EstC.pkt).toList ++
      (s.step i).r.toList := by
  have ht : (s.step i).log.taken = s.log.taken ++ (if s.stallR i then none else i.hdr).toList := rfl
  have he : (s.step i).log.events.filterMap EstEvent.pkt? =
      s.log.events.filterMap EstEvent.pkt? ++ ((s.cOut i).map EstC.pkt).toList := by
    change (s.log.events ++ _ ++ _).filterMap EstEvent.pkt? = _
    rw [List.filterMap_append, List.filterMap_append]
    cases s.cOut i <;> cases i.newFlow <;> simp [EstEvent.pkt?]
  rw [ht, he, h.packets]
  by_cases hc : s.stallC i = true
  · cases hr : s.r with
    | none => simp [step, hc, cOut, stallR, hr]
    | some p =>
      have hs : s.stallR i = true := by simp [stallR, hr, hc]
      simp [step, hc, cOut, hs, hr]
  · have hout : (s.step i).c = (s.rOut i).map fun p =>
        { pkt := p, headPtr := i.headPtr p.flowid, tailPtr := (s.mem p.flowid).tailPtr } := by
      simp [step, hc]
    have hcOut : s.cOut i = s.c := by simp [cOut, hc]
    have hr' : (s.step i).r = if s.stallR i then s.r else i.hdr := rfl
    rw [hout, hcOut, hr', Option.map_map]
    by_cases hs : s.stallR i = true
    · simp [rOut, hs]
    · simp [rOut, hs, Function.comp_def]

/-- The events of a cycle, seen by the reference. -/
theorem serial_step :
    serial (s.step i).log.start (s.step i).log.events =
      ((serial s.serialMem (((s.cOut i).map fun c =>
            EstEvent.packet c.pkt c.headPtr (i.txSeqNum c.pkt.flowid)).toList ++
          (i.newFlow.map fun x => EstEvent.newFlow x.1 x.2).toList)).1,
        (serial s.log.start s.log.events).2 ++
          (serial s.serialMem (((s.cOut i).map fun c =>
            EstEvent.packet c.pkt c.headPtr (i.txSeqNum c.pkt.flowid)).toList ++
          (i.newFlow.map fun x => EstEvent.newFlow x.1 x.2).toList)).2) := by
  change serial s.log.start (s.log.events ++ _ ++ _) = _
  rw [List.append_assoc, serial_append]
  rfl

/-- What stage C computes is what the reference decides. -/
theorem SerialInv.compute_eq (h : SerialInv s) {x : EstC} (hc : s.c = some x) :
    s.compute i x = (s.serialMem x.pkt.flowid).decide x.pkt x.headPtr
      (i.txSeqNum x.pkt.flowid) := by
  unfold compute
  cases hb : s.byp x with
  | some n =>
    obtain ⟨w, hw, rfl⟩ := Option.map_eq_some_iff.mp hb
    obtain ⟨hw, hf⟩ := Option.filter_eq_some_iff.mp hw
    have hf : w.pkt.flowid = x.pkt.flowid := by simpa using hf
    have hm := (h.stageW w hw).2
    rw [hf] at hm
    rw [hm]
    rfl
  | none =>
    have hne : ∀ w ∈ s.w, w.pkt.flowid ≠ x.pkt.flowid := by
      intro w hw he
      have hw : s.w = some w := hw
      simp [byp, hw, he] at hb
    rw [h.tailC x hc hne, h.stored _ hne]
    rfl

/-- Once stage W has moved on, everything is stored. -/
theorem SerialInv.memNext_eq (h : SerialInv s) (hn : i.newFlow = none) (f : FlowId) :
    s.memNext i f = s.serialMem f := by
  unfold memNext
  rw [hn]
  cases hw : s.w with
  | none => exact h.stored f (by simp [hw])
  | some w =>
    by_cases hf : f = w.pkt.flowid
    · subst hf
      simpa using (h.stageW w hw).1
    · simp only [Function.update_of_ne hf]
      refine h.stored f ?_
      simpa [hw] using Ne.symm hf

theorem PortInv.cOut_of_stallW (h : PortInv s) (hs : i.stallW = true) : s.cOut i = none := by
  unfold cOut
  cases hc : s.c with
  | none => simp
  | some x => simp [(h.stallC_eq hc).2, hs]

/-- The pointers of the packet in stage C after a cycle: those it had, or the stored ones it
leaves stage R with. -/
theorem PortInv.c_step (h : PortInv s) {x : EstC} (hx : (s.step i).c = some x) :
    (s.c = some x ∧ i.stallW = true) ∨
      (s.rOut i = some x.pkt ∧ s.c = none ∧ x.tailPtr = (s.mem x.pkt.flowid).tailPtr) := by
  have hx' : (if s.stallC i then s.c else (s.rOut i).map fun p =>
    { pkt := p, headPtr := i.headPtr p.flowid, tailPtr := (s.mem p.flowid).tailPtr }) =
      some x := hx
  split at hx'
  · rename_i hs
    exact .inl ⟨hx', (h.stallC_eq hx').2 ▸ hs⟩
  · obtain ⟨p, hp, rfl⟩ := Option.map_eq_some_iff.mp hx'
    exact .inr ⟨hp, (h.rOut_cases hp).2.1, rfl⟩

/-- A new flow is written while the pipe is held. -/
theorem serialInv_newFlow (hp : PortInv s) (h : SerialInv s) (hok : NewFlowOk s i) {g : FlowId}
    {st : EstState} (hn : i.newFlow = some (g, st)) : SerialInv (s.step i) := by
  have hs : i.stallW = true := by simp [EstIn.stallW, hn]
  have hcOut := hp.cOut_of_stallW hs
  have hser := serial_step (s := s) (i := i)
  simp only [hcOut, hn, Option.map_none, Option.map_some, Option.toList_none, Option.toList_some,
    List.nil_append, serial, List.append_nil] at hser
  have hw : (s.step i).w = s.w := by simp [step, hs]
  have hmem : ∀ f, (s.step i).mem f = Function.update s.mem g st f := by
    intro f
    simp [step, memNext, hn]
  have hser' : (s.step i).serialMem = Function.update s.serialMem g st := by
    rw [serialMem, hser]
  obtain ⟨hokR, hokC, hokW⟩ := hok _ hn
  refine ⟨⟨packets_step h.toTransparent, ?_, ?_⟩, ?_, ?_⟩
  · rw [hser, ← h.decisions]
    simp [step, logNext, hcOut]
  · intro f hf
    rw [hw] at hf
    rw [hmem, hser']
    by_cases hg : f = g
    · simp [hg]
    · simp [hg, h.stored f hf]
  · intro x hx hne
    rw [hw] at hne
    rcases hp.c_step hx with ⟨hc, -⟩ | ⟨hr, -, htail⟩
    · rw [hmem, Function.update_of_ne (hokC x hc)]
      exact h.tailC x hc hne
    · rw [hmem, Function.update_of_ne (hokR _ (hp.rOut_cases hr).2.2.1)]
      exact htail
  · intro w hw'
    rw [hw] at hw'
    rw [hmem, hser', Function.update_of_ne (hokW w hw'), Function.update_of_ne (hokW w hw')]
    exact h.stageW w hw'

/-- A full queue holds the pipe; the writes of stage W land. -/
theorem serialInv_full (hp : PortInv s) (h : SerialInv s) (hn : i.newFlow = none)
    (hfull : i.storeBufFull = true) : SerialInv (s.step i) := by
  have hs : i.stallW = true := by simp [EstIn.stallW, hfull]
  have hcOut := hp.cOut_of_stallW hs
  have hser := serial_step (s := s) (i := i)
  simp only [hcOut, hn, Option.map_none, Option.toList_none, serial, List.append_nil] at hser
  have hw : (s.step i).w = s.w := by simp [step, hs]
  have hmem : ∀ f, (s.step i).mem f = s.serialMem f := h.memNext_eq hn
  have hser' : (s.step i).serialMem = s.serialMem := by rw [serialMem, hser]
  refine ⟨⟨packets_step h.toTransparent, ?_, ?_⟩, ?_, ?_⟩
  · rw [hser, ← h.decisions]
    simp [step, logNext, hcOut]
  · intro f _
    rw [hmem, hser']
  · intro x hx hne
    rw [hw] at hne
    rw [hmem, ← h.stored _ hne]
    rcases hp.c_step hx with ⟨hc, -⟩ | ⟨-, -, htail⟩
    · exact h.tailC x hc hne
    · exact htail
  · intro w hw'
    rw [hw] at hw'
    obtain ⟨hwr, hst⟩ := h.stageW w hw'
    rw [hmem, hser', ← hwr, write_write]
    exact ⟨rfl, hwr.trans hst⟩

/-- The pipe moves: stage W takes the packet of stage C, if there is one. -/
theorem serialInv_move (hp : PortInv s) (h : SerialInv s) (hok : NoStaleTail s i)
    (hn : i.newFlow = none) (hfull : i.storeBufFull = false) : SerialInv (s.step i) := by
  have hs : i.stallW = false := by simp [EstIn.stallW, hn, hfull]
  have hmem : ∀ f, (s.step i).mem f = s.serialMem f := h.memNext_eq hn
  have hser := serial_step (s := s) (i := i)
  have hw : (s.step i).w = (s.cOut i).map fun c => { pkt := c.pkt, next := s.compute i c } := by
    simp [step, hs]
  cases hc : s.c with
  | none =>
    have hcOut : s.cOut i = none := by simp [cOut, hc]
    simp only [hcOut, hn, Option.map_none, Option.toList_none, serial, List.append_nil] at hser
    rw [hcOut, Option.map_none] at hw
    have hser' : (s.step i).serialMem = s.serialMem := by rw [serialMem, hser]
    refine ⟨⟨packets_step h.toTransparent, ?_, ?_⟩, ?_, by simp [hw]⟩
    · rw [hser, ← h.decisions]
      simp [step, logNext, hcOut]
    · intro f _
      rw [hmem, hser']
    · intro x hx _
      rcases hp.c_step hx with ⟨-, hst⟩ | ⟨hr, -, htail⟩
      · rw [hs] at hst
        cases hst
      · -- the pointer was taken over while stage W may have been writing a new one
        rw [hmem, htail]
        cases hsw : s.w with
        | none => rw [h.stored _ (by simp [hsw])]
        | some w =>
          by_cases hf : w.pkt.flowid = x.pkt.flowid
          · rw [hok _ hr w hsw hf hs, ← hf, (h.stageW w hsw).2]
            rfl
          · rw [h.stored _ (by simpa [hsw] using hf)]
  | some x =>
    have hcOut : s.cOut i = some x := by simp [cOut, hc, (hp.stallC_eq hc).2, hs]
    have hcomp := h.compute_eq (i := i) hc
    simp only [hcOut, hn, Option.map_none, Option.map_some, Option.toList_none, Option.toList_some,
      List.append_nil, serial] at hser
    rw [hcOut, Option.map_some, hcomp] at hw
    have hser' : (s.step i).serialMem = Function.update s.serialMem x.pkt.flowid
        ((s.serialMem x.pkt.flowid).write ((s.serialMem x.pkt.flowid).decide x.pkt x.headPtr
          (i.txSeqNum x.pkt.flowid))) := by
      rw [serialMem, hser]
      rfl
    refine ⟨⟨packets_step h.toTransparent, ?_, ?_⟩, ?_, ?_⟩
    · rw [hser, ← h.decisions]
      simp only [step, logNext, hcOut, Option.map_some, Option.toList_some, hcomp]
      rfl
    · intro f hf
      have hne : f ≠ x.pkt.flowid := by
        rw [hw] at hf
        exact fun he => hf _ rfl he.symm
      rw [hmem, hser', Function.update_of_ne hne]
    · intro y hy _
      rcases hp.c_step hy with ⟨-, hst⟩ | ⟨-, hnone, -⟩
      · rw [hs] at hst
        cases hst
      · rw [hc] at hnone
        cases hnone
    · intro w hw'
      rw [hw] at hw'
      cases hw'
      rw [hmem, hser', Function.update_self]
      exact ⟨rfl, write_decide _ _ _ _⟩

theorem serialInv_step (hp : PortInv s) (h : SerialInv s) (hok : NoStaleTail s i)
    (hnew : NewFlowOk s i) : SerialInv (s.step i) := by
  cases hn : i.newFlow with
  | some x => exact serialInv_newFlow hp h hnew hn
  | none =>
    cases hf : i.storeBufFull with
    | true => exact serialInv_full hp h hn hf
    | false => exact serialInv_move hp h hok hn hf

theorem inv_init (h : s.Init) : PortInv s ∧ SerialInv s := by
  obtain ⟨hr, hc, hw, -, -, hrecv, htx, harb, hstart, ht, he, hd⟩ := h
  refine ⟨⟨by simp [hc, hrecv, htx], by simp [harb], by simp [harb], by simp [hr]⟩,
    ⟨⟨by simp [ht, he, hc, hr], by simp [hd, he, serial], ?_⟩, by simp [hc], by simp [hw]⟩⟩
  intro f _
  simp [serialMem, he, serial, hstart]

/-- In every run in which no packet takes over a tail pointer that is just being replaced, the
pipe does what it would do one packet at a time. -/
theorem transparent_of_noStaleTail (h : Reach Init cycle NoStaleTail s) : Transparent s := by
  have hinv : PortInv s ∧ SerialInv s := by
    refine h.invariant (fun _ => inv_init) ?_
    rintro s i s' ⟨hp, hi⟩ hok hs
    simp only [cycle, Option.ite_none_right_eq_some, Option.some.injEq] at hs
    obtain ⟨hnew, rfl⟩ := hs
    exact ⟨portInv_step hp, serialInv_step hp hi hok hnew⟩
  exact hinv.2.toTransparent

/-! ### Two packets of one flow, back to back -/

/-- Ten bytes of flow 3. -/
def tenBytes (seqNum : BitVec 32) : EstPkt where
  flowid := 3
  tcpHdr := { (default : TcpPktHdr) with seqNum := seqNum }
  payloadVal := true
  payloadEntry := { payloadAddr := 0, payloadLen := 10 }

def feed (hdr : Option EstPkt) (full : Bool) : EstIn where
  hdr := hdr
  fsmReq := none
  fsmRespRdy := true
  newFlow := none
  storeBufFull := full
  headPtr _ := 0
  txSeqNum _ := 0

/-- Two packets in consecutive cycles; the queue is full or not in the cycle in which the first
reaches stage W. -/
def backToBack (full : Bool) : List EstIn :=
  [feed (some (tenBytes 0)) false, feed (some (tenBytes 10)) false, feed none false,
    feed none full, feed none false, feed none false, feed none false]

/-- A full queue keeps the first packet in stage W until the second is in stage C. -/
theorem transparent_of_noStaleTail_held : ∃ s, Reach Init cycle NoStaleTail s ∧
    (s.w.isNone ∧ (s.mem 3).tailPtr = 20) ∧ Transparent s := by
  have hrun : ∃ s, Reach Init cycle NoStaleTail s ∧
      decide (s.w.isNone ∧ (s.mem 3).tailPtr = 20) = true :=
    Reach.exists_of_run (backToBack true) reset_init (by decide +kernel)
  obtain ⟨s, hr, hp⟩ := hrun
  exact ⟨s, hr, decide_eq_true_iff.mp hp, transparent_of_noStaleTail hr⟩

/-- Without that, the second packet keeps the tail pointer of before the first. -/
theorem transparent_back_to_back : ¬ ∀ s : EstPipe, Reach Init cycle Free s → Transparent s := by
  intro h
  have hrun : ∃ s, Reach Init cycle Free s ∧
      decide (s.w.isNone ∧ (s.mem 3).tailPtr = 10 ∧ (s.serialMem 3).tailPtr = 20) = true :=
    Reach.exists_of_run (backToBack false) reset_init (by decide +kernel)
  obtain ⟨s, hr, hp⟩ := hrun
  rw [decide_eq_true_iff, Option.isNone_iff_eq_none] at hp
  have he := (h s hr).stored 3 (by simp [hp.1])
  rw [← he, hp.2.1] at hp
  exact absurd hp.2.2 (by decide)

end EstPipe

end TcpHw
