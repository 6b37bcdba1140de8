import TcpHw.Lib.Tokens
import TcpHw.Recv.RxPipe

/-!
# No slab is lost

The balance of every stage, queue and pool for one clock edge: the slabs it holds after the
edge and those it hands on are the slabs it held before and those it takes over. Added up,
a slab leaves the receive pipe only where a packet is dropped with it.
-/
namespace TcpHw.RxPipe

open Trace Tokens

set_option autoImplicit false

theorem held_empty (a : SlabAddr) {e : PayloadBuf} (h : e.payloadLen = 0) : held slab? a [e] = 0 := by
  simp [slab?, h]

theorem held_payload (a : SlabAddr) {e : PayloadBuf} (h : e.payloadLen ≠ 0) :
    held slab? a [e] = List.count a [e.payloadAddr.setWidth 15] := by
  rw [held_singleton, List.count_singleton, slab?, if_neg h]
  simp

/-! ### `tcp_tmp_rx_buf` and `slab_alloc_tracker` -/

theorem tmp_balance (a : SlabAddr) (b : TmpRxBuf) (hdr : Option RxHdr) (error : Bool)
    (addr : SlabAddr) (dataVal stall : Bool) :
    held slab? a (tmpPayloads (b.step hdr error addr dataVal !stall)) +
        held slab? a ((if stall then none else b.out).map RecvPkt.payloadEntry).toList =
      held slab? a (tmpPayloads b) +
        List.count a (if b.consume hdr error then [addr] else []) := by
  cases hc : b.ctrl with
  | ready =>
    have hout : b.out = none := by simp [TmpRxBuf.out, hc]
    cases hdr with
    | none => simp [TmpRxBuf.step, tmpPayloads, TmpRxBuf.consume, hc, hout]
    | some h =>
      by_cases hl : h.payloadLen = 0#16
      · simp [TmpRxBuf.step, tmpPayloads, TmpRxBuf.consume, hc, hout, hl,
          TmpRxBuf.payloadEntry, slab?]
      · cases error <;>
          simp [TmpRxBuf.step, tmpPayloads, TmpRxBuf.consume, hc, hout, hl,
            TmpRxBuf.payloadEntry, slab?, List.count_singleton]
  | dataCopy =>
    have hout : b.out = none := by simp [TmpRxBuf.out, hc]
    cases dataVal
    · simp [TmpRxBuf.step, tmpPayloads, TmpRxBuf.consume, hc, hout]
    · by_cases hr : b.payloadBytesRem ≤ 64#16 <;>
        simp [TmpRxBuf.step, tmpPayloads, TmpRxBuf.consume, hc, hout, hr,
          TmpRxBuf.payloadEntry]
  | output =>
    cases stall <;> simp [TmpRxBuf.step, tmpPayloads, TmpRxBuf.consume, hc, TmpRxBuf.out]

/-- The free pool of `slab_alloc_tracker`. -/
def pool (m : SlabAllocTracker) : List SlabAddr :=
  (if m.useFifo then [] else slabs.filter fun a => m.initSlabAddr ≤ a) ++ m.freed

/-- The counter stands on a slab until it has handed out the last one. -/
def TrackerInv (m : SlabAllocTracker) : Prop := m.useFifo = false → m.initSlabAddr ∈ slabs

theorem slabs_last : slabs.filter (fun a => lastSlabAddr ≤ a) = [lastSlabAddr] := by
  decide +kernel

theorem slabs_next {c : SlabAddr} (hc : c ∈ slabs) (hne : c ≠ lastSlabAddr) :
    c + slabBytes ∈ slabs ∧
      slabs.filter (fun a => c ≤ a) = c :: slabs.filter fun a => c + slabBytes ≤ a := by
  -- only the ten slabs are tried, not all addresses
  have hall : slabs.all (fun c => decide (c ≠ lastSlabAddr → c + slabBytes ∈ slabs ∧
      slabs.filter (fun a => c ≤ a) = c :: slabs.filter fun a => c + slabBytes ≤ a)) = true := by
    decide +kernel
  exact of_decide_eq_true (List.all_eq_true.mp hall c hc) hne

theorem trackerInv_step {m : SlabAllocTracker} (h : TrackerInv m) (consume : Bool)
    (free : Option SlabAddr) : TrackerInv (m.step consume free) := by
  intro hf
  simp only [SlabAllocTracker.step] at hf ⊢
  cases hu : m.useFifo with
  | true => simp [hu] at hf
  | false =>
    cases consume with
    | false => simpa [hu] using h hu
    | true =>
      have hne : m.initSlabAddr ≠ lastSlabAddr := by simpa [hu] using hf
      simpa [hu] using (slabs_next (h hu) hne).1

theorem pool_balance (a : SlabAddr) {m : SlabAllocTracker} (h : TrackerInv m) (consume : Bool)
    (free : Option SlabAddr) (herr : consume = true → m.respError = false) :
    (pool (m.step consume free)).count a +
        List.count a (if consume then [m.respAddr] else []) =
      (pool m).count a + List.count a (if m.freeRdy then free else none).toList := by
  have hfree : (if m.freeRdy then free.toList else []) =
      (if m.freeRdy then free else none).toList := by
    cases m.freeRdy <;> rfl
  cases consume with
  | false =>
    simp [pool, SlabAllocTracker.step, hfree]
    omega
  | true =>
    cases hu : m.useFifo with
    | true =>
      cases hq : m.freed with
      | nil => simp [SlabAllocTracker.respError, hu, hq] at herr
      | cons b q =>
        simp [pool, SlabAllocTracker.step, SlabAllocTracker.respAddr, hu, hq, hfree,
          List.count_cons]
        omega
    | false =>
      by_cases hl : m.initSlabAddr = lastSlabAddr
      · simp only [pool, SlabAllocTracker.step, SlabAllocTracker.respAddr, hu, hl, slabs_last,
          hfree]
        simp [List.count_cons]
        omega
      · have hs := (slabs_next (h hu) hl).2
        simp only [pool, SlabAllocTracker.step, SlabAllocTracker.respAddr, hu, hs, hfree]
        simp [hl, List.count_cons]
        omega

/-! ### `rx_issue_pipe` -/

/-- A packet without a flow ID that stage T drops carries no payload. -/
def DropsNoPayload (q : RxIssuePipe) (x : IssueIn) : Prop :=
  ∀ t ∈ q.t, q.dropHdr x = true → q.stallT x = false → t.pkt.payloadEntry.payloadLen = 0

theorem held_stageINext (a : SlabAddr) {q : RxIssuePipe} {x : IssueIn} (hd : DropsNoPayload q x)
    (hs : q.stallT x = false) :
    held slab? a ((q.stageINext x).map fun i => i.pkt.payloadEntry).toList =
      held slab? a (q.t.map fun t => t.pkt.payloadEntry).toList := by
  cases ht : q.t with
  | none => simp [RxIssuePipe.stageINext, ht]
  | some t =>
    cases hdrop : q.dropHdr x with
    | true =>
      have hl := hd t ht hdrop hs
      have h0 := held_empty a hl
      simpa [RxIssuePipe.stageINext, hdrop] using h0.symm
    | false => simp [RxIssuePipe.stageINext, hdrop, hs, ht]

theorem issue_balance (a : SlabAddr) {q : RxIssuePipe} {x : IssueIn} (hd : DropsNoPayload q x) :
    held slab? a (issuePayloads (q.step x)) +
        held slab? a ((q.issued x).map fun i => i.pkt.payloadEntry).toList =
      held slab? a (issuePayloads q) +
        held slab? a ((if q.stallF x then none else x.recv).map RecvPkt.payloadEntry).toList := by
  simp only [issuePayloads, RxIssuePipe.issued, held_append]
  cases hT : q.stallT x with
  | true =>
    have hnext : q.stageINext x = none := by simp [RxIssuePipe.stageINext, hT]
    simp only [RxIssuePipe.step, RxIssuePipe.stallF, hT, hnext]
    cases hI : q.stallI x <;> cases q.f <;> simp <;> omega
  | false =>
    have hnext := held_stageINext a hd hT
    have hF : q.stallF x = false := by simp [RxIssuePipe.stallF, hT]
    have hf : (q.step x).t.map (fun t => t.pkt.payloadEntry) = q.f.map RecvPkt.payloadEntry := by
      cases h : q.f <;> simp [RxIssuePipe.step, hT, h]
    cases hI : q.stallI x with
    | true =>
      -- stage I holds stage T back, so stage T is empty
      have ht : q.t = none := by
        cases ht : q.t with
        | none => rfl
        | some t => simp [RxIssuePipe.stallT, ht, hI] at hT
      rw [hf]
      simp [RxIssuePipe.step, hF, hI, ht]
      omega
    | false =>
      rw [hf]
      simp [RxIssuePipe.step, hF, hI, hnext]
      omega

/-- The packets of stage I are divided between `est_pipe` and the FSM. -/
theorem issued_balance (a : SlabAddr) (q : RxIssuePipe) (x : IssueIn) :
    held slab? a ((q.estOut x).map ReinjectPkt.payloadEntry).toList +
        held slab? a ((q.fsmOut x).map FsmPkt.payloadEntry).toList =
      held slab? a ((q.issued x).map fun i => i.pkt.payloadEntry).toList := by
  have h := held_filter (fun i : StageI => slab? i.pkt.payloadEntry) a
    (fun i => routeEst (q.currTcpState x i) i.pkt.tcpHdr) (q.issued x)
  simp only [RxIssuePipe.estOut, RxIssuePipe.fsmOut, Option.toList_map, held_map]
  exact h

/-! ### `rx_fsm_pipe` -/

/-- The packet is decided on and will not be put back. -/
def decided : FsmCtrl → Bool
  | .initState | .wrFlowState | .sendPkt | .notifApp => true
  | _ => false

/-- The packet in hand says truly whether it has a payload, and has none once it is
decided on. -/
structure FsmInv (m : RxFsmPipe) : Prop where
  valid : m.ctrl ≠ .ready → m.pkt.payloadVal = (m.pkt.payloadEntry.payloadLen != 0)
  decided : decided m.ctrl = true → m.pkt.payloadEntry.payloadLen = 0

/-- The packet the FSM takes in this cycle. -/
def fsmTaken (m : RxFsmPipe) (i : FsmIn) : Option FsmPkt := if m.hdrRdy then i.hdr else none

/-- How the FSM parts with its packet: it puts it back, or drops it after a decision or as a
packet without payload. -/
theorem fsm_moves {m : RxFsmPipe} (i : FsmIn) (hr : m.ctrl ≠ .ready) :
    (m.step i).pkt = m.pkt ∧
      ((m.step i).ctrl ≠ .ready ∧ m.reinject i = none ∨
        (m.step i).ctrl = .ready ∧ (m.reinject i = some m.reinjectEntry ∨
          m.reinject i = none ∧ (m.pkt.payloadVal = false ∨ decided m.ctrl = true))) := by
  cases hc : m.ctrl with
  | ready => exact absurd hc hr
  | tcpStateRdResp =>
    cases ht : i.tcpResp with
    | none => simp [RxFsmPipe.step, RxFsmPipe.reinject, hc, ht]
    | some st =>
      cases hf : i.reinjectFull <;> cases hp : onlyAckPsh m.pkt.tcpHdr.flags <;>
        cases hv : m.pkt.payloadVal <;> cases hs : i.stateRdRdy <;> by_cases he : st = .est <;>
        simp [RxFsmPipe.step, RxFsmPipe.reinject, RxFsmPipe.rdReqNext, hc, ht, he, hf, hp, hv, hs]
  | reinjectPkt =>
    cases hf : i.reinjectFull <;> simp [RxFsmPipe.step, RxFsmPipe.reinject, hc, hf]
  | tcpStateRdReq =>
    cases hn : m.pkt.newFlow <;> simp [RxFsmPipe.step, RxFsmPipe.reinject, hc, hn]
  | rxTxStateRdReq =>
    cases hs : i.stateRdRdy <;> simp [RxFsmPipe.step, RxFsmPipe.reinject, RxFsmPipe.rdReqNext, hc, hs]
  | rxTxStateRdResp =>
    cases hs : i.stateResp <;> simp [RxFsmPipe.step, RxFsmPipe.reinject, hc, hs]
  | stateDec =>
    refine ⟨by simp [RxFsmPipe.step, hc], .inl ⟨?_, by simp [RxFsmPipe.reinject, hc]⟩⟩
    simp only [RxFsmPipe.step, hc]
    split <;> simp
  | initState =>
    cases hn : i.newFlowRdy <;> simp [RxFsmPipe.step, RxFsmPipe.reinject, hc, hn]
  | wrFlowState =>
    cases hw : i.wrRdy <;> cases hp : m.sendPktVal <;> cases hn : m.appNewFlowNotif <;>
      simp [RxFsmPipe.step, RxFsmPipe.reinject, hc, hw, hp, hn, decided]
  | sendPkt =>
    cases hw : i.sendRdy <;> cases hn : m.appNewFlowNotif <;>
      simp [RxFsmPipe.step, RxFsmPipe.reinject, hc, hw, hn, decided]
  | notifApp =>
    cases hn : i.notifRdy <;> simp [RxFsmPipe.step, RxFsmPipe.reinject, hc, hn, decided]

theorem decided_step {m : RxFsmPipe} {i : FsmIn} (h : decided (m.step i).ctrl = true) :
    m.ctrl = .stateDec ∨ decided m.ctrl = true := by
  have harc := RxFsmPipe.ctrl_mem_arcs (m := m) (i := i)
  cases hc : m.ctrl with
  | stateDec => exact .inl rfl
  | initState | wrFlowState | sendPkt | notifApp => exact .inr rfl
  | ready | tcpStateRdReq | reinjectPkt | rxTxStateRdReq | rxTxStateRdResp =>
    simp only [hc, RxFsmPipe.arcs, List.mem_cons, List.not_mem_nil, or_false] at harc
    rcases harc with hn | hn <;> simp [hn, decided] at h
  | tcpStateRdResp =>
    simp only [hc, RxFsmPipe.arcs, List.mem_cons, List.not_mem_nil, or_false] at harc
    rcases harc with hn | hn | hn | hn | hn <;> simp [hn, decided] at h

theorem fsm_balance (a : SlabAddr) {m : RxFsmPipe} (h : FsmInv m) (i : FsmIn) :
    held slab? a (fsmPayloads (m.step i)) +
        held slab? a ((m.reinject i).map ReinjectPkt.payloadEntry).toList =
      held slab? a (fsmPayloads m) +
        held slab? a ((fsmTaken m i).map FsmPkt.payloadEntry).toList := by
  by_cases hc : m.ctrl = .ready
  · have hre : m.reinject i = none := by simp [RxFsmPipe.reinject, hc]
    cases hh : i.hdr <;>
      simp [fsmPayloads, RxFsmPipe.step, fsmTaken, RxFsmPipe.hdrRdy, hc, hre, hh]
  · have htaken : fsmTaken m i = none := by simp [fsmTaken, RxFsmPipe.hdrRdy, hc]
    obtain ⟨hpkt, ⟨hn, hre⟩ | ⟨hn, hre | ⟨hre, hv⟩⟩⟩ := fsm_moves i hc
    · simp [fsmPayloads, hc, hn, hpkt, hre, htaken]
    · simp [fsmPayloads, hc, hn, hre, htaken, RxFsmPipe.reinjectEntry]
    · have h0 : m.pkt.payloadEntry.payloadLen = 0 := by
        rcases hv with hv | hv
        · have hval := h.valid hc
          rw [hv] at hval
          simpa using hval.symm
        · exact h.decided hv
      have hz := held_empty a h0
      simp only [fsmPayloads, hc, hn, hre, htaken, if_true, if_false, hz]
      rfl

theorem fsmInv_step {m : RxFsmPipe} (h : FsmInv m) {i : FsmIn}
    (hdec : m.ctrl = .stateDec → m.pkt.payloadEntry.payloadLen = 0)
    (hhdr : ∀ p ∈ i.hdr, p.payloadVal = (p.payloadEntry.payloadLen != 0)) :
    FsmInv (m.step i) := by
  by_cases hc : m.ctrl = .ready
  · cases hh : i.hdr with
    | none =>
      have hs : m.step i = m := by simp [RxFsmPipe.step, hc, hh]
      rw [hs]
      exact h
    | some p =>
      have hs : m.step i = { m with ctrl := .tcpStateRdReq, pkt := p } := by
        simp [RxFsmPipe.step, hc, hh]
      rw [hs]
      exact ⟨fun _ => hhdr p hh, fun hd => by simp [decided] at hd⟩
  · have hpkt := (fsm_moves i hc).1
    constructor
    · intro _
      rw [hpkt]
      exact h.valid hc
    · intro hd
      rw [hpkt]
      rcases decided_step hd with hs | hs
      · exact hdec hs
      · exact h.decided hs

/-! ### `est_pipe` -/

/-- The packet stage W hands on in this cycle. -/
def wOut (e : EstPipe) (i : EstIn) : Option EstW := if i.stallW then none else e.w

theorem est_balance (a : SlabAddr) (e : EstPipe) (i : EstIn) :
    held slab? a (estPayloads (e.step i)) +
        held slab? a ((wOut e i).map fun w => w.pkt.payloadEntry).toList =
      held slab? a (estPayloads e) +
        held slab? a ((if e.stallR i then none else i.hdr).map EstPkt.payloadEntry).toList := by
  simp only [estPayloads, EstPipe.step, EstPipe.rOut, EstPipe.cOut, wOut, held_append]
  cases hw : i.stallW with
  | true =>
    cases hc : e.c with
    | none =>
      cases hr : e.stallR i <;> cases e.r <;>
        simp [EstPipe.stallC, hc] <;> omega
    | some c =>
      have hC : e.stallC i = true := by simp [EstPipe.stallC, hc, hw]
      cases hr : e.r with
      | none =>
        simp [EstPipe.stallR, hr, hC]
        omega
      | some p => simp [EstPipe.stallR, hr, hC]
  | false =>
    cases hC : e.stallC i with
    | true =>
      cases hr : e.r with
      | none =>
        simp [EstPipe.stallR, hr, hC]
        omega
      | some p => simp [EstPipe.stallR, hr, hC]
    | false =>
      cases hR : e.stallR i <;> cases e.r <;> cases e.c <;> simp <;> omega

/-! ### `rx_payload_store_buf_cp` -/

/-- The entry in hand has a payload, and the read port answers only while it is waited for. -/
structure CpInv (c : StoreBufCp) : Prop where
  payload : c.ctrl ≠ .ready → c.qEntry.payloadEntry.payloadLen ≠ 0
  commitRd : c.ctrl ≠ .commitPtrResp → c.commitRd = none

/-- The slab that reaches the free pool. -/
def cpFreed (c : StoreBufCp) (i : StoreBufCpIn) : Option SlabAddr :=
  if i.freeRdy then c.free i else none

/-- An entry taken from the queue is kept if it has a payload. -/
theorem start_cases {c : StoreBufCp} (h : CpInv c) (hc : c.ctrl = .ready) (e : RxStoreBufQ) :
    CpInv (c.start e) ∧ (c.start e).qEntry = e ∧
      ((c.start e).ctrl = .ready ↔ e.payloadEntry.payloadLen = 0) := by
  have hrd : c.commitRd = none := h.commitRd (by simp [hc])
  by_cases hl : e.payloadEntry.payloadLen = 0
  · have hs : c.start e = { c with ctrl := .ready, qEntry := e } := by
      rw [StoreBufCp.start, if_pos hl]
    rw [hs]
    exact ⟨⟨fun hn => absurd rfl hn, fun _ => hrd⟩, rfl, by simpa using hl⟩
  · cases ha : e.acceptPayload with
    | false =>
      have hs : c.start e = { c with ctrl := .freeNonAccepted, qEntry := e } := by
        simp only [StoreBufCp.start, if_neg hl, ha, Bool.not_false, if_true]
      rw [hs]
      exact ⟨⟨fun _ => hl, fun _ => hrd⟩, rfl, by simpa using hl⟩
    | true =>
      have hs : c.start e =
          { ctrl := .commitPtrResp
            qEntry := e
            bytesLeft := e.payloadEntry.payloadLen
            commitRd := some e.flowid } := by
        simp only [StoreBufCp.start, if_neg hl, ha, Bool.not_true, Ram.reqRdy, Ram.next, hrd]
        simp
      rw [hs]
      exact ⟨⟨fun _ => hl, fun hn => absurd rfl hn⟩, rfl, by simpa using hl⟩

/-- What a cycle does to the entry in hand: it is kept, or its slab is freed. -/
theorem cp_moves {c : StoreBufCp} (hc : c.ctrl ≠ .ready) (head : Option RxStoreBufQ)
    (i : StoreBufCpIn) :
    (c.step head i).qEntry = c.qEntry ∧
      ((c.step head i).ctrl ≠ .ready ∧ cpFreed c i = none ∨
        (c.step head i).ctrl = .ready ∧
          cpFreed c i = some (c.qEntry.payloadEntry.payloadAddr.setWidth 15)) := by
  cases hs : c.ctrl with
  | ready => exact absurd hs hc
  | commitPtrResp =>
    cases hr : c.commitRd <;> simp [StoreBufCp.step, cpFreed, StoreBufCp.free, hs, hr]
  | dataCopyStart =>
    cases hr : i.startRdy <;> simp [StoreBufCp.step, cpFreed, StoreBufCp.free, hs, hr]
  | dataCopy =>
    cases hb : i.beat <;> by_cases hl : c.bytesLeft ≤ 64#16 <;>
      simp [StoreBufCp.step, cpFreed, StoreBufCp.free, hs, hb, hl]
  | dataCopyWait =>
    cases hd : i.done <;> simp [StoreBufCp.step, cpFreed, StoreBufCp.free, hs, hd]
  | updatePointer =>
    cases hw : i.commitWrRdy <;> cases hf : i.freeRdy <;>
      simp [StoreBufCp.step, cpFreed, StoreBufCp.free, hs, hw, hf]
  | freeNonAccepted =>
    cases hf : i.freeRdy <;> simp [StoreBufCp.step, cpFreed, StoreBufCp.free, hs, hf]

theorem commitRd_step {c : StoreBufCp} (h : CpInv c) (hc : c.ctrl ≠ .ready)
    (head : Option RxStoreBufQ) (i : StoreBufCpIn)
    (hn : (c.step head i).ctrl ≠ .commitPtrResp) : (c.step head i).commitRd = none := by
  cases hs : c.ctrl with
  | ready => exact absurd hs hc
  | commitPtrResp =>
    cases hr : c.commitRd with
    | none => simp [StoreBufCp.step, hs, hr] at hn
    | some f => simp [StoreBufCp.step, hs, hr, Ram.next, StoreBufCp.commitRespRdy]
  | dataCopyStart | dataCopy | dataCopyWait | updatePointer | freeNonAccepted =>
    have hrd : c.commitRd = none := h.commitRd (by simp [hs])
    simp only [StoreBufCp.step, hs]
    split_ifs <;> exact hrd

theorem cpInv_step {c : StoreBufCp} (h : CpInv c) (head : Option RxStoreBufQ)
    (i : StoreBufCpIn) : CpInv (c.step head i) := by
  by_cases hc : c.ctrl = .ready
  · cases head with
    | none =>
      have hs : c.step none i = c := by simp [StoreBufCp.step, hc]
      rw [hs]
      exact h
    | some e =>
      have hs : c.step (some e) i = c.start e := by simp [StoreBufCp.step, hc]
      rw [hs]
      exact (start_cases h hc e).1
  · constructor
    · intro _
      rw [(cp_moves hc head i).1]
      exact h.payload hc
    · exact commitRd_step h hc head i

theorem cp_balance (a : SlabAddr) {c : StoreBufCp} (h : CpInv c) (head : Option RxStoreBufQ)
    (i : StoreBufCpIn) :
    held slab? a (cpPayloads (c.step head i)) + List.count a (cpFreed c i).toList =
      held slab? a (cpPayloads c) +
        held slab? a ((c.popped head).map RxStoreBufQ.payloadEntry).toList := by
  by_cases hc : c.ctrl = .ready
  · have hfree : cpFreed c i = none := by simp [cpFreed, StoreBufCp.free, hc]
    cases head with
    | none => simp [StoreBufCp.step, cpPayloads, StoreBufCp.popped, hc, hfree]
    | some e =>
      have hs : c.step (some e) i = c.start e := by simp [StoreBufCp.step, hc]
      obtain ⟨-, hq, hr⟩ := start_cases h hc e
      rw [hs]
      by_cases hl : e.payloadEntry.payloadLen = 0
      · have h0 := held_empty a hl
        simpa [cpPayloads, StoreBufCp.popped, hc, hfree, hr.mpr hl] using h0.symm
      · have hn : (c.start e).ctrl ≠ .ready := fun hn => hl (hr.mp hn)
        simp [cpPayloads, StoreBufCp.popped, hc, hfree, hn, hq]
  · have hp : c.popped head = none := by simp [StoreBufCp.popped, hc]
    obtain ⟨hq, ⟨hn, hf⟩ | ⟨hn, hf⟩⟩ := cp_moves hc head i
    · simp [cpPayloads, hc, hn, hq, hf, hp]
    · have hl := held_payload a (h.payload hc)
      simpa [cpPayloads, hc, hn, hf, hp] using hl.symm

/-! ### The queues between the stages -/

variable {s : RxPipe} {i : RxPipeIn}

theorem merger_balance (a : SlabAddr) (s : RxPipe) (i : RxPipeIn) :
    held slab? a ((estTaken s i).map EstPkt.payloadEntry).toList +
        held slab? a ((s.reinjectRest i).map ReinjectPkt.payloadEntry) =
      held slab? a (s.reinjectQ.map ReinjectPkt.payloadEntry) +
        held slab? a ((s.front.issue.estOut (s.front.issueIn (s.frontIn i))).map
          ReinjectPkt.payloadEntry).toList := by
  have hrdy := estPipeRdy_eq s.est (s.estEnv i)
  cases hout : s.front.issue.estOut (s.front.issueIn (s.frontIn i)) with
  | none =>
    cases hq : s.reinjectQ with
    | nil => simp [estTaken, reinjectRest, hq, estHdr, hout]
    | cons p q =>
      cases hR : s.est.stallR (s.estEnv i) with
      | true => simp [estTaken, reinjectRest, hrdy, hR, hq]
      | false =>
        rw [List.map_cons, held_cons]
        simp [estTaken, reinjectRest, hrdy, hR, hq, estHdr, ReinjectPkt.estPkt]
  | some p =>
    have hr : s.issueEstRdy i = true := estOut_rdy hout
    simp only [issueEstRdy, Bool.and_eq_true, List.isEmpty_iff, hrdy, Bool.not_eq_true'] at hr
    simp [estTaken, hr.1, hr.2, reinjectRest, estHdr, hout, ReinjectPkt.estPkt]

theorem stored_balance (a : SlabAddr) (s : RxPipe) (i : RxPipeIn) :
    held slab? a ((s.stored i).map RxStoreBufQ.payloadEntry).toList =
      held slab? a ((wOut s.est (s.estIn i)).map fun w => w.pkt.payloadEntry).toList := by
  have hstall : (s.estIn i).stallW = (s.estEnv i).stallW := rfl
  simp only [stored, wOut, hstall]
  cases (s.estEnv i).stallW with
  | true => rfl
  | false =>
    cases hw : s.est.w with
    | none => rfl
    | some w =>
      by_cases hl : w.pkt.payloadEntry.payloadLen = 0
      · have h0 := held_empty a hl
        simpa [Option.filter, hl] using h0.symm
      · have hl' : (w.pkt.payloadEntry.payloadLen != 0) = true := by simpa using hl
        simp only [Option.filter, hl', if_true]
        rfl

/-! ### The whole pipe -/

/-- The packet says truly whether it has a payload. -/
def Truthful (val : Bool) (e : PayloadBuf) : Prop := val = (e.payloadLen != 0)

/-- The packets of the issue pipe. -/
def issuePkts (q : RxIssuePipe) : List RecvPkt :=
  q.f.toList ++ (q.t.map StageT.pkt).toList ++ (q.i.map StageI.pkt).toList

structure SlabInv (s : RxPipe) : Prop where
  once : ∀ a, s.freeSlabs.count a + s.refs.count a = if a ∈ slabs then 1 else 0
  tracker : TrackerInv s.tracker
  issue : ∀ p ∈ issuePkts s.front.issue, Truthful p.payloadVal p.payloadEntry
  fsmQ : ∀ p ∈ s.front.fsmQ, Truthful p.payloadVal p.payloadEntry
  fsm : FsmInv s.front.sys.fsm
  cp : CpInv s.cp

theorem tmp_out_truthful {b : TmpRxBuf} {p : RecvPkt} (h : b.out = some p) :
    Truthful p.payloadVal p.payloadEntry := by
  simp only [TmpRxBuf.out, Option.ite_none_right_eq_some, Option.some.injEq] at h
  obtain ⟨-, rfl⟩ := h
  rfl

/-- The packets of the issue pipe were there before or have just arrived. -/
theorem issuePkts_step {q : RxIssuePipe} {x : IssueIn} {p : RecvPkt}
    (h : p ∈ issuePkts (q.step x)) : p ∈ issuePkts q ∨ x.recv = some p := by
  simp only [issuePkts, List.mem_append, Option.mem_toList] at h ⊢
  rcases h with (h | h) | h
  · simp only [RxIssuePipe.step] at h
    split_ifs at h
    · exact .inl (.inl (.inl h))
    · exact .inr h
  · simp only [RxIssuePipe.step] at h
    split_ifs at h
    · exact .inl (.inl (.inr h))
    · rw [Option.map_map] at h
      exact .inl (.inl (.inl (by simpa [Function.comp_def] using h)))
  · simp only [RxIssuePipe.step] at h
    split_ifs at h
    · exact .inl (.inr h)
    · obtain ⟨j, hj, rfl⟩ := Option.map_eq_some_iff.mp h
      obtain ⟨-, t, ht, hp, -⟩ := RxIssuePipe.stageINext_cases hj
      exact .inl (.inl (.inr (by simp [ht, hp])))

theorem fsmOut_truthful {q : RxIssuePipe} {x : IssueIn} {p : FsmPkt}
    (hq : ∀ p ∈ issuePkts q, Truthful p.payloadVal p.payloadEntry) (h : q.fsmOut x = some p) :
    Truthful p.payloadVal p.payloadEntry := by
  obtain ⟨j, hj, rfl⟩ := Option.map_eq_some_iff.mp h
  have hiss := (Option.filter_eq_some_iff.mp hj).1
  have hi : q.i = some j := by
    simp only [RxIssuePipe.issued, Option.ite_none_left_eq_some] at hiss
    exact hiss.2
  exact hq j.pkt (by simp [issuePkts, hi])

theorem fsmQ_balance (a : SlabAddr) (f : RxFront) (x : RxFrontIn) :
    held slab? a ((f.step x).fsmQ.map FsmPkt.payloadEntry) +
        held slab? a ((fsmTaken f.sys.fsm (f.sys.fsmIn (f.sysIn x))).map
          FsmPkt.payloadEntry).toList =
      held slab? a (f.fsmQ.map FsmPkt.payloadEntry) +
        held slab? a ((f.issue.fsmOut (f.issueIn x)).map FsmPkt.payloadEntry).toList := by
  simp only [Option.toList_map, held_map]
  exact held_queue _ a f.sys.fsm.hdrRdy f.fsmQ (f.issue.fsmOut (f.issueIn x))

theorem storeBufQ_balance (a : SlabAddr) (s : RxPipe) (i : RxPipeIn) :
    held slab? a ((s.step i).storeBufQ.map RxStoreBufQ.payloadEntry) +
        held slab? a ((s.cp.popped s.storeBufQ.head?).map RxStoreBufQ.payloadEntry).toList =
      held slab? a (s.storeBufQ.map RxStoreBufQ.payloadEntry) +
        held slab? a ((s.stored i).map RxStoreBufQ.payloadEntry).toList := by
  have hpop : s.cp.popped s.storeBufQ.head? =
      if (s.cp.popped s.storeBufQ.head?).isSome then s.storeBufQ.head? else none := by
    by_cases hc : s.cp.ctrl = .ready
    · cases s.storeBufQ <;> simp [StoreBufCp.popped, hc]
    · simp [StoreBufCp.popped, hc]
  have h := held_queue (fun e : RxStoreBufQ => slab? e.payloadEntry) a
    (s.cp.popped s.storeBufQ.head?).isSome s.storeBufQ (s.stored i)
  rw [← hpop] at h
  simp only [Option.toList_map, held_map]
  exact h

/-- The packet the issue pipe takes in this cycle. -/
def recvTaken (s : RxPipe) (i : RxPipeIn) : Option RecvPkt :=
  if s.front.issue.stallF (s.front.issueIn (s.frontIn i)) then none else s.tmp.out

/-- The slab that leaves the free pool in this cycle. -/
def slabTaken (s : RxPipe) (i : RxPipeIn) : List SlabAddr :=
  if s.tmp.consume i.hdr s.tracker.respError then [s.tracker.respAddr] else []

/-- The balances of all stages, added up. -/
theorem once_step (h : SlabInv s) (hd : NoLeak s i) (a : SlabAddr) :
    (s.step i).freeSlabs.count a + (s.step i).refs.count a =
      s.freeSlabs.count a + s.refs.count a := by
  have hconsume : s.tmp.consume i.hdr s.tracker.respError = true →
      s.tracker.respError = false := by
    intro hc
    cases hh : i.hdr <;> simp_all [TmpRxBuf.consume]
  have hpool : (s.step i).freeSlabs.count a + List.count a (slabTaken s i) =
      s.freeSlabs.count a + List.count a (cpFreed s.cp (s.cpIn i)).toList :=
    pool_balance a h.tracker _ _ hconsume
  have htmp : held slab? a (tmpPayloads (s.step i).tmp) +
      held slab? a ((recvTaken s i).map RecvPkt.payloadEntry).toList =
        held slab? a (tmpPayloads s.tmp) + List.count a (slabTaken s i) :=
    tmp_balance a s.tmp _ _ _ _ _
  have hissue : held slab? a (issuePayloads (s.step i).front.issue) + _ =
      held slab? a (issuePayloads s.front.issue) +
        held slab? a ((recvTaken s i).map RecvPkt.payloadEntry).toList := issue_balance a hd.1
  have hissued := issued_balance a s.front.issue (s.front.issueIn (s.frontIn i))
  have hfsmQ : held slab? a ((s.step i).front.fsmQ.map FsmPkt.payloadEntry) + _ = _ :=
    fsmQ_balance a s.front (s.frontIn i)
  have hfsm : held slab? a (fsmPayloads (s.step i).front.sys.fsm) +
      held slab? a ((s.reinjected i).map ReinjectPkt.payloadEntry).toList = _ :=
    fsm_balance a h.fsm (s.front.sys.fsmIn (s.front.sysIn (s.frontIn i)))
  have hreinject : (s.step i).reinjectQ.map ReinjectPkt.payloadEntry =
      (s.reinjectRest i).map ReinjectPkt.payloadEntry ++
        ((s.reinjected i).map ReinjectPkt.payloadEntry).toList := by
    rw [Option.toList_map, ← List.map_append]
    rfl
  have hmerger := merger_balance a s i
  have hest : held slab? a (estPayloads (s.step i).est) + _ = held slab? a (estPayloads s.est) +
      held slab? a ((estTaken s i).map EstPkt.payloadEntry).toList :=
    est_balance a s.est (s.estIn i)
  have hstored := stored_balance a s i
  have hstore := storeBufQ_balance a s i
  have hcp : held slab? a (cpPayloads (s.step i).cp) + _ = _ :=
    cp_balance a h.cp s.storeBufQ.head? (s.cpIn i)
  have hrefs : ∀ t : RxPipe, t.refs.count a = held slab? a t.payloads := fun _ => rfl
  rw [hrefs, hrefs]
  simp only [payloads, held_append, hreinject]
  omega

theorem slabInv_step (h : SlabInv s) (hd : NoLeak s i) : SlabInv (s.step i) := by
  constructor
  · intro a
    rw [once_step h hd a]
    exact h.once a
  · exact trackerInv_step h.tracker _ _
  · intro p hp
    rcases issuePkts_step hp with hp | hp
    · exact h.issue p hp
    · exact tmp_out_truthful hp
  · intro p hp
    rcases List.mem_append.mp hp with hp | hp
    · refine h.fsmQ p ?_
      unfold RxFront.fsmQRest at hp
      split_ifs at hp
      · exact List.mem_of_mem_tail hp
      · exact hp
    · exact fsmOut_truthful h.issue (Option.mem_toList.mp hp)
  · refine fsmInv_step h.fsm hd.2 ?_
    intro p hp
    exact h.fsmQ p (List.mem_of_mem_head? hp)
  · exact cpInv_step h.cp _ _

theorem slabs_nodup : slabs.Nodup := by decide +kernel

theorem slabInv_init (h : s.Init) : SlabInv s := by
  obtain ⟨htmp, htr, ⟨hissue, -, hfq, hfsm, -⟩, hq, ⟨hr, hc, hw, -⟩, hst, hcp⟩ := h
  have hfree : s.freeSlabs = slabs := by
    simp only [freeSlabs, htr]
    decide +kernel
  have hrefs : s.refs = [] := by
    simp [refs, payloads, tmpPayloads, issuePayloads, fsmPayloads, estPayloads, cpPayloads, htmp,
      hissue, hfq, hfsm, hq, hr, hc, hw, hst, hcp, TmpRxBuf.reset, RxIssuePipe.reset,
      RxFsmPipe.reset, StoreBufCp.reset]
  constructor
  · intro a
    rw [hfree, hrefs, List.count_nil, Nat.add_zero, slabs_nodup.count]
  · intro _
    rw [htr]
    decide +kernel
  · intro p hp
    simp [hissue, issuePkts, RxIssuePipe.reset] at hp
  · intro p hp
    rw [hfq] at hp
    cases hp
  · rw [hfsm]
    exact ⟨fun hn => absurd rfl hn, fun hd => by cases hd⟩
  · rw [hcp]
    exact ⟨fun hn => absurd rfl hn, fun _ => rfl⟩

/-- When nothing is in flight all slabs are in the free pool. -/
theorem SlabInv.drained (h : SlabInv s) (hr : s.refs = []) :
    s.freeSlabs.length = slabs.length := by
  have hperm : s.freeSlabs.Perm slabs := by
    rw [List.perm_iff_count]
    intro a
    have ha := h.once a
    rw [hr, List.count_nil, Nat.add_zero] at ha
    rw [ha, slabs_nodup.count]
  exact hperm.length_eq

/-- In every run in which no packet with a payload is dropped in stage T or decided on by the
FSM, every slab is free or referred to once. -/
theorem conserved_of_noLeak (h : Reach Init cycle NoLeak s) : Conserved s := by
  have hi : SlabInv s := by
    refine h.invariant (fun _ => slabInv_init) ?_
    intro t i t' ht hd hs
    cases hs
    exact slabInv_step ht hd
  exact ⟨hi.once, hi.drained⟩

/-- A flow is opened and sends 60 bytes, which are copied out of the first slab. -/
theorem conserved_of_noLeak_copied : ∃ s, Reach Init cycle NoLeak s ∧
    (s.tracker.freed = [0] ∧ (s.est.mem 0).tailPtr = 60) ∧ Conserved s := by
  have hrun : ∃ s, Reach Init cycle NoLeak s ∧
      decide (s.tracker.freed = [0] ∧ (s.est.mem 0).tailPtr = 60) = true :=
    Reach.exists_of_run
      (deliver (arrive tcpSyn 100 0 0) 3 ++ smooth none (some (0, opened)) ::
        deliver (arrive tcpAck 101 4096 0) 8 ++ deliver (arrive tcpAck 101 4096 60) 14)
      reset_init (by decide +kernel)
  obtain ⟨s, hr, hp⟩ := hrun
  exact ⟨s, hr, decide_eq_true_iff.mp hp, conserved_of_noLeak hr⟩

/-- 100 bytes for a four-tuple without a connection: the FSM ignores the packet, and its slab
is neither free nor referred to. -/
theorem conserved_unknown_flow : ¬ ∀ s : RxPipe, Reach Init cycle Free s → Conserved s := by
  intro h
  have hrun : ∃ s, Reach Init cycle Free s ∧
      decide (s.refs = [] ∧ s.freeSlabs.length = 9) = true :=
    Reach.exists_of_run (deliver (arrive tcpAck 500 600 100) 10) reset_init (by decide +kernel)
  obtain ⟨s, hr, hp⟩ := hrun
  rw [decide_eq_true_iff] at hp
  have hlen := (h s hr).drained hp.1
  rw [hp.2] at hlen
  exact absurd hlen (by decide)

end TcpHw.RxPipe
