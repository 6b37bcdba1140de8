import TcpHw.Recv.RxFront
import TcpHw.Recv.EstPipe
import TcpHw.Recv.TmpRxBuf

/-!
# The receive pipe around the slabs

All stages and queues a received packet passes, joined as in `rx_pipe_wrap`: the temporary
buffer, the issue pipe with the handshake FSM, the reinject queue and its merger,
`est_pipe`, the queue behind it and the copy into the rings. The state memories, the
arbiter's other client and the neighbours outside the pipe are driven freely.
-/
namespace TcpHw

open Trace

set_option autoImplicit false

/-- `reinject_struct_cast`, as `est_pipe` sees it. -/
def ReinjectPkt.estPkt (p : ReinjectPkt) : EstPkt where
  flowid := p.flowid
  tcpHdr := p.tcpHdr
  payloadVal := p.payloadVal
  payloadEntry := p.payloadEntry

structure RxPipe where
  tmp : TmpRxBuf
  tracker : SlabAllocTracker
  front : RxFront
  reinjectQ : List ReinjectPkt
  est : EstPipe
  storeBufQ : List RxStoreBufQ
  cp : StoreBufCp

structure RxPipeIn where
  hdr : Option RxHdr
  dataVal : Bool
  stateRdRdy : Bool
  stateRespVal : Bool
  sendRdy : Bool
  notifRdy : Bool
  rxWr : Option (FlowId × RecvState)
  txWr : Option (FlowId × TxState)
  fsmReq : Option FlowId
  fsmRespRdy : Bool
  newFlow : Option (FlowId × EstState)
  headPtr : FlowId → Ptr
  txSeqNum : FlowId → BitVec 32
  startRdy : Bool
  beat : Bool
  done : Bool
  commitWrRdy : Bool

namespace RxPipe

variable (s : RxPipe) (i : RxPipeIn)

/-- The inputs of `est_pipe` besides the packet, which does not affect its readiness. -/
def estEnv : EstIn where
  hdr := none
  fsmReq := i.fsmReq
  fsmRespRdy := i.fsmRespRdy
  newFlow := i.newFlow
  storeBufFull := decide (s.storeBufQ.length = 32)
  headPtr := i.headPtr
  txSeqNum := i.txSeqNum

/-- `merger_issue_est_pipe_rdy`: the reinject queue goes first. -/
def issueEstRdy : Bool := s.reinjectQ.isEmpty && s.est.estPipeRdy (s.estEnv i)

def frontIn : RxFrontIn where
  recv := s.tmp.out
  estPipeRdy := s.issueEstRdy i
  stateRdRdy := i.stateRdRdy
  stateRespVal := i.stateRespVal
  reinjectFull := decide (s.reinjectQ.length = 4)
  sendRdy := i.sendRdy
  notifRdy := i.notifRdy
  rxWr := i.rxWr
  txWr := i.txWr

/-- `est_hdr_val` and the packet, out of `est_pipe_input_merger`. -/
def estHdr : Option EstPkt :=
  match s.reinjectQ with
  | p :: _ => some p.estPkt
  | [] => (s.front.issue.estOut (s.front.issueIn (s.frontIn i))).map ReinjectPkt.estPkt

def estIn : EstIn := { s.estEnv i with hdr := s.estHdr i }

/-- `merger_fsm_reinject_q_deq_req_val` -/
def reinjectRest : List ReinjectPkt :=
  if s.est.estPipeRdy (s.estEnv i) then s.reinjectQ.tail else s.reinjectQ

/-- `fsm_reinject_q_enq_req_val` -/
def reinjected : Option ReinjectPkt :=
  s.front.sys.fsm.reinject (s.front.sys.fsmIn (s.front.sysIn (s.frontIn i)))

/-- `rx_store_buf_q_wr_req_val` -/
def stored : Option RxStoreBufQ :=
  if (s.estEnv i).stallW then none
  else (s.est.w.filter fun w => w.pkt.payloadEntry.payloadLen != 0).map fun w =>
    { flowid := w.pkt.flowid
      acceptPayload := w.next.acceptPayload
      payloadEntry := w.pkt.payloadEntry }

def cpIn : StoreBufCpIn where
  startRdy := i.startRdy
  beat := i.beat
  done := i.done
  commitWrRdy := i.commitWrRdy
  freeRdy := s.tracker.freeRdy

/-- One clock edge. -/
def step : RxPipe where
  tmp := s.tmp.step i.hdr s.tracker.respError s.tracker.respAddr i.dataVal
    (s.front.issue.recvHdrRdy (s.front.issueIn (s.frontIn i)))
  tracker := s.tracker.step (s.tmp.consume i.hdr s.tracker.respError) (s.cp.free (s.cpIn i))
  front := s.front.step (s.frontIn i)
  reinjectQ := s.reinjectRest i ++ (s.reinjected i).toList
  est := s.est.step (s.estIn i)
  storeBufQ :=
    (if (s.cp.popped s.storeBufQ.head?).isSome then s.storeBufQ.tail else s.storeBufQ) ++
      (s.stored i).toList
  cp := s.cp.step s.storeBufQ.head? (s.cpIn i)

def cycle (s : RxPipe) (i : RxPipeIn) : Option RxPipe := some (s.step i)

def Init (s : RxPipe) : Prop :=
  s.tmp = TmpRxBuf.reset ∧ s.tracker = SlabAllocTracker.reset ∧ s.front.Init ∧
    s.reinjectQ = [] ∧ s.est.Init ∧ s.storeBufQ = [] ∧ s.cp = StoreBufCp.reset

/-! ### The merger -/

theorem estPipeRdy_eq (e : EstPipe) (x : EstIn) : e.estPipeRdy x = !e.stallR x := by
  cases h : e.stallR x <;> simp [EstPipe.estPipeRdy, Ram.reqRdy, h]

/-- A packet goes from stage I to `est_pipe` only when it is taken there. -/
theorem estOut_rdy {q : RxIssuePipe} {x : IssueIn} {p : ReinjectPkt} (h : q.estOut x = some p) :
    x.estPipeRdy = true := by
  obtain ⟨j, hj, -⟩ := Option.map_eq_some_iff.mp h
  obtain ⟨hiss, hroute⟩ := Option.filter_eq_some_iff.mp hj
  cases hI : q.stallI x with
  | true => simp [RxIssuePipe.issued, hI] at hiss
  | false =>
    have hi : q.i = some j := by simpa [RxIssuePipe.issued, hI] using hiss
    rw [RxIssuePipe.stallI, hi] at hI
    simp only [hroute, if_true, Bool.or_eq_false_iff, Bool.not_eq_false'] at hI
    exact hI.1

/-- The packet `est_pipe` takes in this cycle. -/
def estTaken (s : RxPipe) (i : RxPipeIn) : Option EstPkt :=
  if s.est.stallR (s.estEnv i) then none else s.estHdr i

/-! ### The slabs -/

/-- The addresses of the ten slabs. -/
def slabs : List SlabAddr := (List.range 10).map fun k => BitVec.ofNat 15 (2048 * k)

/-- The free pool: the slabs the counter has not reached and the returned ones. -/
def freeSlabs : List SlabAddr :=
  (if s.tracker.useFifo then [] else slabs.filter fun a => s.tracker.initSlabAddr ≤ a) ++
    s.tracker.freed

/-- A packet with a payload refers to the slab of its payload. -/
def slab? (e : PayloadBuf) : Option SlabAddr :=
  if e.payloadLen = 0 then none else some (e.payloadAddr.setWidth 15)

/-- The payload descriptors of `tcp_tmp_rx_buf`. -/
def tmpPayloads (b : TmpRxBuf) : List PayloadBuf :=
  if b.ctrl = .ready then [] else [b.payloadEntry]

/-- The payload descriptors of the issue pipe. -/
def issuePayloads (q : RxIssuePipe) : List PayloadBuf :=
  (q.f.map RecvPkt.payloadEntry).toList ++ (q.t.map fun t => t.pkt.payloadEntry).toList ++
    (q.i.map fun x => x.pkt.payloadEntry).toList

/-- The payload descriptor of the packet the FSM works on. -/
def fsmPayloads (m : RxFsmPipe) : List PayloadBuf :=
  if m.ctrl = .ready then [] else [m.pkt.payloadEntry]

/-- The payload descriptors of `est_pipe`. -/
def estPayloads (e : EstPipe) : List PayloadBuf :=
  (e.r.map EstPkt.payloadEntry).toList ++ (e.c.map fun c => c.pkt.payloadEntry).toList ++
    (e.w.map fun w => w.pkt.payloadEntry).toList

/-- The payload descriptor of the entry being copied or freed. -/
def cpPayloads (c : StoreBufCp) : List PayloadBuf :=
  if c.ctrl = .ready then [] else [c.qEntry.payloadEntry]

/-- The payload descriptors of all packets, stages and queue entries. -/
def payloads : List PayloadBuf :=
  tmpPayloads s.tmp ++ issuePayloads s.front.issue ++ s.front.fsmQ.map FsmPkt.payloadEntry ++
    fsmPayloads s.front.sys.fsm ++ s.reinjectQ.map ReinjectPkt.payloadEntry ++
    estPayloads s.est ++ s.storeBufQ.map RxStoreBufQ.payloadEntry ++ cpPayloads s.cp

/-- The slabs that are referred to, once for each reference. -/
def refs : List SlabAddr := s.payloads.filterMap slab?

/-- Every slab is either free or referred to once, and nothing else is; when nothing is in
flight all of them are free. -/
structure Conserved (s : RxPipe) : Prop where
  once : ∀ a, s.freeSlabs.count a + s.refs.count a = if a ∈ slabs then 1 else 0
  drained : s.refs = [] → s.freeSlabs.length = slabs.length

/-- Stage T does not drop a packet with a payload, and the FSM decides no packet with one. -/
def NoLeak (s : RxPipe) (i : RxPipeIn) : Prop :=
  (∀ t ∈ s.front.issue.t, s.front.issue.dropHdr (s.front.issueIn (s.frontIn i)) = true →
    s.front.issue.stallT (s.front.issueIn (s.frontIn i)) = false →
      t.pkt.payloadEntry.payloadLen = 0) ∧
    (s.front.sys.fsm.ctrl = .stateDec → s.front.sys.fsm.pkt.payloadEntry.payloadLen = 0)

instance (s : RxPipe) (i : RxPipeIn) : Decidable (NoLeak s i) :=
  inferInstanceAs (Decidable (_ ∧ _))

/-! ### Fixed runs -/

def reset : RxPipe where
  tmp := TmpRxBuf.reset
  tracker := SlabAllocTracker.reset
  front := RxFront.reset
  reinjectQ := []
  est := EstPipe.reset
  storeBufQ := []
  cp := StoreBufCp.reset

theorem reset_init : reset.Init :=
  ⟨rfl, rfl, RxFront.reset_init, rfl, EstPipe.reset_init, rfl, rfl⟩

/-- A cycle in which every neighbour is ready. -/
def smooth (hdr : Option RxHdr) (newFlow : Option (FlowId × EstState)) : RxPipeIn where
  hdr := hdr
  dataVal := true
  stateRdRdy := true
  stateRespVal := true
  sendRdy := true
  notifRdy := true
  rxWr := none
  txWr := none
  fsmReq := none
  fsmRespRdy := true
  newFlow := newFlow
  headPtr _ := 0
  txSeqNum _ := 4096
  startRdy := true
  beat := true
  done := true
  commitWrRdy := true

/-- A packet of one fixed four-tuple with a payload. -/
def arrive (flags : BitVec 9) (seqNum ackNum : BitVec 32) (payloadLen : BitVec 16) : RxHdr where
  srcIp := 7
  dstIp := 8
  tcpHdr :=
    { (default : TcpPktHdr) with flags := flags, seqNum := seqNum, ackNum := ackNum }
  payloadLen := payloadLen

/-- A packet received and `n` cycles more. -/
def deliver (h : RxHdr) (n : Nat) : List RxPipeIn :=
  smooth (some h) none :: List.replicate n (smooth none none)

/-- What `INIT_STATE` writes for a SYN at 100 into the memories of `est_pipe`. -/
def opened : EstState :=
  { (default : EstState) with
    recv := { rxCurrAckNum := 101, rxCurrWndSize := 0x1000 }
    ack := { txCurrAckCnt := 0, txCurrAckNum := 4096 } }

end RxPipe

end TcpHw
