import TcpHw.Ram
import TcpHw.Lib.Trace
import TcpHw.Recv.EstCompute

/-!
# `est_pipe` and `fsm_est_arbiter`, cycle by cycle

A packet of an established flow passes the stages (R)ead, (C)ompute and (W)riteback.
Head and tail pointer are asked for when the packet enters stage R and taken over when it
leaves, the receive and transmit state are asked for in stage R through an arbiter shared
with the handshake FSM and used in stage C, and stage W writes everything back. The
application's head pointer and the send pipe's sequence number may change in every cycle.
-/
namespace TcpHw

open Trace

set_option autoImplicit false

/-! ### One packet at a time -/

/-- What `est_pipe` reads and writes of one flow, over its four memories. -/
structure EstState where
  recv : RecvState
  ack : TxAckState
  txHeadPtr : Ptr
  tailPtr : Ptr
  deriving DecidableEq, Inhabited

/-- The writes of stage W; the tail pointer is written for an accepted payload only. -/
def EstState.write (m : EstState) (n : EstNext) : EstState where
  recv := n.nextRecvState
  ack := n.nextAckState
  txHeadPtr := n.nextTxHeadPtr
  tailPtr := if n.acceptPayload then n.nextTailPtr else m.tailPtr

/-- What happens to the state of the flows: a packet together with the head pointer and the
sequence number read for it, or a new flow. -/
inductive EstEvent where
  | packet (p : EstPkt) (headPtr : Ptr) (txSeqNum : BitVec 32)
  | newFlow (f : FlowId) (st : EstState)

/-- The packets among the events. -/
def EstEvent.pkt? : EstEvent → Option EstPkt
  | .packet p _ _ => some p
  | .newFlow _ _ => none

/-- The reference: every packet reads the state its predecessors have left. -/
def serial (m : FlowId → EstState) : List EstEvent → (FlowId → EstState) × List EstNext
  | [] => (m, [])
  | .packet p headPtr txSeqNum :: es =>
    let n := estCompute (m p.flowid).recv txSeqNum (m p.flowid).ack headPtr
      (m p.flowid).tailPtr p
    let r := serial (Function.update m p.flowid ((m p.flowid).write n)) es
    (r.1, n :: r.2)
  | .newFlow f st :: es => serial (Function.update m f st) es

/-! ### The pipe -/

structure EstC where
  pkt : EstPkt
  headPtr : Ptr
  tailPtr : Ptr

structure EstW where
  pkt : EstPkt
  next : EstNext

/-- `state_reg`, `arb_decision_reg` and the thermometer code of the round-robin arbiter. -/
structure FsmEstArbiter where
  waiting : Bool
  fsmGrant : Bool
  thermocode : Bool

/-- What has happened, which no hardware reads: the memories after reset, the packets taken,
the events in the order they took effect, and the decisions of stage C. -/
structure EstLog where
  start : FlowId → EstState
  taken : List EstPkt
  events : List EstEvent
  decisions : List EstNext

/-- The stages, the memories, and the flows the read ports answer for. -/
structure EstPipe where
  r : Option EstPkt
  c : Option EstC
  w : Option EstW
  mem : FlowId → EstState
  headRd : Option FlowId
  tailRd : Option FlowId
  recvRd : Option FlowId
  txRd : Option FlowId
  arb : FsmEstArbiter
  log : EstLog

structure EstIn where
  hdr : Option EstPkt
  fsmReq : Option FlowId
  fsmRespRdy : Bool
  newFlow : Option (FlowId × EstState)
  storeBufFull : Bool
  headPtr : FlowId → Ptr
  txSeqNum : FlowId → BitVec 32

/-- `stall_w`: a new flow takes the write ports of all memories. -/
def EstIn.stallW (i : EstIn) : Bool := i.newFlow.isSome || i.storeBufFull

namespace EstPipe

variable (s : EstPipe) (i : EstIn)

/-- `arbiter_est_rx_state_rd_resp_val`, `arbiter_est_tx_state_rd_resp_val` -/
def estRespVal : Bool :=
  s.arb.waiting && s.recvRd.isSome && s.txRd.isSome && !s.arb.fsmGrant

def stallC : Bool := s.c.isSome && (i.stallW || !s.estRespVal)

/-- `curr_recv_state_rd_resp_rdy`, `curr_tx_state_rd_resp_rdy` -/
def respRdy : Bool := if s.arb.fsmGrant then i.fsmRespRdy else !s.stallC i

/-- The winner of the round-robin arbiter: `some true` for the FSM. -/
def arbOutput : Option Bool :=
  if s.arb.thermocode && i.fsmReq.isSome then some true
  else if s.r.isSome then some false
  else if i.fsmReq.isSome then some true
  else none

/-- The request that is granted in this cycle. -/
def grant : Option Bool :=
  if !s.arb.waiting && Ram.reqRdy s.recvRd (s.respRdy i) && Ram.reqRdy s.txRd (s.respRdy i) then
    s.arbOutput i
  else none

def estGrant : Bool := s.grant i == some false

def stallR : Bool :=
  s.r.isSome && (s.stallC i || !s.estGrant i || s.headRd.isNone || s.tailRd.isNone)

def estPipeRdy : Bool :=
  !s.stallR i && Ram.reqRdy s.headRd (!s.stallR i) && Ram.reqRdy s.tailRd (!s.stallR i)

/-- The address the arbiter sends to both state memories. -/
def stateReq : Option FlowId :=
  match s.grant i with
  | some true => i.fsmReq
  | some false => s.r.map EstPkt.flowid
  | none => none

def arbNext : FsmEstArbiter :=
  if s.arb.waiting then
    { s.arb with waiting := !(s.recvRd.isSome && s.txRd.isSome && s.respRdy i) }
  else
    match s.grant i with
    | some g =>
      { waiting := true
        fsmGrant := g
        thermocode := if s.arb.thermocode && i.fsmReq.isSome then false else s.r.isSome }
    | none => s.arb

/-- `byp_state_c` -/
def byp (c : EstC) : Option EstNext :=
  (s.w.filter fun w => w.pkt.flowid = c.pkt.flowid).map EstW.next

/-- Stage C, with the bypass from stage W. -/
def compute (c : EstC) : EstNext :=
  match s.byp c with
  | some n =>
    estCompute n.nextRecvState (i.txSeqNum c.pkt.flowid) n.nextAckState c.headPtr n.nextTailPtr
      c.pkt
  | none =>
    estCompute (s.mem c.pkt.flowid).recv (i.txSeqNum c.pkt.flowid) (s.mem c.pkt.flowid).ack
      c.headPtr c.tailPtr c.pkt

/-- The packet that leaves stage R. -/
def rOut : Option EstPkt := if s.stallR i then none else s.r

/-- The packet that leaves stage C. -/
def cOut : Option EstC := if s.stallC i then none else s.c

/-- The memories after the writes of a new flow, or else of stage W. They land also when
stage W is held back by a full queue. -/
def memNext : FlowId → EstState :=
  match i.newFlow, s.w with
  | some (f, st), _ => Function.update s.mem f st
  | none, some w => Function.update s.mem w.pkt.flowid ((s.mem w.pkt.flowid).write w.next)
  | none, none => s.mem

def logNext : EstLog where
  start := s.log.start
  taken := s.log.taken ++ (if s.stallR i then none else i.hdr).toList
  events := s.log.events ++
    ((s.cOut i).map fun c => .packet c.pkt c.headPtr (i.txSeqNum c.pkt.flowid)).toList ++
    (i.newFlow.map fun x => .newFlow x.1 x.2).toList
  decisions := s.log.decisions ++ ((s.cOut i).map (s.compute i)).toList

/-- One clock edge. -/
def step : EstPipe where
  r := if s.stallR i then s.r else i.hdr
  c :=
    if s.stallC i then s.c
    else (s.rOut i).map fun p =>
      { pkt := p, headPtr := i.headPtr p.flowid, tailPtr := (s.mem p.flowid).tailPtr }
  w :=
    if i.stallW then s.w
    else (s.cOut i).map fun c => { pkt := c.pkt, next := s.compute i c }
  mem := s.memNext i
  headRd := Ram.next s.headRd (i.hdr.map EstPkt.flowid) (!s.stallR i)
  tailRd := Ram.next s.tailRd (i.hdr.map EstPkt.flowid) (!s.stallR i)
  recvRd := Ram.next s.recvRd (s.stateReq i) (s.respRdy i)
  txRd := Ram.next s.txRd (s.stateReq i) (s.respRdy i)
  arb := s.arbNext i
  log := s.logNext i

/-- A new flow has no packets in the pipe. -/
def NewFlowOk (s : EstPipe) (i : EstIn) : Prop :=
  ∀ x ∈ i.newFlow, (∀ p ∈ s.r, p.flowid ≠ x.1) ∧ (∀ c ∈ s.c, c.pkt.flowid ≠ x.1) ∧
    ∀ w ∈ s.w, w.pkt.flowid ≠ x.1

instance (s : EstPipe) (i : EstIn) : Decidable (NewFlowOk s i) :=
  inferInstanceAs (Decidable (∀ _, _ → _))

def cycle (s : EstPipe) (i : EstIn) : Option EstPipe :=
  if NewFlowOk s i then some (s.step i) else none

/-- After reset; the memories hold anything. -/
def Init (s : EstPipe) : Prop :=
  s.r = none ∧ s.c = none ∧ s.w = none ∧ s.headRd = none ∧ s.tailRd = none ∧
    s.recvRd = none ∧ s.txRd = none ∧ s.arb.waiting = false ∧ s.log.start = s.mem ∧
    s.log.taken = [] ∧ s.log.events = [] ∧ s.log.decisions = []

def reset : EstPipe where
  r := none
  c := none
  w := none
  mem _ := default
  headRd := none
  tailRd := none
  recvRd := none
  txRd := none
  arb := { waiting := false, fsmGrant := false, thermocode := false }
  log := { start := fun _ => default, taken := [], events := [], decisions := [] }

theorem reset_init : reset.Init := by
  refine ⟨rfl, rfl, rfl, rfl, rfl, rfl, rfl, rfl, rfl, rfl, rfl, rfl⟩

end EstPipe

end TcpHw
