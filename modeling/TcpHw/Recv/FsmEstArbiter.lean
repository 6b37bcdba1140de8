import TcpHw.Ram
import TcpHw.Lib.Trace
import TcpHw.Recv.EstCompute
import TcpHw.Recv.RxFsmPipe

/-!
# `fsm_est_arbiter`

`rx_fsm_pipe` and `est_pipe` read the receive and the transmit state of a flow through one port of
each memory. The arbiter sends a granted request to both memories and waits for both responses; the
decision is kept for the responses, while the requests go on being granted or not. The readiness of
the requester goes to the memories whether both responses are there or not, so that all depends on
requesters that take the two responses together.
-/
namespace TcpHw

open Trace

set_option autoImplicit false

/-- One wire for each of the two state memories. -/
structure StatePair where
  recv : Bool
  tx : Bool
  deriving DecidableEq, Inhabited

def StatePair.both (w : StatePair) : Bool := w.recv && w.tx

/-- The same level on both wires. -/
def StatePair.of (b : Bool) : StatePair := ⟨b, b⟩

/-- The two requests of a requester. -/
structure StateReq where
  val : StatePair
  recvFlowid : FlowId
  txFlowid : FlowId

inductive Requester where
  | fsm | est
  deriving DecidableEq

/-- `FSM_GRANT`, `EST_GRANT` -/
def Requester.code : Requester → BitVec 2
  | .fsm => 0b01
  | .est => 0b10

/-! ### The arbiter -/

/-- `state_e` -/
inductive ArbState where
  | ready | wait
  deriving DecidableEq, Inhabited

/-- `state_reg` and `arb_decision_reg` -/
structure StateArbiter where
  state : ArbState
  decision : BitVec 2

structure ArbWires where
  req : Requester → StateReq
  rdy : Requester → StatePair
  grants : BitVec 2
  reqRdy : StatePair
  memVal : StatePair

namespace StateArbiter

variable (a : StateArbiter) (i : ArbWires)

/-- A granted request goes to both memories: `curr_recv_state_rd_req_val`,
`curr_tx_state_rd_req_val` and `arb_advance`. -/
def fires : Bool := a.state == .ready && (i.grants != 0 && i.reqRdy.both)

/-- The requester that is asked for its flow ID. -/
def asking : Requester := if i.grants = Requester.fsm.code then .fsm else .est

/-- `curr_recv_state_rd_req_flowid` -/
def recvReqFlowid : FlowId := (i.req (asking i)).recvFlowid

/-- `curr_tx_state_rd_req_flowid` -/
def txReqFlowid : FlowId := (i.req (asking i)).txFlowid

/-- `arbiter_*_rx_state_rd_req_grant`, `arbiter_*_tx_state_rd_req_grant` -/
def reqGrant (who : Requester) : StatePair := .of (a.fires i && i.grants == who.code)

/-- Both responses are there. -/
def answers (memVal : StatePair) : Bool := a.state == .wait && memVal.both

/-- `arbiter_*_rx_state_rd_resp_val`, `arbiter_*_tx_state_rd_resp_val` -/
def respVal (memVal : StatePair) (who : Requester) : StatePair :=
  .of (a.answers memVal && a.decision == who.code)

/-- `curr_recv_state_rd_resp_rdy`, `curr_tx_state_rd_resp_rdy` -/
def respRdy : StatePair := i.rdy (if a.decision = Requester.fsm.code then .fsm else .est)

/-- One clock edge. -/
def next : StateArbiter :=
  match a.state with
  | .ready => if a.fires i then ⟨.wait, i.grants⟩ else a
  | .wait => if a.answers i.memVal && (a.respRdy i).both then { a with state := .ready } else a

end StateArbiter

/-! ### The memories -/

/-- A state memory: the requests that were accepted and not answered yet, and whether the response
to the first of them is out. It stays out until it is taken. -/
structure StatePort where
  pending : List FlowId
  val : Bool
  deriving DecidableEq

/-- One clock edge with an accepted request; when it responds is up to the memory. -/
def StatePort.next (p : StatePort) (req : Option FlowId) (respRdy responds : Bool) : StatePort :=
  let taken := p.val && respRdy
  let rest := (if taken then p.pending.tail else p.pending) ++ req.toList
  ⟨rest, (p.val && !taken) || (responds && !rest.isEmpty)⟩

/-- The view of the memories of the source, which respond after one cycle. -/
def StatePort.ofRam (resp : Option FlowId) : StatePort := ⟨resp.toList, resp.isSome⟩

/-- The memories of the source are among those. -/
theorem StatePort.ofRam_next (resp req : Option FlowId) (respRdy : Bool) :
    ofRam (Ram.next resp req respRdy) =
      (ofRam resp).next (if Ram.reqRdy resp respRdy then req else none) respRdy true := by
  cases resp <;> cases req <;> cases respRdy <;> rfl

/-! ### The requesters -/

/-- `fsm_rx_state_rd_req_*`, `fsm_tx_state_rd_req_*` -/
def RxFsmPipe.stateReq (m : RxFsmPipe) (i : FsmIn) : StateReq where
  val := .of <|
    match m.ctrl with
    | .tcpStateRdResp => i.tcpResp.any fun st => st != .est
    | .rxTxStateRdReq => true
    | _ => false
  recvFlowid := m.pkt.flowid
  txFlowid := m.pkt.flowid

/-- `fsm_rx_state_rd_resp_rdy`, `fsm_tx_state_rd_resp_rdy` -/
def RxFsmPipe.stateRespRdy (m : RxFsmPipe) (respVal : StatePair) : StatePair :=
  if m.ctrl = .rxTxStateRdResp then .of respVal.both else .of true

/-- The stages R and C of `est_pipe`, and the flows for which the memories of the head and the tail
pointers answer. -/
structure EstReads where
  r : Option EstPkt
  c : Option EstPkt
  headRd : Option FlowId
  tailRd : Option FlowId

namespace EstReads

variable (s : EstReads)

/-- `est_pipe_rx_state_rd_req_*`, `est_pipe_tx_state_rd_req_*` -/
def stateReq : StateReq where
  val := .of s.r.isSome
  recvFlowid := s.r.elim 0 EstPkt.flowid
  txFlowid := s.r.elim 0 EstPkt.flowid

def stallC (respVal : StatePair) (stallW : Bool) : Bool :=
  s.c.isSome && (stallW || !respVal.tx || !respVal.recv)

def stallR (grant : StatePair) (stallC : Bool) : Bool :=
  s.r.isSome && (stallC || !grant.recv || !grant.tx || s.headRd.isNone || s.tailRd.isNone)

/-- One clock edge. -/
def next (hdr : Option EstPkt) (stallR stallC : Bool) : EstReads where
  r := if stallR then s.r else hdr
  c := if stallC then s.c else if stallR then none else s.r
  headRd := Ram.next s.headRd (hdr.map EstPkt.flowid) (!stallR)
  tailRd := Ram.next s.tailRd (hdr.map EstPkt.flowid) (!stallR)

end EstReads

/-! ### Everything together -/

/-- What happened at the ports of a requester: the flows for which the two requests were granted, and
the two responses that it took, each with what the memory held. -/
structure ReadLog where
  recvGranted : List FlowId
  txGranted : List FlowId
  recv : List ((FlowId → RecvState) × RecvState)
  tx : List ((FlowId → TxState) × TxState)

structure ArbSystem where
  arb : StateArbiter
  fsm : RxFsmPipe
  est : EstReads
  recv : StatePort
  tx : StatePort
  log : Requester → ReadLog

/-- What the surroundings do in one cycle. The two fields of `fsm` that come from the arbiter are not
looked at; `recvOf` and `txOf` are the states of the flows. -/
structure ArbEnv where
  fsm : FsmIn
  hdr : Option EstPkt
  stallW : Bool
  grants : BitVec 2
  reqRdy : StatePair
  recvResponds : Bool
  txResponds : Bool
  recvOf : FlowId → RecvState
  txOf : FlowId → TxState

namespace ArbSystem

variable (s : ArbSystem) (e : ArbEnv)

def memVal : StatePair := ⟨s.recv.val, s.tx.val⟩

/-- The responses are presented to the requester. -/
def respVal (who : Requester) : StatePair := s.arb.respVal s.memVal who

def stallC : Bool := s.est.stallC (s.respVal .est) e.stallW

def req : Requester → StateReq
  | .fsm => s.fsm.stateReq e.fsm
  | .est => s.est.stateReq

def rdy : Requester → StatePair
  | .fsm => s.fsm.stateRespRdy (s.respVal .fsm)
  | .est => .of !s.stallC e

def wires : ArbWires where
  req := s.req e
  rdy := s.rdy e
  grants := e.grants
  reqRdy := e.reqRdy
  memVal := s.memVal

def grant (who : Requester) : StatePair := s.arb.reqGrant (s.wires e) who

def stallR : Bool := s.est.stallR (s.grant e .est) (s.stallC e)

/-- `curr_recv_state_rd_resp_data` -/
def recvData : RecvState := e.recvOf (s.recv.pending.headD 0)

/-- `curr_tx_state_rd_resp_data` -/
def txData : TxState := e.txOf (s.tx.pending.headD 0)

def fsmIn : FsmIn :=
  { e.fsm with
    stateRdRdy := (s.grant e .fsm).both
    stateResp := if (s.respVal .fsm).both then some (s.recvData e, s.txData e) else none }

def logNext (who : Requester) : ReadLog where
  recvGranted := (s.log who).recvGranted ++
    if (s.grant e who).recv then [(s.req e who).recvFlowid] else []
  txGranted := (s.log who).txGranted ++
    if (s.grant e who).tx then [(s.req e who).txFlowid] else []
  recv := (s.log who).recv ++
    if (s.respVal who).recv && (s.rdy e who).recv then [(e.recvOf, s.recvData e)] else []
  tx := (s.log who).tx ++
    if (s.respVal who).tx && (s.rdy e who).tx then [(e.txOf, s.txData e)] else []

/-- One clock edge. -/
def cycle : ArbSystem where
  arb := s.arb.next (s.wires e)
  fsm := s.fsm.step (s.fsmIn e)
  est := s.est.next e.hdr (s.stallR e) (s.stallC e)
  recv := s.recv.next
    (if s.arb.fires (s.wires e) then some (StateArbiter.recvReqFlowid (s.wires e)) else none)
    (s.arb.respRdy (s.wires e)).recv e.recvResponds
  tx := s.tx.next
    (if s.arb.fires (s.wires e) then some (StateArbiter.txReqFlowid (s.wires e)) else none)
    (s.arb.respRdy (s.wires e)).tx e.txResponds
  log := s.logNext e

def step (s : ArbSystem) (e : ArbEnv) : Option ArbSystem := some (s.cycle e)

/-- The round-robin arbiter grants at most one requester, and one that has both requests up. -/
def GrantsOk (s : ArbSystem) (e : ArbEnv) : Prop :=
  e.grants = 0 ∨ ∃ who, e.grants = Requester.code who ∧ (s.req e who).val.both = true

/-- After reset. -/
def Init (s : ArbSystem) : Prop :=
  s.arb.state = .ready ∧ s.fsm.ctrl = .ready ∧ s.est = ⟨none, none, none, none⟩ ∧
    s.recv = ⟨[], false⟩ ∧ s.tx = ⟨[], false⟩ ∧ ∀ who, s.log who = ⟨[], [], [], []⟩

end ArbSystem

/-! ### The requesters take both responses together -/

namespace RxFsmPipe

variable {m : RxFsmPipe} {i : FsmIn}

/-- Only a grant leads to the state in which responses are awaited. -/
theorem ctrl_ne_resp (hm : m.ctrl ≠ .rxTxStateRdResp) (hg : i.stateRdRdy = false) :
    (m.step i).ctrl ≠ .rxTxStateRdResp := by
  cases hc : m.ctrl with
  | rxTxStateRdResp => exact absurd hc hm
  | rxTxStateRdReq => simp [step, hc, rdReqNext, hg]
  | ready => cases hh : i.hdr <;> simp [step, hc, hh]
  | tcpStateRdResp =>
    cases ht : i.tcpResp with
    | none => simp [step, hc, ht]
    | some st =>
      simp only [step, hc, ht, rdReqNext, hg, Bool.false_eq_true, if_false]
      split_ifs <;> decide
  | tcpStateRdReq | reinjectPkt | stateDec | initState | wrFlowState | sendPkt | notifApp =>
    simp only [step, hc]
    split_ifs <;> simp [hc]

/-- A grant leads to that state. -/
theorem ctrl_resp (hv : (m.stateReq i).val.both = true) (hg : i.stateRdRdy = true) :
    (m.step i).ctrl = .rxTxStateRdResp := by
  cases hc : m.ctrl with
  | rxTxStateRdReq => simp [step, hc, rdReqNext, hg]
  | tcpStateRdResp =>
    cases ht : i.tcpResp with
    | none => simp [stateReq, StatePair.both, StatePair.of, hc, ht] at hv
    | some st =>
      have hne : st ≠ .est := by simpa [stateReq, StatePair.both, StatePair.of, hc, ht] using hv
      simp [step, hc, ht, rdReqNext, hg, hne]
  | ready | rxTxStateRdResp | tcpStateRdReq | reinjectPkt | stateDec | initState | wrFlowState
  | sendPkt | notifApp =>
    simp [stateReq, StatePair.both, StatePair.of, hc] at hv

end RxFsmPipe

/-! ### What was granted and what was answered -/

/-- Every request that was granted was answered once by each memory with the state of its flow,
except for those in `left`, which are the last ones. -/
def ReadLog.Served (l : ReadLog) (left : List FlowId) : Prop :=
  ∃ done, l.recvGranted = done ++ left ∧ l.txGranted = done ++ left ∧
    List.Forall₂ (fun f x => x.2 = x.1 f) done l.recv ∧
    List.Forall₂ (fun f x => x.2 = x.1 f) done l.tx

namespace ArbSystem

/-- The granted request of the requester that was not answered yet. -/
def outstanding (s : ArbSystem) (who : Requester) : List FlowId :=
  if s.arb.state = .wait ∧ s.arb.decision = who.code then s.recv.pending else []

/-- The arbiter, the memories and the two requesters agree on who waits for what. -/
inductive Phase (s : ArbSystem) : Prop
  | ready (hs : s.arb.state = .ready) (hrecv : s.recv = ⟨[], false⟩) (htx : s.tx = ⟨[], false⟩)
      (hfsm : s.fsm.ctrl ≠ .rxTxStateRdResp) (hest : s.est.c = none)
  | wait (who : Requester) (f : FlowId) (hs : s.arb.state = .wait)
      (hd : s.arb.decision = who.code) (hrecv : s.recv.pending = [f]) (htx : s.tx.pending = [f])
      (hfsm : s.fsm.ctrl = .rxTxStateRdResp ↔ who = .fsm)
      (hest : s.est.c.isSome = true ↔ who = .est)

structure Inv (s : ArbSystem) : Prop where
  head : s.est.headRd = s.est.r.map EstPkt.flowid
  tail : s.est.tailRd = s.est.r.map EstPkt.flowid
  phase : s.Phase
  served : ∀ who, (s.log who).Served (s.outstanding who)

variable {s : ArbSystem} {e : ArbEnv} {who : Requester} {f : FlowId}

theorem code_inj {a b : Requester} : a.code = b.code ↔ a = b := by
  cases a <;> cases b <;> decide

/-- The pointers are there whenever a packet is in stage R. -/
theorem ptrs_next {rd : Option FlowId} {r hdr : Option EstPkt} {stall : Bool}
    (hrd : rd = r.map EstPkt.flowid) (hstall : stall = true → r.isSome = true) :
    Ram.next rd (hdr.map EstPkt.flowid) (!stall) =
      (if stall then r else hdr).map EstPkt.flowid := by
  subst hrd
  cases stall with
  | false => simp [Ram.next]
  | true => simp [Ram.next, hstall rfl]

theorem Inv.ptrs (hi : s.Inv) : (s.cycle e).est.headRd = (s.cycle e).est.r.map EstPkt.flowid ∧
    (s.cycle e).est.tailRd = (s.cycle e).est.r.map EstPkt.flowid := by
  have hstall : s.stallR e = true → s.est.r.isSome = true := by
    intro h
    exact (Bool.and_eq_true_iff.mp h).1
  exact ⟨ptrs_next hi.head hstall, ptrs_next hi.tail hstall⟩

/-! ### Cycles without a grant -/

theorem grant_eq_false (hf : s.arb.fires (s.wires e) = false) (who : Requester) :
    s.grant e who = .of false := by
  simp [grant, StateArbiter.reqGrant, hf]

theorem respVal_eq_false (ha : s.arb.answers s.memVal = false) (who : Requester) :
    s.respVal who = .of false := by
  simp [respVal, StateArbiter.respVal, ha]

/-- Without a grant nothing gets into stage C. -/
theorem est_c_next (hg : s.grant e .est = .of false) :
    (s.cycle e).est.c = if s.stallC e then s.est.c else none := by
  show (if s.stallC e then s.est.c else if s.stallR e then none else s.est.r) = _
  cases hr : s.est.r with
  | none => simp
  | some p =>
    have hstall : s.stallR e = true := by simp [stallR, EstReads.stallR, hr, hg, StatePair.of]
    rw [hstall]
    rfl

/-- The log stays where nothing is granted and nothing is presented. -/
theorem log_next_still (hg : s.grant e who = .of false) (hv : s.respVal who = .of false) :
    (s.cycle e).log who = s.log who := by
  show s.logNext e who = _
  simp [logNext, hg, hv, StatePair.of]

/-! ### One cycle -/

theorem outstanding_ready (hs : s.arb.state = .ready) : s.outstanding who = [] := by
  simp [outstanding, hs]

theorem outstanding_wait {w : Requester} (hs : s.arb.state = .wait)
    (hd : s.arb.decision = w.code) (hp : s.recv.pending = [f]) :
    s.outstanding who = if who = w then [f] else [] := by
  simp only [outstanding, hs, hd, hp, true_and, code_inj]
  exact if_congr eq_comm rfl rfl

/-- The arbiter waits for a request. -/
theorem keeps_idle (hi : s.Inv) (hs : s.arb.state = .ready) (hrecv : s.recv = ⟨[], false⟩)
    (htx : s.tx = ⟨[], false⟩) (hfsm : s.fsm.ctrl ≠ .rxTxStateRdResp) (hest : s.est.c = none)
    (hf : s.arb.fires (s.wires e) = false) : (s.cycle e).Inv := by
  have hg := grant_eq_false hf
  have hv := respVal_eq_false (s := s) (by simp [StateArbiter.answers, hs])
  have hs' : (s.cycle e).arb = s.arb := by simp [cycle, StateArbiter.next, hs, hf]
  refine ⟨hi.ptrs.1, hi.ptrs.2, .ready (by rw [hs', hs]) ?_ ?_ ?_ ?_, fun who => ?_⟩
  · simp [cycle, hf, hrecv, StatePort.next]
  · simp [cycle, hf, htx, StatePort.next]
  · exact RxFsmPipe.ctrl_ne_resp hfsm (by simp [fsmIn, hg, StatePair.both, StatePair.of])
  · rw [est_c_next (hg .est), hest, ite_self]
  · have hserved := hi.served who
    rw [outstanding_ready hs] at hserved
    rw [log_next_still (hg who) (hv who), outstanding_ready (by rw [hs', hs])]
    exact hserved

/-- One requester is granted, and no other. -/
theorem grant_eq (hf : s.arb.fires (s.wires e) = true) (hgr : e.grants = who.code)
    (w : Requester) : s.grant e w = .of (decide (w = who)) := by
  have hcode : (e.grants == w.code) = decide (w = who) := by
    rw [hgr]
    cases w <;> cases who <;> rfl
  simp only [grant, StateArbiter.reqGrant, hf, Bool.true_and]
  rw [← hcode]
  rfl

theorem txFlowid_eq : (s.req e who).txFlowid = (s.req e who).recvFlowid := by cases who <;> rfl

/-- Both memories are asked for the flow of the request. -/
theorem pending_granted (hrecv : s.recv = ⟨[], false⟩) (htx : s.tx = ⟨[], false⟩)
    (hf : s.arb.fires (s.wires e) = true) (hgr : e.grants = who.code) :
    (s.cycle e).recv.pending = [(s.req e who).recvFlowid] ∧
      (s.cycle e).tx.pending = [(s.req e who).recvFlowid] := by
  have hask : StateArbiter.asking (s.wires e) = who := by
    simp only [StateArbiter.asking, wires, hgr]
    cases who <;> rfl
  constructor
  · simp [cycle, hf, hrecv, StatePort.next, StateArbiter.recvReqFlowid, hask]
    rfl
  · simp [cycle, hf, htx, StatePort.next, StateArbiter.txReqFlowid, hask, ← txFlowid_eq]
    rfl

/-- `est_pipe` gets its packet into stage C with the grant. -/
theorem est_c_granted (hi : s.Inv) (hest : s.est.c = none)
    (hgrant : ∀ w, s.grant e w = .of (decide (w = who))) (hval : (s.req e who).val.both = true) :
    (s.cycle e).est.c.isSome = true ↔ who = .est := by
  have hsc : s.stallC e = false := by simp [stallC, EstReads.stallC, hest]
  cases who with
  | fsm =>
    rw [est_c_next (hgrant .est), hest, ite_self]
    simp
  | est =>
    have hr : s.est.r.isSome = true := by
      simpa [req, EstReads.stateReq, StatePair.both, StatePair.of] using hval
    have hsr : s.stallR e = false := by
      simp [stallR, EstReads.stallR, hsc, hgrant, StatePair.of, hi.head, hi.tail]
    have hc : (s.cycle e).est.c = s.est.r := by simp [cycle, EstReads.next, hsc, hsr]
    rw [hc, hr]
    simp

/-- The FSM pipe waits for the responses with the grant. -/
theorem fsm_ctrl_granted (hfsm : s.fsm.ctrl ≠ .rxTxStateRdResp)
    (hgrant : ∀ w, s.grant e w = .of (decide (w = who))) (hval : (s.req e who).val.both = true) :
    (s.cycle e).fsm.ctrl = .rxTxStateRdResp ↔ who = .fsm := by
  cases who with
  | fsm =>
    have hctrl := RxFsmPipe.ctrl_resp (m := s.fsm) (i := s.fsmIn e) hval
      (by simp [fsmIn, hgrant, StatePair.both, StatePair.of])
    simp [cycle, hctrl]
  | est =>
    have hctrl := RxFsmPipe.ctrl_ne_resp (m := s.fsm) (i := s.fsmIn e) hfsm
      (by simp [fsmIn, hgrant, StatePair.both, StatePair.of])
    simp [cycle, hctrl]

/-- The request is logged for the requester that was granted. -/
theorem served_granted {w : Requester} (hserved : (s.log w).Served [])
    (hgrant : s.grant e w = .of (decide (w = who))) (hv : s.respVal w = .of false) :
    ((s.cycle e).log w).Served (if w = who then [(s.req e who).recvFlowid] else []) := by
  obtain ⟨done, hrg, htg, hr, ht⟩ := hserved
  rw [List.append_nil] at hrg htg
  have hlog : (s.cycle e).log w = s.logNext e w := rfl
  refine ⟨done, ?_, ?_, ?_, ?_⟩
  · show (s.log w).recvGranted ++ _ = _
    rw [hrg, hgrant]
    by_cases hw : w = who
    · subst hw
      simp [StatePair.of]
    · simp [StatePair.of, hw]
  · show (s.log w).txGranted ++ _ = _
    rw [htg, hgrant]
    by_cases hw : w = who
    · subst hw
      simp [StatePair.of, txFlowid_eq]
    · simp [StatePair.of, hw]
  · simpa [hlog, logNext, hv, StatePair.of] using hr
  · simpa [hlog, logNext, hv, StatePair.of] using ht

/-- A request is granted. -/
theorem keeps_granted (hi : s.Inv) (hs : s.arb.state = .ready) (hrecv : s.recv = ⟨[], false⟩)
    (htx : s.tx = ⟨[], false⟩) (hfsm : s.fsm.ctrl ≠ .rxTxStateRdResp) (hest : s.est.c = none)
    (hf : s.arb.fires (s.wires e) = true) (hgr : e.grants = who.code)
    (hval : (s.req e who).val.both = true) : (s.cycle e).Inv := by
  have hv := respVal_eq_false (s := s) (by simp [StateArbiter.answers, hs])
  have hgrant := grant_eq hf hgr
  have hs' : (s.cycle e).arb = ⟨.wait, who.code⟩ := by
    have hw : (s.wires e).grants = who.code := hgr
    simp [cycle, StateArbiter.next, hs, hf, hw]
  obtain ⟨hpend, hpend'⟩ := pending_granted hrecv htx hf hgr
  refine ⟨hi.ptrs.1, hi.ptrs.2, .wait who _ (by rw [hs']) (by rw [hs']) hpend hpend'
    (fsm_ctrl_granted hfsm hgrant hval) (est_c_granted hi hest hgrant hval), fun w => ?_⟩
  have hserved := hi.served w
  rw [outstanding_ready hs] at hserved
  rw [outstanding_wait (w := who) (by rw [hs']) (by rw [hs']) hpend]
  exact served_granted hserved (hgrant w) (hv w)

/-- The requester that waits takes the responses when both are there, `est_pipe` only unless its
stage W is stalled. -/
def takes (s : ArbSystem) (e : ArbEnv) (who : Requester) : Bool :=
  s.arb.answers s.memVal && !(who == .est && e.stallW)

theorem respVal_wait {w : Requester} (hd : s.arb.decision = who.code) :
    s.respVal w = .of (s.arb.answers s.memVal && decide (w = who)) := by
  have hcode : (who.code == w.code) = decide (w = who) := by cases w <;> cases who <;> rfl
  simp only [respVal, StateArbiter.respVal, hd, hcode]

theorem rdy_wait (hd : s.arb.decision = who.code)
    (hfsm : s.fsm.ctrl = .rxTxStateRdResp ↔ who = .fsm)
    (hest : s.est.c.isSome = true ↔ who = .est) : s.rdy e who = .of (s.takes e who) := by
  have hv := respVal_wait (w := who) hd
  cases who with
  | fsm =>
    simp [rdy, RxFsmPipe.stateRespRdy, hfsm, hv, StatePair.of, StatePair.both, takes]
  | est =>
    have hc : s.est.c.isSome = true := hest.mpr rfl
    simp only [rdy, stallC, EstReads.stallC, hc, hv, StatePair.of, takes]
    cases s.arb.answers s.memVal <;> cases e.stallW <;> rfl

theorem respRdy_wait (hd : s.arb.decision = who.code)
    (hfsm : s.fsm.ctrl = .rxTxStateRdResp ↔ who = .fsm)
    (hest : s.est.c.isSome = true ↔ who = .est) :
    s.arb.respRdy (s.wires e) = .of (s.takes e who) := by
  rw [← rdy_wait hd hfsm hest, StateArbiter.respRdy, hd]
  cases who <;> rfl

theorem arb_wait (hs : s.arb.state = .wait) (hd : s.arb.decision = who.code)
    (hfsm : s.fsm.ctrl = .rxTxStateRdResp ↔ who = .fsm)
    (hest : s.est.c.isSome = true ↔ who = .est) :
    (s.cycle e).arb = if s.takes e who then { s.arb with state := .ready } else s.arb := by
  have hr := respRdy_wait (e := e) hd hfsm hest
  have hm : (s.wires e).memVal = s.memVal := rfl
  simp only [cycle, StateArbiter.next, hs, hr, hm, StatePair.both, StatePair.of, takes]
  by_cases ha : s.arb.answers s.memVal = true <;> simp [ha]

/-- Responses are not there, or not taken. -/
theorem keeps_waiting (hi : s.Inv) (hs : s.arb.state = .wait) (hd : s.arb.decision = who.code)
    (hrecv : s.recv.pending = [f]) (htx : s.tx.pending = [f])
    (hfsm : s.fsm.ctrl = .rxTxStateRdResp ↔ who = .fsm)
    (hest : s.est.c.isSome = true ↔ who = .est) (ht : s.takes e who = false) :
    (s.cycle e).Inv ∧ (s.cycle e).arb = s.arb ∧ (s.cycle e).log = s.log := by
  have hf : s.arb.fires (s.wires e) = false := by simp [StateArbiter.fires, hs]
  have hg := grant_eq_false hf
  have hrdy := rdy_wait (e := e) hd hfsm hest
  have hresp := respRdy_wait (e := e) hd hfsm hest
  have hs' : (s.cycle e).arb = s.arb := by rw [arb_wait hs hd hfsm hest, ht]; rfl
  have hpend : (s.cycle e).recv.pending = [f] := by
    simp [cycle, hf, StatePort.next, hrecv, hresp, ht, StatePair.of]
  have hpend' : (s.cycle e).tx.pending = [f] := by
    simp [cycle, hf, StatePort.next, htx, hresp, ht, StatePair.of]
  have hlog : ∀ w, (s.cycle e).log w = s.log w := by
    intro w
    by_cases hw : w = who
    · subst hw
      show s.logNext e w = _
      simp [logNext, hg, hrdy, ht, StatePair.of]
    · exact log_next_still (hg w) (by rw [respVal_wait hd]; simp [hw])
  refine ⟨⟨hi.ptrs.1, hi.ptrs.2, .wait who f (by rw [hs', hs]) (by rw [hs', hd]) hpend hpend' ?_ ?_,
    fun w => ?_⟩, hs', funext hlog⟩
  · cases who with
    | fsm =>
      have hctrl : s.fsm.ctrl = .rxTxStateRdResp := hfsm.mpr rfl
      have ha : s.arb.answers s.memVal = false := by simpa [takes] using ht
      have hnone : (s.fsmIn e).stateResp = none := by
        simp [fsmIn, respVal_eq_false ha, StatePair.both, StatePair.of]
      simp [cycle, RxFsmPipe.step, hctrl, hnone]
    | est =>
      have hctrl := RxFsmPipe.ctrl_ne_resp (m := s.fsm) (i := s.fsmIn e) (by simp [hfsm])
        (by simp [fsmIn, hg, StatePair.both, StatePair.of])
      simp [cycle, hctrl]
  · rw [est_c_next (hg .est)]
    cases who with
    | fsm =>
      have hc : s.est.c = none := by simpa using hest
      rw [hc, ite_self]
      simp
    | est =>
      have hstall : s.stallC e = true := by
        have hof : (s.rdy e .est).recv = false := by rw [hrdy, ht]; rfl
        simpa [rdy, StatePair.of] using hof
      rw [hstall]
      simpa using hest
  · rw [hlog, outstanding_wait (by rw [hs', hs]) (by rw [hs', hd]) hpend,
      ← outstanding_wait hs hd hrecv]
    exact hi.served w

/-- Both responses are taken. -/
theorem keeps_answered (hi : s.Inv) (hs : s.arb.state = .wait) (hd : s.arb.decision = who.code)
    (hrecv : s.recv.pending = [f]) (htx : s.tx.pending = [f])
    (hfsm : s.fsm.ctrl = .rxTxStateRdResp ↔ who = .fsm)
    (hest : s.est.c.isSome = true ↔ who = .est) (ht : s.takes e who = true) :
    (s.cycle e).Inv := by
  have hf : s.arb.fires (s.wires e) = false := by simp [StateArbiter.fires, hs]
  have hg := grant_eq_false hf
  have hrdy := rdy_wait (e := e) hd hfsm hest
  have hresp := respRdy_wait (e := e) hd hfsm hest
  have ha : s.arb.answers s.memVal = true := (Bool.and_eq_true_iff.mp ht).1
  obtain ⟨hrv, htv⟩ : s.recv.val = true ∧ s.tx.val = true := by
    simpa [StateArbiter.answers, hs, memVal, StatePair.both] using ha
  have hv : ∀ w, s.respVal w = .of (decide (w = who)) := by
    intro w
    rw [respVal_wait hd, ha, Bool.true_and]
  have hs' : (s.cycle e).arb.state = .ready := by rw [arb_wait hs hd hfsm hest, ht]; rfl
  refine ⟨hi.ptrs.1, hi.ptrs.2, .ready hs' ?_ ?_ ?_ ?_, fun w => ?_⟩
  · simp [cycle, hf, StatePort.next, hrecv, hrv, hresp, ht, StatePair.of]
  · simp [cycle, hf, StatePort.next, htx, htv, hresp, ht, StatePair.of]
  · cases who with
    | fsm =>
      have hctrl : s.fsm.ctrl = .rxTxStateRdResp := hfsm.mpr rfl
      have hsome : (s.fsmIn e).stateResp = some (s.recvData e, s.txData e) := by
        simp [fsmIn, hv, StatePair.both, StatePair.of]
      simp [cycle, RxFsmPipe.step, hctrl, hsome]
    | est =>
      exact RxFsmPipe.ctrl_ne_resp (m := s.fsm) (i := s.fsmIn e) (by simp [hfsm])
        (by simp [fsmIn, hg, StatePair.both, StatePair.of])
  · rw [est_c_next (hg .est)]
    cases who with
    | fsm =>
      have hc : s.est.c = none := by simpa using hest
      rw [hc, ite_self]
    | est =>
      have hstall : s.stallC e = false := by
        have hof : (s.rdy e .est).recv = true := by rw [hrdy, ht]; rfl
        simpa [rdy, StatePair.of] using hof
      rw [hstall]
      rfl
  · rw [outstanding_ready hs']
    by_cases hw : w = who
    · subst hw
      obtain ⟨done, hrg, htg, hr, htt⟩ := hi.served w
      rw [outstanding_wait hs hd hrecv, if_pos rfl] at hrg htg
      have hlog : (s.cycle e).log w = ⟨(s.log w).recvGranted, (s.log w).txGranted,
          (s.log w).recv ++ [(e.recvOf, e.recvOf f)], (s.log w).tx ++ [(e.txOf, e.txOf f)]⟩ := by
        show s.logNext e w = _
        simp [logNext, hg, hv, hrdy, ht, StatePair.of, recvData, txData, hrecv, htx]
      rw [hlog]
      exact ⟨done ++ [f], by simpa using hrg, by simpa using htg,
        List.rel_append hr (.cons rfl .nil), List.rel_append htt (.cons rfl .nil)⟩
    · rw [log_next_still (hg w) (by rw [hv]; simp [hw])]
      have hserved := hi.served w
      rwa [outstanding_wait hs hd hrecv, if_neg hw] at hserved

theorem Inv.cycle (hi : s.Inv) (hok : GrantsOk s e) : (s.cycle e).Inv := by
  cases hi.phase with
  | ready hs hrecv htx hfsm hest =>
    cases hf : s.arb.fires (s.wires e) with
    | false => exact keeps_idle hi hs hrecv htx hfsm hest hf
    | true =>
      rcases hok with hz | ⟨who, hgr, hval⟩
      · simp [StateArbiter.fires, wires, hz] at hf
      · exact keeps_granted hi hs hrecv htx hfsm hest hf hgr hval
  | wait who f hs hd hrecv htx hfsm hest =>
    cases ht : s.takes e who with
    | false => exact (keeps_waiting hi hs hd hrecv htx hfsm hest ht).1
    | true => exact keeps_answered hi hs hd hrecv htx hfsm hest ht

theorem Init.inv (h : s.Init) : s.Inv := by
  obtain ⟨hs, hfsm, hest, hrecv, htx, hlog⟩ := h
  refine ⟨by simp [hest], by simp [hest], .ready hs hrecv htx (by simp [hfsm]) (by simp [hest]),
    fun who => ?_⟩
  rw [hlog, outstanding_ready hs]
  exact ⟨[], rfl, rfl, .nil, .nil⟩

theorem inv_of_reach (h : Reach Init step GrantsOk s) : s.Inv := by
  refine h.invariant (fun _ h0 => h0.inv) ?_
  intro s e s' hi hok hstep
  cases hstep
  exact hi.cycle hok

/-! ### Every granted request is answered -/

end ArbSystem

/-- A memory responds, or stage W of `est_pipe` is not stalled. -/
inductive ArbEvent where
  | recv | tx | est

def ArbEnv.Given (e : ArbEnv) : ArbEvent → Prop
  | .recv => e.recvResponds = true
  | .tx => e.txResponds = true
  | .est => e.stallW = false

namespace ArbSystem

/-- What the waiting requester still waits for. -/
def work (s : ArbSystem) : Nat :=
  (!s.recv.val).toNat + (!s.tx.val).toNat + if s.arb.state = .wait then 3 else 0

def awaits (s : ArbSystem) : ArbEvent :=
  if s.recv.val then (if s.tx.val then .est else .tx) else .recv

variable {s : ArbSystem} {e : ArbEnv} {who : Requester} {f : FlowId}

/-- A response that is not taken stays out, and one comes out when the memory responds. -/
theorem val_next {p : StatePort} {rdy responds : Bool} (hp : p.pending ≠ [])
    (ht : (p.val && rdy) = false) : (p.next none rdy responds).val = (p.val || responds) := by
  have hne : p.pending.isEmpty = false := by simpa using hp
  simp [StatePort.next, ht, hne]

theorem work_waiting (hs : s.arb.state = .wait) (hd : s.arb.decision = who.code)
    (hrecv : s.recv.pending = [f]) (htx : s.tx.pending = [f])
    (hfsm : s.fsm.ctrl = .rxTxStateRdResp ↔ who = .fsm)
    (hest : s.est.c.isSome = true ↔ who = .est) (ht : s.takes e who = false) :
    (s.cycle e).work < s.work ∨
      (s.cycle e).work ≤ s.work ∧ (s.cycle e).awaits = s.awaits ∧ ¬ e.Given s.awaits := by
  have hf : s.arb.fires (s.wires e) = false := by simp [StateArbiter.fires, hs]
  have hresp := respRdy_wait (e := e) hd hfsm hest
  have hs' : (s.cycle e).arb = s.arb := by rw [arb_wait hs hd hfsm hest, ht]; rfl
  have hr' : (s.cycle e).recv.val = (s.recv.val || e.recvResponds) := by
    simp only [ArbSystem.cycle, hf, hresp]
    exact val_next (by simp [hrecv]) (by simp [ht, StatePair.of])
  have ht' : (s.cycle e).tx.val = (s.tx.val || e.txResponds) := by
    simp only [ArbSystem.cycle, hf, hresp]
    exact val_next (by simp [htx]) (by simp [ht, StatePair.of])
  simp only [work, awaits, hr', ht', hs']
  cases hrv : s.recv.val with
  | false =>
    cases hre : e.recvResponds with
    | true =>
      left
      cases s.tx.val <;> cases e.txResponds <;> simp
    | false =>
      right
      refine ⟨by cases s.tx.val <;> cases e.txResponds <;> simp, rfl, by simp [ArbEnv.Given, hre]⟩
  | true =>
    cases htv : s.tx.val with
    | false =>
      cases hte : e.txResponds with
      | true =>
        left
        simp
      | false => exact .inr ⟨Nat.le_refl _, rfl, by simp [ArbEnv.Given, hte]⟩
    | true =>
      right
      have hstall : e.stallW = true := by
        have ha : s.arb.answers s.memVal = true := by
          simp [StateArbiter.answers, hs, memVal, StatePair.both, hrv, htv]
        have hno : (who == .est && e.stallW) = true := by simpa [takes, ha] using ht
        exact (Bool.and_eq_true_iff.mp hno).2
      exact ⟨Nat.le_refl _, rfl, by simp [ArbEnv.Given, hstall]⟩

theorem work_answered (hs : s.arb.state = .wait) (hd : s.arb.decision = who.code)
    (hfsm : s.fsm.ctrl = .rxTxStateRdResp ↔ who = .fsm)
    (hest : s.est.c.isSome = true ↔ who = .est) (ht : s.takes e who = true) :
    (s.cycle e).work < s.work := by
  have hs' : (s.cycle e).arb.state = .ready := by rw [arb_wait hs hd hfsm hest, ht]; rfl
  have hr := Bool.toNat_le (!(s.cycle e).recv.val)
  have ht := Bool.toNat_le (!(s.cycle e).tx.val)
  simp only [work, hs, hs']
  simp
  omega

/-- The arbiter is back in `READY`, and the requests that were granted are those of `s`. -/
structure Answered (s t : ArbSystem) : Prop where
  inv : t.Inv
  granted : ∀ who, (t.log who).recvGranted = (s.log who).recvGranted
  ready : t.arb.state = .ready

theorem Inv.answered (hi : s.Inv) {sched : Nat → ArbEnv} (hf : Fair ArbEnv.Given sched)
    (hok : ∀ n, GrantsOk (exec ArbSystem.cycle s sched n) (sched n)) :
    ∃ n, Answered s (exec ArbSystem.cycle s sched n) := by
  apply exec_reaches_until
    (I := fun t => t.Inv ∧ ∀ who, (t.log who).recvGranted = (s.log who).recvGranted) work
    (fun t k => t.awaits = k) ?_ (fun t _ _ => ⟨t.awaits, rfl⟩) ?_ ⟨hi, fun _ => rfl⟩ hok hf
  · rintro t e ⟨hi, hlog⟩ hok hn
    refine ⟨hi.cycle hok, fun who => ?_⟩
    have hs : t.arb.state ≠ .ready := fun hs => hn ⟨hi, hlog, hs⟩
    have hg := grant_eq_false (s := t) (e := e) (by simp [StateArbiter.fires, hs]) who
    rw [← hlog who]
    show (t.log who).recvGranted ++ _ = _
    simp [hg, StatePair.of]
  · rintro t e _ ⟨hi, hlog⟩ _ hn rfl
    cases hi.phase with
    | ready hs => exact absurd ⟨hi, hlog, hs⟩ hn
    | wait who f hs hd hrecv htx hfsm hest =>
      cases ht : t.takes e who with
      | false => exact work_waiting hs hd hrecv htx hfsm hest ht
      | true => exact .inl (work_answered hs hd hfsm hest ht)

/-- Each granted request gets one response of each memory, both presented in the same cycles, to its
requester and with the state of its flow. -/
structure AnswersRequester (s : ArbSystem) : Prop where
  served : ∀ who, (s.log who).Served (s.outstanding who)
  one : ∀ who, (s.outstanding who).length ≤ 1 ∧
    (s.outstanding who ≠ [] → ∀ other, other ≠ who → s.outstanding other = [])
  together : ∀ who, (s.respVal who).recv = (s.respVal who).tx
  own : ∀ e who, (s.respVal who).recv = true →
    ∃ f, s.outstanding who = [f] ∧ s.recvData e = e.recvOf f ∧ s.txData e = e.txOf f
  ends : ∀ sched, Fair ArbEnv.Given sched →
    (∀ n, GrantsOk (exec ArbSystem.cycle s sched n) (sched n)) → ∃ n, ∀ who,
      ((exec ArbSystem.cycle s sched n).log who).recvGranted = (s.log who).recvGranted ∧
        ((exec ArbSystem.cycle s sched n).log who).Served []

theorem Inv.one (hi : s.Inv) (who : Requester) : (s.outstanding who).length ≤ 1 ∧
    (s.outstanding who ≠ [] → ∀ other, other ≠ who → s.outstanding other = []) := by
  cases hi.phase with
  | ready hs =>
    rw [outstanding_ready hs]
    exact ⟨Nat.zero_le 1, fun hne => absurd rfl hne⟩
  | wait w f hs hd hrecv =>
    rw [outstanding_wait hs hd hrecv]
    refine ⟨by split <;> simp, fun hne other ho => ?_⟩
    have hw : who = w := by
      by_contra hw
      exact hne (if_neg hw)
    rw [outstanding_wait hs hd hrecv, if_neg (hw ▸ ho)]

theorem Inv.own (hi : s.Inv) (hv : (s.respVal who).recv = true) :
    ∃ f, s.outstanding who = [f] ∧ s.recvData e = e.recvOf f ∧ s.txData e = e.txOf f := by
  cases hi.phase with
  | ready hs =>
    rw [respVal_eq_false (by simp [StateArbiter.answers, hs])] at hv
    cases hv
  | wait w f hs hd hrecv htx =>
    rw [respVal_wait hd] at hv
    have hw : who = w := of_decide_eq_true (Bool.and_eq_true_iff.mp hv).2
    refine ⟨f, by rw [outstanding_wait hs hd hrecv, if_pos hw], ?_, ?_⟩
    · simp [recvData, hrecv]
    · simp [txData, htx]

end ArbSystem

/-- Whoever is granted, and however the memories and stage W of `est_pipe` hold back, the responses
go to the requester that was granted. -/
theorem fsm_est_arbiter_answers {s : ArbSystem}
    (h : Reach ArbSystem.Init ArbSystem.step ArbSystem.GrantsOk s) : s.AnswersRequester := by
  have hi := ArbSystem.inv_of_reach h
  refine ⟨hi.served, hi.one, fun _ => rfl, fun e who hv => hi.own hv, fun sched hf hok => ?_⟩
  obtain ⟨n, hn⟩ := hi.answered hf hok
  refine ⟨n, fun who => ⟨hn.granted who, ?_⟩⟩
  have hserved := hn.inv.served who
  rwa [ArbSystem.outstanding_ready hn.ready] at hserved

/-! ### A fixed run -/

namespace ArbSystem

instance (s : ArbSystem) (e : ArbEnv) : Decidable (GrantsOk s e) :=
  decidable_of_iff (e.grants = 0 ∨
      e.grants = Requester.fsm.code ∧ (s.req e .fsm).val.both = true ∨
      e.grants = Requester.est.code ∧ (s.req e .est).val.both = true) <| by
    constructor
    · rintro (h | h | h)
      · exact .inl h
      · exact .inr ⟨.fsm, h⟩
      · exact .inr ⟨.est, h⟩
    · rintro (h | ⟨who, h⟩)
      · exact .inl h
      · cases who
        · exact .inr (.inl h)
        · exact .inr (.inr h)

def reset : ArbSystem where
  arb := ⟨.ready, 0⟩
  fsm := .reset
  est := ⟨none, none, none, none⟩
  recv := ⟨[], false⟩
  tx := ⟨[], false⟩
  log _ := ⟨[], [], [], []⟩

theorem init_reset : reset.Init := ⟨rfl, rfl, rfl, rfl, rfl, fun _ => rfl⟩

end ArbSystem

/-- Nothing comes in, and the memories hold the flow ID as the acknowledgement number. -/
def ArbEnv.quiet (grants : BitVec 2) (recvResponds txResponds stallW : Bool) : ArbEnv where
  fsm := ⟨none, some .synRecv, false, none, false, true, true, true, true, 0⟩
  hdr := none
  stallW := stallW
  grants := grants
  reqRdy := .of true
  recvResponds := recvResponds
  txResponds := txResponds
  recvOf f := ⟨.ofNat 32 f.val, 0⟩
  txOf f := { (default : TxState) with txCurrSeqNum := .ofNat 32 f.val }

/-- `est_pipe` is granted first and holds the responses back while `rx_fsm_pipe` asks. -/
def arbSchedule : List ArbEnv :=
  [{ ArbEnv.quiet 0 false false false with
      hdr := some { (default : EstPkt) with flowid := 3 }
      fsm := ⟨some { (default : FsmPkt) with flowid := 5 }, none, false, none, false, true, true,
        true, true, 0⟩ },
    .quiet 2 true false false, .quiet 1 false true false, .quiet 1 false false true,
    .quiet 1 false false false, .quiet 1 true true false, .quiet 0 false false false]

theorem fsm_est_arbiter_answers_both :
    ∃ s, Reach ArbSystem.Init ArbSystem.step ArbSystem.GrantsOk s ∧
      (s.log .est).recv.map (fun x => x.2.rxCurrAckNum) = [3] ∧
      (s.log .est).tx.map (fun x => x.2.txCurrSeqNum) = [3] ∧
      (s.log .fsm).recv.map (fun x => x.2.rxCurrAckNum) = [5] ∧
      (s.log .fsm).tx.map (fun x => x.2.txCurrSeqNum) = [5] ∧ s.AnswersRequester := by
  have hs : ∃ s, Reach ArbSystem.Init ArbSystem.step ArbSystem.GrantsOk s ∧
      decide ((s.log .est).recv.map (fun x => x.2.rxCurrAckNum) = [3] ∧
        (s.log .est).tx.map (fun x => x.2.txCurrSeqNum) = [3] ∧
        (s.log .fsm).recv.map (fun x => x.2.rxCurrAckNum) = [5] ∧
        (s.log .fsm).tx.map (fun x => x.2.txCurrSeqNum) = [5]) = true :=
    Reach.exists_of_run arbSchedule ArbSystem.init_reset (by decide +kernel)
  obtain ⟨s, hs, hp⟩ := hs
  obtain ⟨hr, ht, hr', ht'⟩ := of_decide_eq_true hp
  exact ⟨s, hs, hr, ht, hr', ht', fsm_est_arbiter_answers hs⟩

end TcpHw
