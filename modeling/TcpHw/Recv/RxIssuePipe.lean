import TcpHw.Recv.RxFsmPipe

/-!
# `flowid_manager` and `rx_issue_pipe`

A received packet passes the stages (F)low ID lookup, (T)CP state lookup and (I)ssue. A
four-tuple that is not in the CAM gets a flow ID in stage T, or the packet is dropped
there when none is left. Stage I sends plain packets of established flows to `est_pipe`
and everything else to the handshake FSM.
-/
namespace TcpHw

set_option autoImplicit false

/-! ### `flowid_manager` -/

/-- `reclaimed` holds the contents of the FIFO of returned flow IDs. -/
structure FlowidManager where
  flowid : FlowId
  useFifo : Bool
  reclaimed : List FlowId

namespace FlowidManager

def reset : FlowidManager where
  flowid := 0
  useFifo := false
  reclaimed := []

variable (m : FlowidManager)

/-- `flowid_avail` -/
def avail : Bool := if m.useFifo then !m.reclaimed.isEmpty else true

/-- `flowid` -/
def out : FlowId := if m.useFifo then m.reclaimed.headD 0 else m.flowid

/-- One clock edge, with `flowid_req` and a returned flow ID. -/
def step (req : Bool) (ret : Option FlowId) : FlowidManager where
  flowid := if req then m.flowid + 1 else m.flowid
  useFifo := if req then decide (m.flowid = 15) else m.useFifo
  reclaimed := (if req && m.useFifo then m.reclaimed.tail else m.reclaimed) ++ ret.toList

end FlowidManager

/-! ### `rx_issue_pipe` -/

/-- A packet as `tcp_tmp_rx_buf` hands it over. -/
structure RecvPkt where
  srcIp : BitVec 32
  dstIp : BitVec 32
  tcpHdr : TcpPktHdr
  payloadVal : Bool
  payloadEntry : PayloadBuf
  deriving DecidableEq, Inhabited

/-- `addr_to_flowid_cam_rd_req_tag` -/
def RecvPkt.tag (p : RecvPkt) : FourTuple where
  hostIp := p.dstIp
  destIp := p.srcIp
  hostPort := p.tcpHdr.dstPort
  destPort := p.tcpHdr.srcPort

/-- The registers of stage T; `flowid` is valid when the lookup hit. -/
structure StageT where
  pkt : RecvPkt
  flowid : Option FlowId
  deriving DecidableEq

/-- The registers of stage I. -/
structure StageI where
  pkt : RecvPkt
  newFlow : Bool
  flowid : FlowId
  alloc : Bool
  deriving DecidableEq

/-- The entry for the FSM queue. -/
def StageI.fsmPkt (i : StageI) : FsmPkt where
  srcIp := i.pkt.srcIp
  dstIp := i.pkt.dstIp
  tcpHdr := i.pkt.tcpHdr
  payloadVal := i.pkt.payloadVal
  payloadEntry := i.pkt.payloadEntry
  newFlow := i.newFlow
  flowid := i.flowid

/-- The packet for `est_pipe`. -/
def StageI.estPkt (i : StageI) : ReinjectPkt where
  flowid := i.flowid
  tcpHdr := i.pkt.tcpHdr
  payloadVal := i.pkt.payloadVal
  payloadEntry := i.pkt.payloadEntry

/-- The stage registers, the CAM, and the flow whose TCP state the read port answers for. -/
structure RxIssuePipe where
  f : Option RecvPkt
  t : Option StageT
  i : Option StageI
  cam : FlowId → Option FourTuple
  tcpRd : Option FlowId

/-- What the neighbours drive in one cycle; `tcpMem` is the content of the TCP state memory. -/
structure IssueIn where
  recv : Option RecvPkt
  tcpMem : FlowId → TcpFlowState
  fsmUpdate : Bool
  clear : Option FlowId
  flowidAvail : Bool
  newFlowid : FlowId
  estPipeRdy : Bool
  fsmPipeRdy : Bool

/-- The entry of the CAM with a tag. -/
def camLookup (cam : FlowId → Option FourTuple) (tag : FourTuple) : Option FlowId :=
  (List.finRange maxFlowCnt).find? fun f => cam f == some tag

/-- `route == EST_PIPE` -/
def routeEst (st : TcpFlowState) (hdr : TcpPktHdr) : Bool := st == .est && onlyAckPsh hdr.flags

namespace RxIssuePipe

def reset : RxIssuePipe where
  f := none
  t := none
  i := none
  cam _ := none
  tcpRd := none

variable (q : RxIssuePipe) (x : IssueIn)

/-- `curr_tcp_state_i` for the packet in stage I. -/
def currTcpState (i : StageI) : TcpFlowState :=
  if i.alloc then .none else (q.tcpRd.map x.tcpMem).getD .none

def stallI : Bool :=
  match q.i with
  | none => false
  | some i =>
    (if routeEst (q.currTcpState x i) i.pkt.tcpHdr then !x.estPipeRdy else !x.fsmPipeRdy) ||
      (!i.alloc && q.tcpRd.isNone)

/-- `want_new_flowid_t` -/
def wantNewFlowid : Bool := q.t.any fun t => t.flowid.isNone && x.flowidAvail

def stallT : Bool :=
  q.t.isSome && (q.stallI x || !Ram.reqRdy q.tcpRd (!q.stallI x) ||
    q.wantNewFlowid x && x.fsmUpdate || q.wantNewFlowid x && x.clear.isSome)

/-- `drop_hdr_t` -/
def dropHdr : Bool := q.t.any fun t => t.flowid.isNone && !x.flowidAvail

/-- `alloc_new_flowid_val_t`, `alloc_new_flowid_data_t` -/
def allocNewFlowid : Option FlowId :=
  if !q.stallT x && q.wantNewFlowid x then some x.newFlowid else none

def stallF : Bool := q.f.isSome && q.stallT x

def recvHdrRdy : Bool := !q.stallF x

/-- The flow ID stage F hands on: bypassed from an allocation for the same four-tuple in
stage T, or found in the CAM. -/
def flowidNext (p : RecvPkt) : Option FlowId :=
  if (q.allocNewFlowid x).isSome ∧ q.t.map (·.pkt.tag) = some p.tag then q.allocNewFlowid x
  else camLookup q.cam p.tag

/-- `tcp_state_rd_req_val_t`, `tcp_state_rd_req_addr_t` -/
def tcpRdReq : Option FlowId := if q.stallT x then none else q.t.bind StageT.flowid

/-- `addr_to_flowid_cam_wr_*` -/
def camNext : FlowId → Option FourTuple :=
  match x.clear, q.allocNewFlowid x with
  | some f, _ => Function.update q.cam f none
  | none, some f => Function.update q.cam f (q.t.map (·.pkt.tag))
  | none, none => q.cam

/-- The packet stage T hands on; `newFlowid` matters only with an allocation. -/
def stageINext : Option StageI :=
  if q.stallT x || q.dropHdr x then none
  else q.t.map fun t =>
    { pkt := t.pkt
      newFlow := t.flowid.isNone
      flowid := ((q.allocNewFlowid x).or t.flowid).getD 0
      alloc := (q.allocNewFlowid x).isSome }

/-- One clock edge. -/
def step : RxIssuePipe where
  f := if q.stallF x then q.f else x.recv
  t := if q.stallT x then q.t else q.f.map fun p => { pkt := p, flowid := q.flowidNext x p }
  i := if q.stallI x then q.i else q.stageINext x
  cam := q.camNext x
  tcpRd := Ram.next q.tcpRd (q.tcpRdReq x) (!q.stallI x)

/-- The packet stage I hands on in this cycle. -/
def issued : Option StageI := if q.stallI x then none else q.i

/-- `est_hdr_val` and the packet for `est_pipe`. -/
def estOut : Option ReinjectPkt :=
  ((q.issued x).filter fun i => routeEst (q.currTcpState x i) i.pkt.tcpHdr).map StageI.estPkt

/-- `fsm_hdr_val` and the packet for the FSM queue. -/
def fsmOut : Option FsmPkt :=
  ((q.issued x).filter fun i => !routeEst (q.currTcpState x i) i.pkt.tcpHdr).map StageI.fsmPkt

/-! ### What a cycle can do -/

variable {q x}

theorem camLookup_some {cam : FlowId → Option FourTuple} {tag : FourTuple} {f : FlowId}
    (h : camLookup cam tag = some f) : cam f = some tag := by
  have hf := List.find?_some h
  simpa using hf

theorem camLookup_none {cam : FlowId → Option FourTuple} {tag : FourTuple}
    (h : camLookup cam tag = none) (f : FlowId) : cam f ≠ some tag := by
  have hf := List.find?_eq_none.mp h f (List.mem_finRange f)
  simpa using hf

/-- An allocation is made for a packet without a flow ID that moves on to stage I, and not
while the FSM writes. -/
theorem alloc_cases {f : FlowId} (h : q.allocNewFlowid x = some f) :
    (∃ p, q.t = some { pkt := p, flowid := none }) ∧ x.flowidAvail = true ∧ f = x.newFlowid ∧
      q.stallT x = false ∧ q.stallI x = false ∧ x.fsmUpdate = false := by
  simp only [allocNewFlowid, Bool.and_eq_true, Bool.not_eq_true', Option.ite_none_right_eq_some,
    Option.some.injEq] at h
  obtain ⟨⟨hstall, hwant⟩, hid⟩ := h
  cases ht : q.t with
  | none => simp [wantNewFlowid, ht] at hwant
  | some t =>
    obtain ⟨p, id⟩ := t
    have hw := hwant
    simp only [wantNewFlowid, ht, Option.any_some, Bool.and_eq_true, Option.isNone_iff_eq_none] at hw
    obtain ⟨rfl, hav⟩ := hw
    have hs := hstall
    simp only [stallT, ht, hwant] at hs
    simp only [Option.isSome_some, Bool.true_and, Bool.or_eq_false_iff] at hs
    exact ⟨⟨p, rfl⟩, hav, hid.symm, hstall, hs.1.1.1, hs.1.2⟩

/-- A packet enters stage I either with the flow ID allocated for it or with the one it was
looked up with. -/
theorem stageINext_cases {i : StageI} (h : q.stageINext x = some i) :
    q.stallT x = false ∧ ∃ t, q.t = some t ∧ i.pkt = t.pkt ∧
      ((t.flowid = none ∧ q.allocNewFlowid x = some i.flowid ∧ i.newFlow = true ∧
          i.alloc = true) ∨
        (t.flowid = some i.flowid ∧ q.allocNewFlowid x = none ∧ i.newFlow = false ∧
          i.alloc = false)) := by
  unfold stageINext at h
  split at h
  · cases h
  · rename_i hb
    simp only [Bool.or_eq_true, not_or, Bool.not_eq_true] at hb
    obtain ⟨t, ht, rfl⟩ := Option.map_eq_some_iff.mp h
    refine ⟨hb.1, t, ht, rfl, ?_⟩
    obtain ⟨p, id⟩ := t
    cases id with
    | none =>
      have hav : x.flowidAvail = true := by simpa [dropHdr, ht] using hb.2
      have ha : q.allocNewFlowid x = some x.newFlowid := by
        simp [allocNewFlowid, hb.1, wantNewFlowid, ht, hav]
      simp [ha]
    | some f =>
      have ha : q.allocNewFlowid x = none := by
        simp [allocNewFlowid, wantNewFlowid, ht]
      simp [ha]

/-- An allocation puts its packet into stage I. -/
theorem stageINext_of_alloc {f : FlowId} (h : q.allocNewFlowid x = some f) :
    ∃ i, q.stageINext x = some i ∧ i.flowid = f ∧ i.newFlow = true := by
  obtain ⟨⟨p, ht⟩, hav, -, hst, -, -⟩ := alloc_cases h
  refine ⟨{ pkt := p, newFlow := true, flowid := f, alloc := true }, ?_, rfl, rfl⟩
  simp [stageINext, hst, dropHdr, ht, hav, h]

/-- A packet with a new flow ID is never sent to `est_pipe`. -/
theorem fsmOut_of_alloc {i : StageI} (hi : q.i = some i) (ha : i.alloc = true)
    (hs : q.stallI x = false) : q.fsmOut x = some i.fsmPkt := by
  have hst : q.currTcpState x i = .none := by simp [currTcpState, ha]
  simp [fsmOut, issued, hs, hi, hst, routeEst]

end RxIssuePipe

end TcpHw
