import TcpHw.Recv.RxPipe

/-!
# The routes of received packets

The receive pipe with a record of what passes its routing points: the input of
`rx_issue_pipe`, the drops in stage T, the two outputs of stage I, both ends of the FSM queue
and of the reinject queue, and the input of `est_pipe`. No hardware reads the record.
-/
namespace TcpHw

open Trace

set_option autoImplicit false

/-- What has become of a packet. -/
inductive Fate where
  | dropped (p : RecvPkt)
  | est (a : StageI)
  | fsm (a : StageI)

namespace Fate

def pkt : Fate → RecvPkt
  | .dropped p => p
  | .est a | .fsm a => a.pkt

def dropped? : Fate → Option RecvPkt
  | .dropped p => some p
  | _ => none

def est? : Fate → Option ReinjectPkt
  | .est a => some a.estPkt
  | _ => none

def fsm? : Fate → Option FsmPkt
  | .fsm a => some a.fsmPkt
  | _ => none

end Fate

/-- A packet on the way to `est_pipe`, with the flow whose TCP state was read for it and what
was read. -/
structure Routed where
  pkt : ReinjectPkt
  read : Option (FlowId × TcpFlowState)

structure RxRouting where
  pipe : RxPipe
  accepted : List RecvPkt
  fates : List Fate
  /-- With `flowid_avail` in the cycle of the drop. -/
  drops : List (StageT × Bool)
  toEst : List Routed
  toFsm : List FsmPkt
  fsmTaken : List FsmPkt
  reinjected : List Routed
  /-- Set for a packet out of the reinject queue. -/
  merged : List (Bool × EstPkt)
  /-- The last response of the TCP state memory to the FSM. -/
  fsmRead : Option (FlowId × TcpFlowState)

/-! ### `rx_issue_pipe` -/

namespace RxIssuePipe

variable (q : RxIssuePipe) (x : IssueIn)

/-- The packet stage F takes. -/
def accepted : Option RecvPkt := if q.recvHdrRdy x then x.recv else none

/-- The packet that leaves stage T and does not enter stage I. -/
def dropped : Option StageT := if q.stallT x || (q.stageINext x).isSome then none else q.t

def fate (a : StageI) : Fate :=
  if routeEst (q.currTcpState x a) a.pkt.tcpHdr then .est a else .fsm a

/-- The fates decided in one cycle: stage I is ahead of stage T. -/
def fates : List Fate :=
  ((q.issued x).map (q.fate x)).toList ++ ((q.dropped x).map fun t => .dropped t.pkt).toList

/-- The packets in the stages, oldest first. -/
def inFlight : List RecvPkt :=
  (q.i.map StageI.pkt).toList ++ (q.t.map StageT.pkt).toList ++ q.f.toList

variable {q x}

/-- A packet is dropped when it has no flow ID and none is left. -/
theorem dropped_cases {t : StageT} (h : q.dropped x = some t) :
    t.flowid = none ∧ x.flowidAvail = false := by
  unfold dropped at h
  split at h
  · cases h
  · rename_i hs
    simp only [Bool.or_eq_true, not_or, Bool.not_eq_true, Option.isSome_eq_false_iff,
      Option.isNone_iff_eq_none] at hs
    have hd : q.dropHdr x = true := by
      by_contra hno
      simp [stageINext, hs.1, hno, h] at hs
    simpa [dropHdr, h] using hd

theorem pkt_dropped (p : RecvPkt) : (Fate.dropped p).pkt = p := rfl

theorem fate_pkt (a : StageI) : (q.fate x a).pkt = a.pkt := by
  unfold fate
  split <;> rfl

/-- Stage F lets its packet go with stage T. -/
theorem stageF_step : (if q.stallT x then [] else q.f.toList) ++ (q.step x).f.toList =
    q.f.toList ++ (q.accepted x).toList := by
  cases hT : q.stallT x <;> cases hf : q.f <;> simp [step, accepted, recvHdrRdy, stallF, hT, hf]

/-- A packet of stage T that is let go is dropped or enters stage I. -/
theorem stageT_step :
    ((q.dropped x).map StageT.pkt).toList ++ ((q.stageINext x).map StageI.pkt).toList ++
        ((q.step x).t.map StageT.pkt).toList =
      (q.t.map StageT.pkt).toList ++ if q.stallT x then [] else q.f.toList := by
  cases hT : q.stallT x with
  | true => simp [dropped, stageINext, step, hT]
  | false =>
    have hnext : ((q.step x).t.map StageT.pkt).toList = q.f.toList := by
      cases hf : q.f <;> simp [step, hT, hf]
    rw [hnext]
    cases hn : q.stageINext x with
    | none => simp [dropped, hT, hn]
    | some a =>
      obtain ⟨-, t, ht, hp, -⟩ := stageINext_cases hn
      simp [dropped, hn, ht, hp]

/-- Nothing leaves stage T while stage I is held. -/
theorem held_of_stallI (hI : q.stallI x = true) : q.dropped x = none ∧ q.stageINext x = none := by
  cases ht : q.t with
  | none => simp [dropped, stageINext, ht]
  | some t =>
    have hT : q.stallT x = true := by simp [stallT, ht, hI]
    simp [dropped, stageINext, hT]

theorem stageI_step :
    ((q.issued x).map StageI.pkt).toList ++ ((q.step x).i.map StageI.pkt).toList =
      (q.i.map StageI.pkt).toList ++ ((q.stageINext x).map StageI.pkt).toList := by
  cases hI : q.stallI x with
  | true => simp [issued, step, hI, held_of_stallI hI]
  | false => simp [issued, step, hI]

theorem stageINext_of_dropped {t : StageT} (h : q.dropped x = some t) : q.stageINext x = none := by
  unfold dropped at h
  split at h
  · cases h
  · rename_i hs
    simp only [Bool.or_eq_true, not_or, Bool.not_eq_true, Option.isSome_eq_false_iff,
      Option.isNone_iff_eq_none] at hs
    exact hs.2

/-- A packet that stage T drops has stage I empty ahead of it after the cycle, so it is not
overtaken. -/
theorem stageI_dropped :
    ((q.issued x).map StageI.pkt).toList ++ ((q.dropped x).map StageT.pkt).toList ++
        ((q.step x).i.map StageI.pkt).toList =
      (q.i.map StageI.pkt).toList ++
        (((q.dropped x).map StageT.pkt).toList ++ ((q.stageINext x).map StageI.pkt).toList) := by
  have hI := stageI_step (q := q) (x := x)
  cases hd : q.dropped x with
  | none => simpa using hI
  | some t =>
    have hn := stageINext_of_dropped hd
    have hi : (q.step x).i = none := by
      cases hs : q.stallI x with
      | true =>
        rw [(held_of_stallI hs).1] at hd
        cases hd
      | false => simp [step, hs, hn]
    rw [hn, hi] at hI ⊢
    simpa using hI

/-- Every packet is in a stage or has met its fate, in the order of arrival. -/
theorem inFlight_step : (q.fates x).map Fate.pkt ++ (q.step x).inFlight =
    q.inFlight ++ (q.accepted x).toList := by
  have hfates : (q.fates x).map Fate.pkt =
      ((q.issued x).map StageI.pkt).toList ++ ((q.dropped x).map StageT.pkt).toList := by
    cases hi : q.issued x <;> cases hd : q.dropped x <;> simp [fates, fate_pkt, pkt_dropped, hi, hd]
  rw [hfates, inFlight, inFlight, ← List.append_assoc, ← List.append_assoc, stageI_dropped,
    List.append_assoc (q.i.map StageI.pkt).toList, stageT_step]
  simp only [List.append_assoc]
  rw [stageF_step]

/-- What leaves stage I towards `est_pipe` are the packets with that fate. -/
theorem estOut_eq : (q.estOut x).toList = (q.fates x).filterMap Fate.est? := by
  cases hd : q.dropped x <;> cases hi : q.issued x with
  | none => simp [estOut, fates, hd, hi, Fate.est?]
  | some a =>
    cases hr : routeEst (q.currTcpState x a) a.pkt.tcpHdr <;>
      simp [estOut, fates, fate, hd, hi, hr, Option.filter, List.filterMap_cons, Fate.est?]

theorem fsmOut_eq : (q.fsmOut x).toList = (q.fates x).filterMap Fate.fsm? := by
  cases hd : q.dropped x <;> cases hi : q.issued x with
  | none => simp [fsmOut, fates, hd, hi, Fate.fsm?]
  | some a =>
    cases hr : routeEst (q.currTcpState x a) a.pkt.tcpHdr <;>
      simp [fsmOut, fates, fate, hd, hi, hr, Option.filter, List.filterMap_cons, Fate.fsm?]

theorem dropped_eq :
    ((q.dropped x).map StageT.pkt).toList = (q.fates x).filterMap Fate.dropped? := by
  cases hd : q.dropped x <;> cases hi : q.issued x with
  | none => simp [fates, hd, hi, Fate.dropped?]
  | some a =>
    cases hr : routeEst (q.currTcpState x a) a.pkt.tcpHdr <;>
      simp [fates, fate, hd, hi, hr, List.filterMap_cons, Fate.dropped?]

/-- The read port answers for the packet in stage I, unless it has a new flow ID. -/
def ReadInv (q : RxIssuePipe) : Prop := ∀ a ∈ q.i, a.alloc = false → q.tcpRd = some a.flowid

theorem readInv_step (h : ReadInv q) : ReadInv (q.step x) := by
  intro a ha hal
  have ha' : (if q.stallI x then q.i else q.stageINext x) = some a := ha
  show Ram.next q.tcpRd (q.tcpRdReq x) (!q.stallI x) = _
  split at ha'
  · rename_i hI
    rw [h a ha' hal]
    simp [Ram.next, hI]
  · rename_i hI
    obtain ⟨hT, t, ht, -, hcase⟩ := stageINext_cases ha'
    rcases hcase with ⟨-, -, -, hyes⟩ | ⟨hid, -, -, -⟩
    · rw [hal] at hyes
      cases hyes
    · simp [Ram.next, hI, tcpRdReq, hT, ht, hid]

/-- A packet goes to `est_pipe` because the state read for its flow is `TCP_EST`, and it has
no flags but ACK and PSH. -/
theorem estOut_plain (h : ReadInv q) {p : ReinjectPkt} (hp : q.estOut x = some p) :
    onlyAckPsh p.tcpHdr.flags = true ∧ q.tcpRd = some p.flowid ∧ x.tcpMem p.flowid = .est := by
  obtain ⟨a, ha, rfl⟩ := Option.map_eq_some_iff.mp hp
  obtain ⟨hiss, hroute⟩ := Option.filter_eq_some_iff.mp ha
  have hi : q.i = some a := by
    unfold issued at hiss
    split at hiss
    · cases hiss
    · exact hiss
  simp only [routeEst, currTcpState, Bool.and_eq_true, beq_iff_eq] at hroute
  obtain ⟨hst, hflags⟩ := hroute
  cases hal : a.alloc with
  | true => simp [hal] at hst
  | false =>
    have hrd := h a hi hal
    rw [hal, hrd] at hst
    exact ⟨hflags, hrd, hst⟩

end RxIssuePipe

/-! ### The record -/

namespace RxRouting

variable (s : RxRouting) (i : RxPipeIn)

def issueIn : IssueIn := s.pipe.front.issueIn (s.pipe.frontIn i)

/-- The response the FSM has, or had when it last read. -/
def fsmReadNow : Option (FlowId × TcpFlowState) :=
  if s.pipe.front.sys.fsm.ctrl = .tcpStateRdResp then
    s.pipe.front.sys.tcpRd.map fun f => (f, s.pipe.front.sys.tcpMem f)
  else s.fsmRead

/-- The response stage I has. -/
def issueRead : Option (FlowId × TcpFlowState) :=
  s.pipe.front.issue.tcpRd.map fun f => (f, s.pipe.front.sys.tcpMem f)

/-- One clock edge. -/
def step : RxRouting where
  pipe := s.pipe.step i
  accepted := s.accepted ++ (s.pipe.front.issue.accepted (s.issueIn i)).toList
  fates := s.fates ++ s.pipe.front.issue.fates (s.issueIn i)
  drops := s.drops ++
    ((s.pipe.front.issue.dropped (s.issueIn i)).map fun t => (t, s.pipe.front.ids.avail)).toList
  toEst := s.toEst ++
    ((s.pipe.front.issue.estOut (s.issueIn i)).map fun p => { pkt := p, read := s.issueRead }).toList
  toFsm := s.toFsm ++ (s.pipe.front.issue.fsmOut (s.issueIn i)).toList
  fsmTaken := s.fsmTaken ++
    (if s.pipe.front.sys.fsm.hdrRdy then s.pipe.front.fsmQ.head? else none).toList
  reinjected := s.reinjected ++
    ((s.pipe.reinjected i).map fun p => { pkt := p, read := s.fsmReadNow }).toList
  merged := s.merged ++
    ((RxPipe.estTaken s.pipe i).map fun p => (!s.pipe.reinjectQ.isEmpty, p)).toList
  fsmRead := s.fsmReadNow

def cycle (s : RxRouting) (i : RxPipeIn) : Option RxRouting := some (s.step i)

def Init (s : RxRouting) : Prop :=
  s.pipe.Init ∧ s.accepted = [] ∧ s.fates = [] ∧ s.drops = [] ∧ s.toEst = [] ∧ s.toFsm = [] ∧
    s.fsmTaken = [] ∧ s.reinjected = [] ∧ s.merged = []

/-- The packets of one of the merger's two sources, as `est_pipe` took them. -/
def mergedFrom (queue : Bool) : List EstPkt :=
  (s.merged.filter fun p => p.1 = queue).map Prod.snd

/-- Every packet accepted at the input is in the issue pipe or has met one fate, in order of
arrival; a packet dropped has no flow ID and finds none; the outputs of stage I and the
queues lose, repeat and reorder nothing; and `est_pipe` takes what its two sources send, each
with the state of its flow read as `TCP_EST`. -/
structure Conserves (s : RxRouting) : Prop where
  inputs : s.fates.map Fate.pkt ++ s.pipe.front.issue.inFlight = s.accepted
  dropped : s.drops.map (fun d => d.1.pkt) = s.fates.filterMap Fate.dropped?
  noFlowid : ∀ d ∈ s.drops, d.1.flowid = none ∧ d.2 = false
  est : s.toEst.map Routed.pkt = s.fates.filterMap Fate.est?
  fsm : s.toFsm = s.fates.filterMap Fate.fsm?
  fsmQ : s.fsmTaken ++ s.pipe.front.fsmQ = s.toFsm
  taken : s.pipe.est.log.taken = s.merged.map Prod.snd
  issued : s.mergedFrom false = s.toEst.map fun r => r.pkt.estPkt
  queued : s.mergedFrom true ++ s.pipe.reinjectQ.map ReinjectPkt.estPkt =
    s.reinjected.map fun r => r.pkt.estPkt
  plain : ∀ r ∈ s.toEst ++ s.reinjected, onlyAckPsh r.pkt.tcpHdr.flags = true ∧
    r.read = some (r.pkt.flowid, .est)

/-- What a packet that waits to be put back has been found to be. -/
def ReinjectInv (s : RxRouting) : Prop :=
  s.pipe.front.sys.fsm.ctrl = .reinjectPkt →
    onlyAckPsh s.pipe.front.sys.fsm.pkt.tcpHdr.flags = true ∧
      s.fsmRead = some (s.pipe.front.sys.fsm.pkt.flowid, .est)

structure Inv (s : RxRouting) : Prop where
  front : RxFront.Inv s.pipe.front
  fsm : FsmSystem.Inv s.pipe.front.sys
  read : s.pipe.front.issue.ReadInv
  reinject : ReinjectInv s
  conserves : Conserves s

variable {s i}

/-! ### The FSM -/

/-- In `TCP_STATE_RD_RESP` the FSM sees the stored state of the packet's flow. -/
theorem Inv.fsmResp (h : Inv s) (hc : s.pipe.front.sys.fsm.ctrl = .tcpStateRdResp) :
    s.pipe.front.sys.tcpRd = some s.pipe.front.sys.fsm.pkt.flowid := by
  have hctrl := h.fsm.ctrl
  simpa only [FsmSystem.CtrlOk, hc] using hctrl

theorem Inv.reinject_step (h : Inv s) : ReinjectInv (s.step i) := by
  intro hc'
  have hc' : (s.pipe.front.step (s.pipe.frontIn i)).sys.fsm.ctrl = .reinjectPkt := hc'
  have harc := FsmSystem.ctrl_mem_arcs (s := s.pipe.front.sys)
    (i := s.pipe.front.sysIn (s.pipe.frontIn i))
  have hfrom : s.pipe.front.sys.fsm.ctrl = .tcpStateRdResp ∨
      s.pipe.front.sys.fsm.ctrl = .reinjectPkt := by
    rw [show (s.pipe.front.sys.step _).fsm.ctrl = .reinjectPkt from hc'] at harc
    cases hc : s.pipe.front.sys.fsm.ctrl <;> simp [hc, RxFsmPipe.arcs] at harc ⊢
  have hpkt : (s.step i).pipe.front.sys.fsm.pkt = s.pipe.front.sys.fsm.pkt :=
    FsmSystem.pkt_step (by rcases hfrom with hc | hc <;> simp [hc])
  rw [hpkt]
  show _ ∧ s.fsmReadNow = _
  rcases hfrom with hc | hc
  · have hrd := h.fsmResp hc
    rw [fsmReadNow, if_pos hc, hrd]
    have hstep : (s.pipe.front.sys.fsm.step
        (s.pipe.front.sys.fsmIn (s.pipe.front.sysIn (s.pipe.frontIn i)))).ctrl = .reinjectPkt := hc'
    have hresp : (s.pipe.front.sys.fsmIn (s.pipe.front.sysIn (s.pipe.frontIn i))).tcpResp =
        some (s.pipe.front.sys.tcpMem s.pipe.front.sys.fsm.pkt.flowid) := by
      simp [FsmSystem.fsmIn, hrd]
    simp only [RxFsmPipe.step, hc, hresp, RxFsmPipe.rdReqNext] at hstep
    split_ifs at hstep with he hflags
    exact ⟨by simpa using hflags, by simp [he]⟩
  · rw [fsmReadNow, if_neg (by simp [hc])]
    exact h.reinject hc

/-- A packet the FSM puts back is plain, and its flow was found established. -/
theorem Inv.reinjected_plain (h : Inv s) {p : ReinjectPkt} (hp : s.pipe.reinjected i = some p) :
    onlyAckPsh p.tcpHdr.flags = true ∧ s.fsmReadNow = some (p.flowid, .est) := by
  unfold RxPipe.reinjected RxFsmPipe.reinject at hp
  split at hp
  · cases hp
  · split at hp
    · rename_i hc
      simp only [Option.ite_none_right_eq_some, Option.some.injEq] at hp
      obtain ⟨⟨hresp, hflags, -⟩, rfl⟩ := hp
      have hrd := h.fsmResp hc
      simp only [FsmSystem.fsmIn, hrd, Option.map_some, Option.some.injEq] at hresp
      refine ⟨hflags, ?_⟩
      rw [fsmReadNow, if_pos hc, hrd, Option.map_some, hresp]
      rfl
    · rename_i hc
      cases hp
      rw [fsmReadNow, if_neg (by simp [hc])]
      exact h.reinject hc
    · cases hp

/-! ### The merger -/

/-- A packet `est_pipe` takes comes from the queue when there is one waiting, and otherwise
from stage I. -/
theorem taken_cases :
    (s.pipe.reinjectQ = [] ∧ s.pipe.reinjectRest i = [] ∧
      RxPipe.estTaken s.pipe i =
        (s.pipe.front.issue.estOut (s.issueIn i)).map ReinjectPkt.estPkt) ∨
    (s.pipe.reinjectQ ≠ [] ∧ s.pipe.front.issue.estOut (s.issueIn i) = none ∧
      ((RxPipe.estTaken s.pipe i).toList ++ (s.pipe.reinjectRest i).map ReinjectPkt.estPkt =
        s.pipe.reinjectQ.map ReinjectPkt.estPkt)) := by
  have hrdy := RxPipe.estPipeRdy_eq s.pipe.est (s.pipe.estEnv i)
  have hout : ∀ p, s.pipe.front.issue.estOut (s.issueIn i) = some p →
      s.pipe.reinjectQ = [] ∧ s.pipe.est.stallR (s.pipe.estEnv i) = false := by
    intro p hp
    have hr : s.pipe.issueEstRdy i = true := RxPipe.estOut_rdy hp
    simpa [RxPipe.issueEstRdy, hrdy] using hr
  cases hq : s.pipe.reinjectQ with
  | nil =>
    refine .inl ⟨rfl, by simp [RxPipe.reinjectRest, hq], ?_⟩
    cases ho : s.pipe.front.issue.estOut (s.issueIn i) with
    | none =>
      have ho' : s.pipe.front.issue.estOut (s.pipe.front.issueIn (s.pipe.frontIn i)) = none := ho
      simp [RxPipe.estTaken, RxPipe.estHdr, hq, ho']
    | some p =>
      have ho' : s.pipe.front.issue.estOut (s.pipe.front.issueIn (s.pipe.frontIn i)) = some p := ho
      simp [RxPipe.estTaken, RxPipe.estHdr, hq, ho', (hout p ho).2]
  | cons p q =>
    refine .inr ⟨by simp, ?_, ?_⟩
    · by_contra hne
      obtain ⟨r, hr⟩ := Option.ne_none_iff_exists'.mp hne
      rw [(hout r hr).1] at hq
      cases hq
    · cases hR : s.pipe.est.stallR (s.pipe.estEnv i) <;>
        simp [RxPipe.estTaken, RxPipe.reinjectRest, RxPipe.estHdr, hrdy, hR, hq]

theorem mergedFrom_step (queue : Bool) :
    (s.step i).mergedFrom queue = s.mergedFrom queue ++
      if (!s.pipe.reinjectQ.isEmpty) = queue then (RxPipe.estTaken s.pipe i).toList else [] := by
  cases ht : RxPipe.estTaken s.pipe i with
  | none => simp [mergedFrom, step, ht]
  | some p =>
    by_cases hq : (!s.pipe.reinjectQ.isEmpty) = queue <;> simp [mergedFrom, step, ht, hq]

/-- Stage R takes the packet exactly when it is not held. -/
theorem stallR_estIn : s.pipe.est.stallR (s.pipe.estIn i) = s.pipe.est.stallR (s.pipe.estEnv i) :=
  rfl

theorem Inv.conserves_step (h : Inv s) : Conserves (s.step i) where
  inputs := by
    show (s.fates ++ s.pipe.front.issue.fates (s.issueIn i)).map Fate.pkt ++
      (s.pipe.front.issue.step (s.issueIn i)).inFlight = s.accepted ++ _
    rw [List.map_append, List.append_assoc, RxIssuePipe.inFlight_step, ← List.append_assoc,
      h.conserves.inputs]
  dropped := by
    have hd := RxIssuePipe.dropped_eq (q := s.pipe.front.issue) (x := s.issueIn i)
    simp only [step, List.map_append, List.filterMap_append, h.conserves.dropped, ← hd]
    cases s.pipe.front.issue.dropped (s.issueIn i) <;> rfl
  noFlowid := by
    intro d hd
    rcases List.mem_append.mp hd with hd | hd
    · exact h.conserves.noFlowid d hd
    · obtain ⟨t, ht, rfl⟩ := Option.map_eq_some_iff.mp (Option.mem_toList.mp hd)
      exact RxIssuePipe.dropped_cases ht
  est := by
    have he := RxIssuePipe.estOut_eq (q := s.pipe.front.issue) (x := s.issueIn i)
    simp only [step, List.map_append, List.filterMap_append, h.conserves.est, ← he]
    cases s.pipe.front.issue.estOut (s.issueIn i) <;> rfl
  fsm := by
    have hf := RxIssuePipe.fsmOut_eq (q := s.pipe.front.issue) (x := s.issueIn i)
    simp only [step, List.filterMap_append, h.conserves.fsm, ← hf]
  fsmQ := by
    show s.fsmTaken ++ _ ++ (s.pipe.front.fsmQRest ++ _) = s.toFsm ++ _
    rw [← h.conserves.fsmQ]
    unfold RxFront.fsmQRest
    cases s.pipe.front.sys.fsm.hdrRdy
    · simp [issueIn]
    · cases s.pipe.front.fsmQ <;> simp [issueIn]
  taken := by
    show s.pipe.est.log.taken ++ _ = (s.merged ++ _).map Prod.snd
    rw [stallR_estIn, h.conserves.taken, List.map_append]
    congr 1
    unfold RxPipe.estTaken
    cases s.pipe.est.stallR (s.pipe.estEnv i)
    · cases hh : s.pipe.estHdr i <;> simp [RxPipe.estIn, hh]
    · simp
  issued := by
    rw [mergedFrom_step, h.conserves.issued]
    show _ = (s.toEst ++ _).map _
    rw [List.map_append]
    congr 1
    rcases taken_cases (s := s) (i := i) with ⟨hq, -, ht⟩ | ⟨hq, ho, -⟩
    · rw [ht, hq]
      cases s.pipe.front.issue.estOut (s.issueIn i) <;> rfl
    · simp [ho, hq]
  queued := by
    rw [mergedFrom_step]
    show _ ++ (s.pipe.reinjectRest i ++ (s.pipe.reinjected i).toList).map _ =
      (s.reinjected ++ _).map _
    rw [List.map_append, List.map_append, ← h.conserves.queued]
    have hnew : (s.pipe.reinjected i).toList.map ReinjectPkt.estPkt =
        ((s.pipe.reinjected i).map fun p =>
          ({ pkt := p, read := s.fsmReadNow } : Routed)).toList.map fun r => r.pkt.estPkt := by
      cases s.pipe.reinjected i <;> rfl
    rw [hnew]
    rcases taken_cases (s := s) (i := i) with ⟨hq, hrest, -⟩ | ⟨hq, -, ht⟩
    · simp [hq, hrest]
    · simp [← ht, hq]
  plain := by
    intro r hr
    have hr' : r ∈ (s.toEst ++ s.reinjected) ∨
        r ∈ (s.pipe.front.issue.estOut (s.issueIn i)).map
          (fun p => ({ pkt := p, read := s.issueRead } : Routed)) ∨
        r ∈ (s.pipe.reinjected i).map fun p => ({ pkt := p, read := s.fsmReadNow } : Routed) := by
      simp only [step, List.mem_append, Option.mem_toList] at hr ⊢
      tauto
    rcases hr' with hr | hr | hr
    · exact h.conserves.plain r hr
    · obtain ⟨p, hp, rfl⟩ := Option.map_eq_some_iff.mp hr
      obtain ⟨hflags, hrd, hst⟩ := RxIssuePipe.estOut_plain h.read hp
      have hst : s.pipe.front.sys.tcpMem p.flowid = .est := hst
      exact ⟨hflags, by rw [issueRead, hrd, Option.map_some, hst]⟩
    · obtain ⟨p, hp, rfl⟩ := Option.map_eq_some_iff.mp hr
      exact h.reinjected_plain hp

theorem inv_step (h : Inv s) : Inv (s.step i) where
  front := RxFront.inv_step h.front
  fsm := FsmSystem.inv_step h.fsm h.front.issueOk
  read := RxIssuePipe.readInv_step h.read
  reinject := h.reinject_step
  conserves := h.conserves_step

theorem inv_init (h : s.Init) : Inv s := by
  obtain ⟨⟨-, -, hfront, hrq, hest, -, -⟩, ha, hf, hd, he, hfs, hft, hr, hm⟩ := h
  obtain ⟨-, -, -, -, -, -, -, -, -, htaken, -, -⟩ := hest
  have hi := hfront
  obtain ⟨hissue, -, hq, hsys⟩ := hfront
  refine ⟨RxFront.inv_init hi, FsmSystem.inv_init hsys, ?_, ?_, ?_⟩
  · simp [RxIssuePipe.ReadInv, hissue, RxIssuePipe.reset]
  · simp [ReinjectInv, hsys.1, RxFsmPipe.reset]
  · constructor <;>
      simp [ha, hf, hd, he, hfs, hft, hr, hm, hissue, hq, hrq, htaken, RxIssuePipe.reset,
        RxIssuePipe.inFlight, mergedFrom]

/-- Every packet `est_pipe` takes has one of its two sources. -/
theorem Conserves.source (h : Conserves s) {p : EstPkt} (hp : p ∈ s.pipe.est.log.taken) :
    ∃ r ∈ s.toEst ++ s.reinjected, r.pkt.estPkt = p := by
  rw [h.taken] at hp
  obtain ⟨⟨queue, p⟩, hmem, rfl⟩ := List.mem_map.mp hp
  have hfrom : p ∈ s.mergedFrom queue :=
    List.mem_map.mpr ⟨(queue, p), List.mem_filter.mpr ⟨hmem, by simp⟩, rfl⟩
  cases queue with
  | false =>
    rw [h.issued] at hfrom
    obtain ⟨r, hr, he⟩ := List.mem_map.mp hfrom
    exact ⟨r, List.mem_append_left _ hr, he⟩
  | true =>
    have hin := List.mem_append_left (s.pipe.reinjectQ.map ReinjectPkt.estPkt) hfrom
    rw [h.queued] at hin
    obtain ⟨r, hr, he⟩ := List.mem_map.mp hin
    exact ⟨r, List.mem_append_right _ hr, he⟩

/-- In every run packets are conserved on all routes, and `est_pipe` takes only packets without
flags besides ACK and PSH of flows whose state was read as `TCP_EST`. -/
theorem conserves_of_reach (h : Reach Init cycle Free s) : Conserves s ∧
    ∀ p ∈ s.pipe.est.log.taken, onlyAckPsh p.tcpHdr.flags = true ∧
      ∃ r ∈ s.toEst ++ s.reinjected, r.pkt.estPkt = p ∧ r.read = some (p.flowid, .est) := by
  have hi : Inv s := by
    refine h.invariant (fun _ => inv_init) ?_
    intro s i s' hi _ hs
    cases hs
    exact inv_step hi
  refine ⟨hi.conserves, ?_⟩
  intro p hp
  obtain ⟨r, hr, rfl⟩ := hi.conserves.source hp
  obtain ⟨hflags, hread⟩ := hi.conserves.plain r hr
  exact ⟨hflags, r, hr, rfl, hread⟩

def reset : RxRouting where
  pipe := RxPipe.reset
  accepted := []
  fates := []
  drops := []
  toEst := []
  toFsm := []
  fsmTaken := []
  reinjected := []
  merged := []
  fsmRead := none

/-- A handshake, and 60 bytes for the open flow. -/
theorem conserves_of_reach_open : ∃ s, Reach Init cycle Free s ∧
    s.accepted.length = 3 ∧ s.toFsm.length = 2 ∧ s.pipe.est.log.taken.length = 1 ∧
    Conserves s := by
  have hrun : ∃ s, Reach Init cycle Free s ∧ decide (s.accepted.length = 3 ∧
      s.toFsm.length = 2 ∧ s.pipe.est.log.taken.length = 1) = true :=
    Reach.exists_of_run
      (RxPipe.deliver (RxPipe.arrive tcpSyn 100 0 0) 16 ++
        RxPipe.deliver (RxPipe.arrive tcpAck 101 4096 0) 16 ++
        RxPipe.deliver (RxPipe.arrive tcpAck 101 4096 60) 16)
      (s := reset) ⟨RxPipe.reset_init, rfl, rfl, rfl, rfl, rfl, rfl, rfl, rfl⟩
      (by decide +kernel)
  obtain ⟨s, hr, hp⟩ := hrun
  have hp := of_decide_eq_true hp
  exact ⟨s, hr, hp.1, hp.2.1, hp.2.2, (conserves_of_reach hr).1⟩

end RxRouting

end TcpHw
