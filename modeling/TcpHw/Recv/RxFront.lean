import TcpHw.Recv.RxIssuePipe
import TcpHw.Recv.FsmSystem

/-!
# The issue pipe in front of the handshake FSM

`rx_pipe_wrap` joins `flowid_manager`, `rx_issue_pipe` and `rx_fsm_pipe` through a queue of
four packets. Flow IDs are never returned and CAM entries never cleared: these ports are
tied off. Every run of the joined machine is a run of the FSM with its memories, so what
that machine asks of its environment is what `rx_issue_pipe` provides.
-/
namespace TcpHw

open Trace

set_option autoImplicit false

structure RxFront where
  issue : RxIssuePipe
  ids : FlowidManager
  fsmQ : List FsmPkt
  sys : FsmSystem

structure RxFrontIn where
  recv : Option RecvPkt
  estPipeRdy : Bool
  stateRdRdy : Bool
  stateRespVal : Bool
  reinjectFull : Bool
  sendRdy : Bool
  notifRdy : Bool
  rxWr : Option (FlowId × RecvState)
  txWr : Option (FlowId × TxState)

namespace RxFront

variable (s : RxFront) (i : RxFrontIn)

/-- The inputs of the issue pipe, with `tcp_fsm_clear_flowid_val` tied to 0. -/
def issueIn : IssueIn where
  recv := i.recv
  tcpMem := s.sys.tcpMem
  fsmUpdate := s.sys.fsm.stateWr.isSome
  clear := none
  flowidAvail := s.ids.avail
  newFlowid := s.ids.out
  estPipeRdy := i.estPipeRdy
  fsmPipeRdy := decide (s.fsmQ.length < 4)

def alloc : Option FlowId := s.issue.allocNewFlowid (s.issueIn i)

def sysIn : FsmSystemIn where
  hdr := s.fsmQ.head?
  alloc := s.alloc i
  stateRdRdy := i.stateRdRdy
  stateRespVal := i.stateRespVal
  reinjectFull := i.reinjectFull
  sendRdy := i.sendRdy
  notifRdy := i.notifRdy
  rxWr := i.rxWr
  txWr := i.txWr

/-- The queue after the FSM has taken its packet. -/
def fsmQRest : List FsmPkt := if s.sys.fsm.hdrRdy then s.fsmQ.tail else s.fsmQ

/-- One clock edge, with `flowid_ret_val` tied to 0. -/
def step : RxFront where
  issue := s.issue.step (s.issueIn i)
  ids := s.ids.step (s.alloc i).isSome none
  fsmQ := s.fsmQRest ++ (s.issue.fsmOut (s.issueIn i)).toList
  sys := s.sys.step (s.sysIn i)

def cycle (s : RxFront) (i : RxFrontIn) : Option RxFront :=
  if FsmSystem.DataOk s.sys (s.sysIn i) then some (s.step i) else none

def Init (s : RxFront) : Prop :=
  s.issue = RxIssuePipe.reset ∧ s.ids = FlowidManager.reset ∧ s.fsmQ = [] ∧ s.sys.Init

/-! ### The invariant -/

/-- The packets on their way to the FSM, oldest first. -/
def pending : List FsmPkt := s.fsmQ ++ (s.issue.i.map StageI.fsmPkt).toList

/-- The `new_flow` bits of the packets of one flow. -/
def marks (l : List FsmPkt) (f : FlowId) : List Bool :=
  (l.filter fun p => p.flowid = f).map FsmPkt.newFlow

/-- The bits a flow may have on their way to the FSM: the first packet, unless it has been
taken, is marked, and no other is. -/
def Marked (l : FlowLog) (bs : List Bool) : Prop :=
  if l.known then ∃ n, bs = (if l.seen then [] else [true]) ++ List.replicate n false
  else l.seen = false ∧ bs = []

structure Inv (s : RxFront) : Prop where
  reclaimed : s.ids.reclaimed = []
  known : ∀ f, (s.sys.log f).known = true ↔ s.ids.useFifo = true ∨ f < s.ids.flowid
  stageI : ∀ i ∈ s.issue.i, i.alloc = i.newFlow
  stageT : ∀ t ∈ s.issue.t, ∀ f ∈ t.flowid, s.issue.cam f = some t.pkt.tag
  cam : ∀ f, (s.issue.cam f).isSome = true → (s.sys.log f).known = true
  miss : ∀ t ∈ s.issue.t, t.flowid = none → ∀ f, s.issue.cam f ≠ some t.pkt.tag
  unique : ∀ f g tag, s.issue.cam f = some tag → s.issue.cam g = some tag → f = g
  marked : ∀ f, Marked (s.sys.log f) (marks s.pending f)

variable {s i}

theorem marks_append (l l' : List FsmPkt) (f : FlowId) :
    marks (l ++ l') f = marks l f ++ marks l' f := by
  simp [marks]

/-! ### Four moves of the marks -/

theorem Marked.pop {l : FlowLog} {b : Bool} {bs : List Bool} (h : Marked l (b :: bs)) :
    l.known = true ∧ l.seen = !b ∧ Marked { l with seen := true } bs := by
  unfold Marked at h
  split at h
  · rename_i hk
    obtain ⟨n, hn⟩ := h
    cases hs : l.seen
    · simp only [hs, Bool.false_eq_true, if_false, List.singleton_append, List.cons.injEq] at hn
      exact ⟨hk, by simp [hn.1], by simp [Marked, hk, hn.2]⟩
    · simp only [hs, if_true, List.nil_append] at hn
      cases n with
      | zero => cases hn
      | succ n =>
        rw [List.replicate_succ, List.cons.injEq] at hn
        exact ⟨hk, by simp [hn.1], by simp [Marked, hk, hn.2]⟩
  · cases h.2

theorem Marked.push {l : FlowLog} {bs : List Bool} (h : Marked l bs) (hk : l.known = true) :
    Marked l (bs ++ [false]) := by
  simp only [Marked, hk, if_true] at h ⊢
  obtain ⟨n, rfl⟩ := h
  exact ⟨n + 1, by rw [List.append_assoc, ← List.replicate_succ']⟩

theorem Marked.unpush {l : FlowLog} {bs : List Bool} (h : Marked l (bs ++ [false])) :
    Marked l bs := by
  unfold Marked at h ⊢
  split at h
  · rename_i hk
    obtain ⟨n, hn⟩ := h
    simp only [hk, if_true]
    cases n with
    | zero =>
      have hlast := congrArg List.getLast? hn
      cases hs : l.seen <;> simp [hs] at hlast
    | succ n =>
      rw [List.replicate_succ', ← List.append_assoc] at hn
      exact ⟨n, (List.append_inj' hn rfl).1⟩
  · simp at h

theorem Marked.start {l l' : FlowLog} {bs : List Bool} (h : Marked l bs)
    (hk : l.known = false) (hk' : l'.known = true) (hs : l'.seen = l.seen) :
    Marked l' (bs ++ [true]) := by
  simp only [Marked, hk, Bool.false_eq_true, if_false] at h
  simp only [Marked, hk', if_true]
  exact ⟨0, by simp [h.2, hs, h.1]⟩

theorem Marked.congr {l l' : FlowLog} {bs : List Bool} (h : Marked l bs)
    (hk : l'.known = l.known) (hs : l'.seen = l.seen) : Marked l' bs := by
  unfold Marked at h ⊢
  rw [hk, hs]
  exact h

/-! ### What the FSM asks for -/

theorem Inv.alloc_unknown (h : Inv s) {f : FlowId} (ha : s.alloc i = some f) :
    (s.sys.log f).known = false ∧ s.ids.useFifo = false ∧ f = s.ids.flowid := by
  obtain ⟨-, hav, hid, -, -, -⟩ := RxIssuePipe.alloc_cases ha
  have hfifo : s.ids.useFifo = false := by
    by_contra hu
    simp [issueIn, FlowidManager.avail, h.reclaimed, hu] at hav
  have hf : f = s.ids.flowid := by simpa [issueIn, FlowidManager.out, hfifo] using hid
  refine ⟨?_, hfifo, hf⟩
  by_contra hk
  have hlt := (h.known f).mp (by simpa using hk)
  rw [hfifo, hf] at hlt
  simp at hlt

/-- The issue pipe allocates each flow once, and the FSM finds `new_flow` on exactly the
first packet of each flow. -/
theorem Inv.issueOk (h : Inv s) : FsmSystem.IssueOk s.sys (s.sysIn i) := by
  constructor
  · intro f ha
    refine ⟨(h.alloc_unknown ha).1, fun hc => ?_⟩
    obtain ⟨-, -, -, -, -, hup⟩ := RxIssuePipe.alloc_cases ha
    simp [issueIn, RxFsmPipe.stateWr, hc] at hup
  · intro _ p hp
    obtain ⟨l, hl⟩ := List.head?_eq_some_iff.mp hp
    have hm := h.marked p.flowid
    have hmarks : marks s.pending p.flowid = p.newFlow ::
        marks (l ++ (s.issue.i.map StageI.fsmPkt).toList) p.flowid := by
      simp [pending, hl, marks]
    rw [hmarks] at hm
    exact ⟨hm.pop.1, hm.pop.2.1⟩

/-! ### The marks of one flow over a cycle -/

/-- The FSM takes the oldest packet of the queue in this cycle and it belongs to `f`. -/
def Takes (s : RxFront) (f : FlowId) : Prop :=
  s.sys.fsm.ctrl = .ready ∧ s.fsmQ.head?.map FsmPkt.flowid = some f

instance (s : RxFront) (f : FlowId) : Decidable (Takes s f) :=
  inferInstanceAs (Decidable (_ ∧ _))

theorem seen_step (h : Inv s) (f : FlowId) :
    ((s.step i).sys.log f).seen = ((s.sys.log f).seen || decide (Takes s f)) := by
  change ((s.sys.step (s.sysIn i)).log f).seen = _
  by_cases ha : s.alloc i = some f
  · rw [FsmSystem.log_alloc ha]
    have hno : ¬ Takes s f := by
      rintro ⟨hr, hhead⟩
      obtain ⟨p, hp, rfl⟩ := Option.map_eq_some_iff.mp hhead
      have hk := (h.issueOk (i := i)).2 hr p hp
      rw [(h.alloc_unknown ha).1] at hk
      cases hk.1
    simp [hno]
  · rw [FsmSystem.log_step (i := s.sysIn i) ha]
    by_cases hr : s.sys.fsm.ctrl = .ready
    · rw [if_pos hr]
      change (if s.fsmQ.head?.map FsmPkt.flowid = some f then _ else _ : FlowLog).seen = _
      by_cases hp : s.fsmQ.head?.map FsmPkt.flowid = some f
      · simp [Takes, hr, hp]
      · simp [Takes, hp]
    · rw [if_neg hr]
      have hno : ¬ Takes s f := fun ht => hr ht.1
      split
      · simp [FsmSystem.logFsm_seen, hno]
      · simp [hno]

theorem known_step (f : FlowId) :
    ((s.step i).sys.log f).known = ((s.sys.log f).known || decide (s.alloc i = some f)) := by
  change ((s.sys.step (s.sysIn i)).log f).known = _
  by_cases ha : s.alloc i = some f
  · rw [FsmSystem.log_alloc ha]
    simp [ha]
  · rw [FsmSystem.known_step (i := s.sysIn i) ha]
    simp [ha]

/-- The packet of stage I, when it is still on its way to the FSM after the cycle. -/
def moved (s : RxFront) (i : RxFrontIn) : List FsmPkt :=
  (s.issue.fsmOut (s.issueIn i)).toList ++
    if s.issue.stallI (s.issueIn i) then (s.issue.i.map StageI.fsmPkt).toList else []

/-- The packet that enters stage I. -/
def entered (s : RxFront) (i : RxFrontIn) : Option StageI :=
  if s.issue.stallI (s.issueIn i) then none else s.issue.stageINext (s.issueIn i)

theorem pending_step : (s.step i).pending =
    s.fsmQRest ++ s.moved i ++ ((s.entered i).map StageI.fsmPkt).toList := by
  have hi : (s.step i).issue.i =
      if s.issue.stallI (s.issueIn i) then s.issue.i else s.issue.stageINext (s.issueIn i) := rfl
  have hq : (s.step i).fsmQ = s.fsmQRest ++ (s.issue.fsmOut (s.issueIn i)).toList := rfl
  simp only [pending, moved, entered, hi, hq]
  split <;> simp

theorem Inv.marked_taken (h : Inv s) (f : FlowId) {l : FlowLog}
    (hk : l.known = (s.sys.log f).known)
    (hs : l.seen = ((s.sys.log f).seen || decide (Takes s f))) :
    Marked l (marks (s.fsmQRest ++ (s.issue.i.map StageI.fsmPkt).toList) f) := by
  have hm := h.marked f
  unfold pending at hm
  by_cases ht : Takes s f
  · obtain ⟨hr, hhead⟩ := ht
    obtain ⟨p, hp, rfl⟩ := Option.map_eq_some_iff.mp hhead
    obtain ⟨q, hq⟩ := List.head?_eq_some_iff.mp hp
    have hrest : s.fsmQRest = q := by simp [fsmQRest, RxFsmPipe.hdrRdy, hr, hq]
    rw [hq] at hm
    have hcons : marks (p :: q ++ (s.issue.i.map StageI.fsmPkt).toList) p.flowid =
        p.newFlow :: marks (q ++ (s.issue.i.map StageI.fsmPkt).toList) p.flowid := by
      simp [marks]
    rw [hcons] at hm
    rw [hrest]
    exact hm.pop.2.2.congr hk (by simp [hs, Takes, hr, hp])
  · have hrest : marks s.fsmQRest f = marks s.fsmQ f := by
      unfold fsmQRest RxFsmPipe.hdrRdy
      by_cases hr : s.sys.fsm.ctrl = .ready
      · cases hq : s.fsmQ with
        | nil => simp
        | cons p q =>
          have hne : p.flowid ≠ f := fun he => ht ⟨hr, by simp [hq, he]⟩
          simp [hr, marks, hne]
      · simp [hr]
    rw [marks_append] at hm ⊢
    rw [hrest]
    exact hm.congr hk (by simp [hs, ht])

theorem Inv.marked_moved (h : Inv s) (f : FlowId) {l : FlowLog}
    (hm : Marked l (marks (s.fsmQRest ++ (s.issue.i.map StageI.fsmPkt).toList) f)) :
    Marked l (marks (s.fsmQRest ++ s.moved i) f) := by
  cases hi : s.issue.i with
  | none => simpa [moved, RxIssuePipe.fsmOut, RxIssuePipe.issued, hi] using hm
  | some x =>
    cases hs : s.issue.stallI (s.issueIn i)
    · cases ho : s.issue.fsmOut (s.issueIn i) with
      | some p =>
        have hp : p = x.fsmPkt := by
          simp only [RxIssuePipe.fsmOut, RxIssuePipe.issued, hs, hi] at ho
          obtain ⟨y, hy, rfl⟩ := Option.map_eq_some_iff.mp ho
          have he : some x = some y := (Option.filter_eq_some_iff.mp hy).1
          cases he
          rfl
        simpa [moved, ho, hs, hi, hp] using hm
      | none =>
        have hnew : x.newFlow = false := by
          by_contra hn
          have ha : x.alloc = true := by
            rw [h.stageI x hi]
            simpa using hn
          rw [RxIssuePipe.fsmOut_of_alloc hi ha hs] at ho
          cases ho
        rw [hi, marks_append] at hm
        by_cases hf : x.flowid = f
        · have hb : marks (Option.map StageI.fsmPkt (some x)).toList f = [false] := by
            simp [marks, StageI.fsmPkt, hf, hnew]
          rw [hb] at hm
          simpa [moved, ho, hs] using hm.unpush
        · have hb : marks (Option.map StageI.fsmPkt (some x)).toList f = [] := by
            simp [marks, StageI.fsmPkt, hf]
          rw [hb] at hm
          simpa [moved, ho, hs] using hm
    · have ho : s.issue.fsmOut (s.issueIn i) = none := by
        simp [RxIssuePipe.fsmOut, RxIssuePipe.issued, hs]
      simpa [moved, ho, hs, hi] using hm

theorem Inv.marked_step (h : Inv s) (f : FlowId) :
    Marked ((s.step i).sys.log f) (marks (s.step i).pending f) := by
  have hseen := seen_step (i := i) h f
  have hknown := known_step (s := s) (i := i) f
  rw [pending_step, marks_append]
  cases he : s.entered i with
  | none =>
    have ha : s.alloc i ≠ some f := by
      intro ha
      obtain ⟨x, hx, -⟩ := RxIssuePipe.stageINext_of_alloc ha
      simp [entered, (RxIssuePipe.alloc_cases ha).2.2.2.2.1, hx] at he
    simp only [ha, decide_false, Bool.or_false] at hknown
    simpa [marks] using h.marked_moved f (h.marked_taken f hknown hseen)
  | some x =>
    have hx : s.issue.stageINext (s.issueIn i) = some x := by
      unfold entered at he
      split at he
      · cases he
      · exact he
    obtain ⟨-, t, ht, -, hcase⟩ := RxIssuePipe.stageINext_cases hx
    by_cases hf : x.flowid = f
    · subst hf
      rcases hcase with ⟨-, ha, hn, -⟩ | ⟨hid, ha, hn, -⟩
      · have ha' : s.alloc i = some x.flowid := ha
        have hb : marks (Option.map StageI.fsmPkt (some x)).toList x.flowid = [true] := by
          simp [marks, StageI.fsmPkt, hn]
        rw [hb]
        have hm := h.marked_moved (i := i) x.flowid
          (h.marked_taken (l := { (s.step i).sys.log x.flowid with known := false })
            x.flowid (h.alloc_unknown ha').1.symm hseen)
        exact hm.start rfl (by rw [hknown]; simp [ha']) rfl
      · have ha' : s.alloc i = none := ha
        have hb : marks (Option.map StageI.fsmPkt (some x)).toList x.flowid = [false] := by
          simp [marks, StageI.fsmPkt, hn]
        have hk : (s.sys.log x.flowid).known = true :=
          h.cam _ (by rw [h.stageT t ht _ hid]; rfl)
        rw [hb]
        simp only [ha', reduceCtorEq, decide_false, Bool.or_false] at hknown
        exact (h.marked_moved x.flowid (h.marked_taken x.flowid hknown hseen)).push
          (hknown.trans hk)
    · have hb : marks (Option.map StageI.fsmPkt (some x)).toList f = [] := by
        simp [marks, StageI.fsmPkt, hf]
      have ha : s.alloc i ≠ some f := by
        intro ha
        obtain ⟨y, hy, hfy, -⟩ := RxIssuePipe.stageINext_of_alloc ha
        rw [hx] at hy
        cases hy
        exact hf hfy
      simp only [ha, decide_false, Bool.or_false] at hknown
      rw [hb, List.append_nil]
      exact h.marked_moved f (h.marked_taken f hknown hseen)

/-! ### The CAM and the flow IDs -/

theorem camNext_of_ne {f : FlowId} (ha : s.alloc i ≠ some f) :
    (s.step i).issue.cam f = s.issue.cam f := by
  change s.issue.camNext (s.issueIn i) f = _
  unfold RxIssuePipe.camNext
  cases hg : s.issue.allocNewFlowid (s.issueIn i) with
  | none => rfl
  | some g =>
    have hne : f ≠ g := fun he => ha (he ▸ hg)
    simp [issueIn, hne]

/-- The entry of an assigned flow ID stays. -/
theorem Inv.cam_step (h : Inv s) {f : FlowId} {tag : FourTuple}
    (hc : s.issue.cam f = some tag) : (s.step i).issue.cam f = some tag := by
  have hk := h.cam f (by rw [hc]; rfl)
  rw [camNext_of_ne, hc]
  intro ha
  rw [(h.alloc_unknown ha).1] at hk
  cases hk

theorem camNext_of_alloc {f : FlowId} (ha : s.alloc i = some f) :
    (s.step i).issue.cam f = s.issue.t.map (·.pkt.tag) := by
  have ha' : s.issue.allocNewFlowid (s.issueIn i) = some f := ha
  change s.issue.camNext (s.issueIn i) f = _
  unfold RxIssuePipe.camNext
  rw [ha']
  simp [issueIn]

private theorem lt_next (f g : FlowId) : f < g ∨ g = f ↔ g = 15 ∨ f < g + 1 := by
  revert f g
  decide

theorem Inv.ids_step (h : Inv s) (f : FlowId) :
    ((s.step i).sys.log f).known = true ↔
      (s.step i).ids.useFifo = true ∨ f < (s.step i).ids.flowid := by
  rw [known_step]
  change _ ↔ (s.ids.step (s.alloc i).isSome none).useFifo = true ∨
    f < (s.ids.step (s.alloc i).isSome none).flowid
  have hk := h.known f
  cases ha : s.alloc i with
  | none => simpa [FlowidManager.step] using hk
  | some g =>
    obtain ⟨-, hu, rfl⟩ := h.alloc_unknown ha
    rw [hu] at hk
    simp only [Bool.false_eq_true, false_or] at hk
    simpa [FlowidManager.step, hk] using lt_next f s.ids.flowid

theorem Inv.stageT_step (h : Inv s) :
    ∀ t ∈ (s.step i).issue.t, ∀ f ∈ t.flowid, (s.step i).issue.cam f = some t.pkt.tag := by
  intro t ht f hf
  have ht' : (if s.issue.stallT (s.issueIn i) then s.issue.t
    else s.issue.f.map fun p =>
      { pkt := p, flowid := s.issue.flowidNext (s.issueIn i) p }) = some t := ht
  split at ht'
  · exact h.cam_step (h.stageT t ht' f hf)
  · obtain ⟨p, -, rfl⟩ := Option.map_eq_some_iff.mp ht'
    have hf' : s.issue.flowidNext (s.issueIn i) p = some f := hf
    unfold RxIssuePipe.flowidNext at hf'
    split at hf'
    · rename_i hb
      rw [camNext_of_alloc (i := i) hf']
      exact hb.2
    · exact h.cam_step (RxIssuePipe.camLookup_some hf')

/-- A tag that is in no entry after the lookup of stage F is in none after the cycle. -/
theorem Inv.miss_step (h : Inv s) :
    ∀ t ∈ (s.step i).issue.t, t.flowid = none →
      ∀ f, (s.step i).issue.cam f ≠ some t.pkt.tag := by
  intro t ht hn f hc
  have ht' : (if s.issue.stallT (s.issueIn i) then s.issue.t
    else s.issue.f.map fun p =>
      { pkt := p, flowid := s.issue.flowidNext (s.issueIn i) p }) = some t := ht
  by_cases ha : s.alloc i = some f
  · rw [camNext_of_alloc ha] at hc
    rw [if_neg (by simp [(RxIssuePipe.alloc_cases ha).2.2.2.1])] at ht'
    obtain ⟨p, -, rfl⟩ := Option.map_eq_some_iff.mp ht'
    have ha' : s.issue.allocNewFlowid (s.issueIn i) = some f := ha
    simp only [RxIssuePipe.flowidNext, ha', hc, Option.isSome_some, and_self, if_true] at hn
    cases hn
  · rw [camNext_of_ne ha] at hc
    split at ht'
    · exact h.miss t ht' hn f hc
    · obtain ⟨p, -, rfl⟩ := Option.map_eq_some_iff.mp ht'
      have hn' : s.issue.flowidNext (s.issueIn i) p = none := hn
      unfold RxIssuePipe.flowidNext at hn'
      split at hn'
      · rename_i hb
        rw [hn'] at hb
        cases hb.1
      · exact RxIssuePipe.camLookup_none hn' f hc

theorem Inv.unique_step (h : Inv s) (f g : FlowId) (tag : FourTuple)
    (hf : (s.step i).issue.cam f = some tag) (hg : (s.step i).issue.cam g = some tag) :
    f = g := by
  have hnew : ∀ a b, s.alloc i = some a → (s.step i).issue.cam a = some tag →
      (s.step i).issue.cam b = some tag → a = b := by
    intro a b ha hca hcb
    by_contra hne
    rw [camNext_of_ne (by rw [ha]; simpa using hne)] at hcb
    obtain ⟨⟨p, ht⟩, -⟩ := RxIssuePipe.alloc_cases ha
    rw [camNext_of_alloc ha, ht] at hca
    exact h.miss _ ht rfl b (hcb.trans hca.symm)
  by_cases ha : s.alloc i = some f
  · exact hnew f g ha hf hg
  · by_cases hb : s.alloc i = some g
    · exact (hnew g f hb hg hf).symm
    · rw [camNext_of_ne ha] at hf
      rw [camNext_of_ne hb] at hg
      exact h.unique f g tag hf hg

theorem inv_step (h : Inv s) : Inv (s.step i) := by
  refine ⟨?_, h.ids_step, ?_, h.stageT_step, ?_, h.miss_step, h.unique_step, h.marked_step⟩
  · have hr : (s.step i).ids.reclaimed = (s.ids.step (s.alloc i).isSome none).reclaimed := rfl
    simp [hr, FlowidManager.step, h.reclaimed]
  · intro x hx
    have hx' : (if s.issue.stallI (s.issueIn i) then s.issue.i
      else s.issue.stageINext (s.issueIn i)) = some x := hx
    split at hx'
    · exact h.stageI x hx'
    · obtain ⟨-, t, -, -, hc⟩ := RxIssuePipe.stageINext_cases hx'
      rcases hc with ⟨-, -, hn, ha⟩ | ⟨-, -, hn, ha⟩ <;> rw [hn, ha]
  · intro f hf
    rw [known_step]
    by_cases ha : s.alloc i = some f
    · simp [ha]
    · rw [camNext_of_ne ha] at hf
      simp [h.cam f hf]

theorem inv_init (h : s.Init) : Inv s := by
  obtain ⟨hi, hm, hq, -, -, -, hl⟩ := h
  constructor <;>
    simp [hi, hm, hq, hl, RxIssuePipe.reset, FlowidManager.reset, FsmSystem.emptyLog, pending,
      Marked, marks]

theorem cycle_eq_some {s' : RxFront} (h : cycle s i = some s') :
    FsmSystem.DataOk s.sys (s.sysIn i) ∧ s' = s.step i := by
  simp only [cycle, Option.ite_none_right_eq_some, Option.some.injEq] at h
  exact ⟨h.1, h.2.symm⟩

theorem inv_of_reach {ok : RxFront → RxFrontIn → Prop} (h : Reach Init cycle ok s) : Inv s := by
  refine h.invariant (fun _ => inv_init) ?_
  intro s i s' hi _ hs
  obtain ⟨-, rfl⟩ := cycle_eq_some hs
  exact inv_step hi

/-- Every run of the joined machine is a run of the FSM with its memories. -/
theorem reach_sys {ok : FsmSystem → FsmSystemIn → Prop}
    (h : Reach Init cycle (fun s i => ok s.sys (s.sysIn i)) s) :
    Reach FsmSystem.Init FsmSystem.cycle ok s.sys := by
  induction h with
  | start h0 => exact .start h0.2.2.2
  | next i hr hok hs ih =>
    obtain ⟨hd, rfl⟩ := cycle_eq_some hs
    exact ih.next _ hok (if_pos ⟨(inv_of_reach hr).issueOk, hd⟩)

/-! ### Fixed runs -/

def reset : RxFront where
  issue := RxIssuePipe.reset
  ids := FlowidManager.reset
  fsmQ := []
  sys := FsmSystem.reset

theorem reset_init : reset.Init := ⟨rfl, rfl, rfl, FsmSystem.reset_init⟩

/-- A cycle in which every neighbour is ready. -/
def smooth (recv : Option RecvPkt) : RxFrontIn where
  recv := recv
  estPipeRdy := true
  stateRdRdy := true
  stateRespVal := true
  reinjectFull := false
  sendRdy := true
  notifRdy := true
  rxWr := none
  txWr := none

/-- A packet without payload of one fixed four-tuple. -/
def recvOf (flags : BitVec 9) (seqNum ackNum : BitVec 32) : RecvPkt :=
  { (default : RecvPkt) with
    srcIp := 7
    dstIp := 8
    tcpHdr :=
      { (default : TcpPktHdr) with flags := flags, seqNum := seqNum, ackNum := ackNum } }

/-- A packet received and twelve cycles for it to pass. -/
def deliver (p : RecvPkt) : List RxFrontIn :=
  smooth (some p) :: List.replicate 12 (smooth none)

end RxFront

end TcpHw
