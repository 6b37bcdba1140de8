import TcpHw.Recv.RxFront

/-!
# One flow ID for one four-tuple

`rx_issue_pipe` by itself: the packets, the readiness of the pipes behind it, the writes of
the FSM and the contents of the TCP state memory are free. CAM entries are not cleared, as
`rx_pipe_wrap` ties that port off, and a flow ID is handed out only when no entry of the
CAM holds it.
-/
namespace TcpHw

open Trace

set_option autoImplicit false

/-- The pipe and the packets that have left stage I, oldest first. -/
structure IssueRun where
  q : RxIssuePipe
  left : List StageI

namespace IssueRun

def step (s : IssueRun) (x : IssueIn) : IssueRun where
  q := s.q.step x
  left := s.left ++ (s.q.issued x).toList

def cycle (s : IssueRun) (x : IssueIn) : Option IssueRun :=
  if x.clear = none ∧ ∀ f ∈ s.q.allocNewFlowid x, s.q.cam f = none then some (s.step x) else none

def Init (s : IssueRun) : Prop := s.q = RxIssuePipe.reset ∧ s.left = []

/-- The packets of one four-tuple. -/
def ofTag (l : List StageI) (tag : FourTuple) : List StageI :=
  l.filter fun a => a.pkt.tag = tag

/-- Flow IDs and four-tuples correspond one to one on the packets that have left and in the CAM,
and of each four-tuple's packets the first is marked as a new flow and no other. -/
structure Unique (s : IssueRun) : Prop where
  same : ∀ a ∈ s.left, ∀ b ∈ s.left, a.pkt.tag = b.pkt.tag → a.flowid = b.flowid
  apart : ∀ a ∈ s.left, ∀ b ∈ s.left, a.pkt.tag ≠ b.pkt.tag → a.flowid ≠ b.flowid
  cam : ∀ f g tag, s.q.cam f = some tag → s.q.cam g = some tag → f = g
  first : ∀ tag, ofTag s.left tag ≠ [] → ∃ n,
    (ofTag s.left tag).map StageI.newFlow = true :: List.replicate n false

/-! ### The invariant -/

/-- The packets that have left or are about to leave. -/
def issued (s : IssueRun) : List StageI := s.left ++ s.q.i.toList

/-- The `new_flow` bits of a four-tuple follow from whether it is in the CAM. -/
def Marks (s : IssueRun) (tag : FourTuple) : Prop :=
  if ∃ f, s.q.cam f = some tag then
    ∃ n, (ofTag s.issued tag).map StageI.newFlow = true :: List.replicate n false
  else ofTag s.issued tag = []

structure Inv (s : IssueRun) : Prop where
  assigned : ∀ a ∈ s.issued, s.q.cam a.flowid = some a.pkt.tag
  stageT : ∀ t ∈ s.q.t, ∀ f ∈ t.flowid, s.q.cam f = some t.pkt.tag
  miss : ∀ t ∈ s.q.t, t.flowid = none → ∀ f, s.q.cam f ≠ some t.pkt.tag
  unique : ∀ f g tag, s.q.cam f = some tag → s.q.cam g = some tag → f = g
  marks : ∀ tag, Marks s tag

variable {s : IssueRun} {x : IssueIn}

/-- Stage I hands on what stage T has handed to it, in order and without loss. -/
theorem issued_step : (s.step x).issued = s.issued ++ (s.q.stageINext x).toList := by
  simp only [issued, step, RxIssuePipe.step, RxIssuePipe.issued]
  cases hI : s.q.stallI x with
  | false => simp
  | true =>
    have hnext : s.q.stageINext x = none := by
      cases ht : s.q.t with
      | none => simp [RxIssuePipe.stageINext, ht]
      | some t =>
        have hT : s.q.stallT x = true := by simp [RxIssuePipe.stallT, ht, hI]
        simp [RxIssuePipe.stageINext, hT]
    simp [hnext]

theorem cam_of_alloc (hc : x.clear = none) {f : FlowId} (ha : s.q.allocNewFlowid x = some f) :
    (s.step x).q.cam = Function.update s.q.cam f (s.q.t.map fun t => t.pkt.tag) := by
  show s.q.camNext x = _
  simp [RxIssuePipe.camNext, hc, ha]

theorem cam_of_no_alloc (hc : x.clear = none) (ha : s.q.allocNewFlowid x = none) :
    (s.step x).q.cam = s.q.cam := by
  show s.q.camNext x = _
  simp [RxIssuePipe.camNext, hc, ha]

/-- Entries of the CAM stay. -/
theorem cam_step (hc : x.clear = none) (hn : ∀ f ∈ s.q.allocNewFlowid x, s.q.cam f = none)
    {f : FlowId} {tag : FourTuple} (h : s.q.cam f = some tag) :
    (s.step x).q.cam f = some tag := by
  cases ha : s.q.allocNewFlowid x with
  | none => rw [cam_of_no_alloc hc ha, h]
  | some g =>
    have hne : f ≠ g := by
      rintro rfl
      rw [hn f ha] at h
      cases h
    rw [cam_of_alloc hc ha, Function.update_of_ne hne, h]

/-- An entry of the CAM is an old one, or the one of the packet in stage T. -/
theorem cam_step_cases (hc : x.clear = none) {f : FlowId} {tag : FourTuple}
    (h : (s.step x).q.cam f = some tag) :
    s.q.cam f = some tag ∨ (s.q.allocNewFlowid x = some f ∧
      ∃ p, s.q.t = some { pkt := p, flowid := none } ∧ p.tag = tag) := by
  cases ha : s.q.allocNewFlowid x with
  | none =>
    rw [cam_of_no_alloc hc ha] at h
    exact .inl h
  | some g =>
    rw [cam_of_alloc hc ha] at h
    by_cases hfg : f = g
    · subst hfg
      obtain ⟨⟨p, ht⟩, -⟩ := RxIssuePipe.alloc_cases ha
      rw [Function.update_self, ht] at h
      exact .inr ⟨rfl, p, ht, by simpa using h⟩
    · rw [Function.update_of_ne hfg] at h
      exact .inl h

/-- The packet that enters stage I has an entry in the CAM: a new one, or one it was found
with. -/
theorem Inv.stageINext_assigned (h : Inv s) (hc : x.clear = none)
    (hn : ∀ f ∈ s.q.allocNewFlowid x, s.q.cam f = none) {a : StageI}
    (ha : s.q.stageINext x = some a) : (s.step x).q.cam a.flowid = some a.pkt.tag := by
  obtain ⟨-, t, ht, hp, hcase⟩ := RxIssuePipe.stageINext_cases ha
  rcases hcase with ⟨-, halloc, -, -⟩ | ⟨hid, -, -, -⟩
  · rw [cam_of_alloc hc halloc, Function.update_self, ht, hp]
    rfl
  · rw [hp]
    exact cam_step hc hn (h.stageT t ht _ hid)

theorem Inv.unique_step (h : Inv s) (hc : x.clear = none) (f g : FlowId) (tag : FourTuple)
    (hf : (s.step x).q.cam f = some tag) (hg : (s.step x).q.cam g = some tag) : f = g := by
  rcases cam_step_cases hc hf with hf | ⟨haf, p, hp, rfl⟩ <;>
    rcases cam_step_cases hc hg with hg | ⟨hag, p', hp', ht⟩
  · exact h.unique f g tag hf hg
  · exact absurd (ht ▸ hf) (h.miss _ hp' rfl f)
  · exact absurd hg (h.miss _ hp rfl g)
  · rw [haf] at hag
    exact Option.some.inj hag

/-- The lookup in stage F sees an allocation that is made in the same cycle. -/
theorem Inv.stageT_step (h : Inv s) (hc : x.clear = none)
    (hn : ∀ f ∈ s.q.allocNewFlowid x, s.q.cam f = none) {t : StageT}
    (ht : (s.step x).q.t = some t) :
    (∀ f ∈ t.flowid, (s.step x).q.cam f = some t.pkt.tag) ∧
      (t.flowid = none → ∀ f, (s.step x).q.cam f ≠ some t.pkt.tag) := by
  have ht' : (if s.q.stallT x then s.q.t
    else s.q.f.map fun p => { pkt := p, flowid := s.q.flowidNext x p }) = some t := ht
  split_ifs at ht' with hT
  · have ha : s.q.allocNewFlowid x = none := by simp [RxIssuePipe.allocNewFlowid, hT]
    rw [cam_of_no_alloc hc ha]
    exact ⟨h.stageT t ht', h.miss t ht'⟩
  · obtain ⟨p, -, rfl⟩ := Option.map_eq_some_iff.mp ht'
    by_cases hbyp : (s.q.allocNewFlowid x).isSome ∧ s.q.t.map (·.pkt.tag) = some p.tag
    · obtain ⟨f, ha⟩ := Option.isSome_iff_exists.mp hbyp.1
      have hid : s.q.flowidNext x p = some f := by
        rw [RxIssuePipe.flowidNext, if_pos hbyp, ha]
      rw [hid]
      refine ⟨?_, (fun h => by cases h)⟩
      intro g hg
      cases hg
      rw [cam_of_alloc hc ha, Function.update_self, hbyp.2]
    · have hid : s.q.flowidNext x p = camLookup s.q.cam p.tag := by
        rw [RxIssuePipe.flowidNext, if_neg hbyp]
      rw [hid]
      constructor
      · intro f hf
        exact cam_step hc hn (RxIssuePipe.camLookup_some hf)
      · intro hmiss f hf
        rcases cam_step_cases hc hf with hf | ⟨ha, p', hp', htag⟩
        · exact RxIssuePipe.camLookup_none hmiss f hf
        · exact hbyp ⟨by simp [ha], by simp [hp', htag]⟩

theorem Inv.marks_step (h : Inv s) (hc : x.clear = none)
    (hn : ∀ f ∈ s.q.allocNewFlowid x, s.q.cam f = none) (tag : FourTuple) :
    Marks (s.step x) tag := by
  have hm := h.marks tag
  unfold Marks at hm ⊢
  rw [issued_step, ofTag, List.filter_append]
  cases hnext : s.q.stageINext x with
  | none =>
    -- nothing was allocated either
    have ha : s.q.allocNewFlowid x = none := by
      cases ha : s.q.allocNewFlowid x with
      | none => rfl
      | some f =>
        obtain ⟨j, hj, -⟩ := RxIssuePipe.stageINext_of_alloc ha
        rw [hnext] at hj
        cases hj
    rw [cam_of_no_alloc hc ha]
    simpa [ofTag] using hm
  | some a =>
    have hassigned := h.stageINext_assigned hc hn hnext
    by_cases htag : a.pkt.tag = tag
    · have hcam : ∃ f, (s.step x).q.cam f = some tag := ⟨a.flowid, htag ▸ hassigned⟩
      rw [if_pos hcam]
      simp only [Option.toList_some, List.filter_singleton, htag, decide_true, cond_true,
        List.map_append, List.map_singleton]
      obtain ⟨-, t, ht, hp, hcase⟩ := RxIssuePipe.stageINext_cases hnext
      rcases hcase with ⟨hid, -, hnew, -⟩ | ⟨hid, -, hnew, -⟩
      · have hno : ¬ ∃ f, s.q.cam f = some tag := by
          rintro ⟨f, hf⟩
          exact h.miss t ht hid f (by rw [hf, ← htag, hp])
        rw [if_neg hno] at hm
        exact ⟨0, by rw [← ofTag, hm, hnew]; rfl⟩
      · have hyes : ∃ f, s.q.cam f = some tag :=
          ⟨a.flowid, by rw [h.stageT t ht _ hid, ← htag, hp]⟩
        rw [if_pos hyes] at hm
        obtain ⟨n, hm⟩ := hm
        refine ⟨n + 1, ?_⟩
        rw [← ofTag, hm, hnew, List.cons_append, ← List.replicate_succ']
    · have hsame : (∃ f, (s.step x).q.cam f = some tag) ↔ ∃ f, s.q.cam f = some tag := by
        constructor
        · rintro ⟨f, hf⟩
          rcases cam_step_cases hc hf with hf | ⟨ha, p, hp, hpt⟩
          · exact ⟨f, hf⟩
          · obtain ⟨-, t, ht, hpk, -⟩ := RxIssuePipe.stageINext_cases hnext
            rw [hp] at ht
            cases ht
            exact absurd (hpk ▸ hpt) htag
        · rintro ⟨f, hf⟩
          exact ⟨f, cam_step hc hn hf⟩
      simp only [hsame, Option.toList_some, List.filter_singleton, htag, decide_false,
        cond_false, List.append_nil]
      exact hm

theorem inv_step (h : Inv s) (hc : x.clear = none)
    (hn : ∀ f ∈ s.q.allocNewFlowid x, s.q.cam f = none) : Inv (s.step x) := by
  refine ⟨?_, fun t ht => (h.stageT_step hc hn ht).1, fun t ht => (h.stageT_step hc hn ht).2,
    h.unique_step hc, h.marks_step hc hn⟩
  intro a ha
  rw [issued_step] at ha
  rcases List.mem_append.mp ha with ha | ha
  · exact cam_step hc hn (h.assigned a ha)
  · exact h.stageINext_assigned hc hn (Option.mem_toList.mp ha)

theorem inv_init (h : s.Init) : Inv s := by
  obtain ⟨hq, hl⟩ := h
  constructor <;> simp [issued, hq, hl, RxIssuePipe.reset, Marks, ofTag]

theorem inv_of_reach (h : Reach Init cycle Free s) : Inv s := by
  refine h.invariant (fun _ => inv_init) ?_
  intro s x s' hi _ hs
  simp only [cycle, Option.ite_none_right_eq_some, Option.some.injEq] at hs
  obtain ⟨⟨hc, hn⟩, rfl⟩ := hs
  exact inv_step hi hc hn

/-- A packet still in stage I comes after all that have left. -/
theorem Inv.first (h : Inv s) {tag : FourTuple} (hne : ofTag s.left tag ≠ []) :
    ∃ n, (ofTag s.left tag).map StageI.newFlow = true :: List.replicate n false := by
  have hsplit : ofTag s.issued tag = ofTag s.left tag ++ ofTag s.q.i.toList tag := by
    simp [ofTag, issued]
  have hm := h.marks tag
  unfold Marks at hm
  rw [hsplit] at hm
  split_ifs at hm
  · obtain ⟨n, hm⟩ := hm
    rw [List.map_append] at hm
    cases hl : (ofTag s.left tag).map StageI.newFlow with
    | nil => exact absurd (List.map_eq_nil_iff.mp hl) hne
    | cons b l =>
      rw [hl, List.cons_append, List.cons.injEq] at hm
      obtain ⟨rfl, hm⟩ := hm
      have hrest : l = List.replicate l.length false := (List.append_eq_replicate_iff.mp hm).2.1
      exact ⟨l.length, congrArg (true :: ·) hrest⟩
  · exact absurd (List.append_eq_nil_iff.mp hm).1 hne

/-- In every run flow IDs and four-tuples correspond one to one. -/
theorem flowids_unique (h : Reach Init cycle Free s) : Unique s := by
  have hi := inv_of_reach h
  have hcam : ∀ a ∈ s.left, s.q.cam a.flowid = some a.pkt.tag := fun a ha =>
    hi.assigned a (List.mem_append_left _ ha)
  refine ⟨?_, ?_, hi.unique, fun tag => hi.first⟩
  · intro a ha b hb htag
    exact hi.unique _ _ _ (hcam a ha) (htag ▸ hcam b hb)
  · intro a ha b hb htag hid
    have he := hcam a ha
    rw [hid, hcam b hb] at he
    exact htag (Option.some.inj he).symm

/-! ### A fixed run -/

/-- A cycle with every neighbour ready and `f` the next flow ID. -/
def smooth (recv : Option RecvPkt) (f : FlowId) : IssueIn where
  recv := recv
  tcpMem _ := .none
  fsmUpdate := false
  clear := none
  flowidAvail := true
  newFlowid := f
  estPipeRdy := true
  fsmPipeRdy := true

/-- Two adjacent packets of one new four-tuple, and one of another. -/
theorem flowids_unique_adjacent : ∃ s, Reach Init cycle Free s ∧
    s.left.map (fun a => (a.flowid, a.newFlow)) = [(0, true), (0, false), (1, true)] ∧
    Unique s := by
  have hrun : ∃ s, Reach Init cycle Free s ∧
      decide (s.left.map (fun a => (a.flowid, a.newFlow)) =
        [(0, true), (0, false), (1, true)]) = true :=
    Reach.exists_of_run
      [smooth (some (RxFront.recvOf tcpSyn 100 0)) 0, smooth (some (RxFront.recvOf tcpAck 101 0)) 0,
        smooth (some { RxFront.recvOf tcpSyn 7 0 with srcIp := 9 }) 0, smooth none 1, smooth none 1,
        smooth none 2, smooth none 2]
      (s := { q := RxIssuePipe.reset, left := [] }) ⟨rfl, rfl⟩ (by decide +kernel)
  obtain ⟨s, hr, hp⟩ := hrun
  exact ⟨s, hr, of_decide_eq_true hp, flowids_unique hr⟩

/-! ### `flowid_manager` hands out fresh flow IDs -/

/-- Every run behind the real `flowid_manager` is one of these. -/
theorem reach_of_rxFront {r : RxFront} {ok : RxFront → RxFrontIn → Prop}
    (h : Reach RxFront.Init RxFront.cycle ok r) :
    ∃ left, Reach Init cycle Free { q := r.issue, left := left } := by
  induction h with
  | start h0 => exact ⟨[], .start ⟨h0.1, rfl⟩⟩
  | @next r _ i hr _ hs ih =>
    obtain ⟨left, hleft⟩ := ih
    obtain ⟨-, rfl⟩ := RxFront.cycle_eq_some hs
    have hi := RxFront.inv_of_reach hr
    have hfresh : ∀ f ∈ r.issue.allocNewFlowid (r.issueIn i), r.issue.cam f = none := by
      intro f ha
      by_contra hc
      have hk := hi.cam f (Option.isSome_iff_ne_none.mpr hc)
      rw [(hi.alloc_unknown ha).1] at hk
      cases hk
    exact ⟨_, hleft.next (r.issueIn i) trivial (if_pos ⟨rfl, hfresh⟩)⟩

end IssueRun

end TcpHw
