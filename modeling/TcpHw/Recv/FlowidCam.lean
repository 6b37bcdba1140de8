import TcpHw.Common.BsgCam
import TcpHw.Recv.FlowidUnique

/-!
# The CAM of `rx_issue_pipe`

The pipe with `bsg_cam_1r1w_unmanaged` next to the pipe with a map from flow IDs to four-tuples.
A four-tuple is written only if the lookup missed it, and the lookup sees a write of the cycle
before it, so that no two entries ever hold the same one, also when entries are cleared or
a flow ID is handed out twice.
-/
namespace TcpHw

open Trace

set_option autoImplicit false

/-- The pipe with its CAM in place of the field `cam`, which is not used. -/
structure RxIssueCam where
  pipe : RxIssuePipe
  addrToFlowid : BsgCam maxFlowCnt FourTuple 4

def flowidOf (data : BitVec 4) : FlowId := data.toFin

namespace RxIssueCam

variable (s : RxIssueCam) (x : IssueIn)

/-- `alloc_new_flowid_one_hot`, `tcp_clear_flowid_one_hot` -/
def oneHot (val : Bool) (f : FlowId) : BitVec maxFlowCnt :=
  (BitVec.ofBool val).setWidth maxFlowCnt <<< f.val

/-- `addr_to_flowid_cam_wr_*_f`; the tag of an entry that is cleared is not stored. -/
def camWr : CamWr maxFlowCnt FourTuple 4 where
  wV :=
    match x.clear with
    | some f => oneHot true f
    | none => oneHot (s.pipe.allocNewFlowid x).isSome x.newFlowid
  setNotClear := !x.clear.isSome
  tag := s.pipe.t.elim default fun t => t.pkt.tag
  data := BitVec.ofFin x.newFlowid

/-- `flowid_val_next_t`, `flowid_next_t` -/
def flowidNext (p : RecvPkt) : Option FlowId :=
  if (s.pipe.allocNewFlowid x).isSome ∧ s.pipe.t.map (·.pkt.tag) = some p.tag then
    s.pipe.allocNewFlowid x
  else if s.addrToFlowid.rVal true p.tag then some (flowidOf (s.addrToFlowid.rData true p.tag))
  else none

/-- One clock edge. -/
def step : RxIssueCam where
  pipe :=
    { s.pipe.step x with
      t := if s.pipe.stallT x then s.pipe.t
        else s.pipe.f.map fun p => { pkt := p, flowid := s.flowidNext x p }
      cam := s.pipe.cam }
  addrToFlowid := s.addrToFlowid.next (s.camWr x)

/-- After reset; the tags and the data have no reset. -/
def Init : Prop := s.pipe = RxIssuePipe.reset ∧ ∀ f, s.addrToFlowid.v f = false

end RxIssueCam

/-- Both pipes, with the same inputs. -/
structure CamPair where
  real : RxIssueCam
  plain : RxIssuePipe

namespace CamPair

def Init (s : CamPair) : Prop := s.real.Init ∧ s.plain = RxIssuePipe.reset

def next (s : CamPair) (x : IssueIn) : CamPair := ⟨s.real.step x, s.plain.step x⟩

def step (s : CamPair) (x : IssueIn) : Option CamPair := some (s.next x)

/-- The registers are the same, the lookup of a four-tuple finds its flow ID, and the assertions of
the CAM hold: one entry at most matches, and one at most is written. -/
structure Agrees (s : CamPair) : Prop where
  regs : s.real.pipe = { s.plain with cam := s.real.pipe.cam }
  lookup : ∀ tag, camLookup s.plain.cam tag =
    if s.real.addrToFlowid.rVal true tag then
      some (flowidOf (s.real.addrToFlowid.rData true tag)) else none
  one : ∀ rV tag f g, s.real.addrToFlowid.rMatch rV tag f = true →
    s.real.addrToFlowid.rMatch rV tag g = true → f = g
  written : ∀ x i j, (s.real.camWr x).wV.getLsbD i = true →
    (s.real.camWr x).wV.getLsbD j = true → i = j

/-! ### The invariant -/

/-- The entries are those of the map, each with its own flow ID, no two with the same four-tuple, and
none with the one of a packet that the lookup missed. -/
structure Inv (s : CamPair) : Prop where
  regs : s.real.pipe = { s.plain with cam := s.real.pipe.cam }
  entries : ∀ f, s.real.addrToFlowid.entry f =
    (s.plain.cam f).map fun tag => (tag, BitVec.ofFin f)
  unique : ∀ f g tag, s.plain.cam f = some tag → s.plain.cam g = some tag → f = g
  miss : ∀ t ∈ s.plain.t, t.flowid = none → ∀ f, s.plain.cam f ≠ some t.pkt.tag

variable {s : CamPair} {x : IssueIn}

theorem getLsbD_oneHot (val : Bool) (f : FlowId) (i : Nat) :
    (RxIssueCam.oneHot val f).getLsbD i = (val && decide (i = f.val)) := by
  have hf := f.isLt
  rw [RxIssueCam.oneHot, BitVec.getLsbD_shiftLeft, BitVec.getLsbD_setWidth, BitVec.getLsbD_ofBool]
  by_cases hi : i = f.val
  · subst hi
    simp [hf]
  · by_cases hlt : i < f.val
    · simp [hi, hlt]
    · have hne : ¬ i - f.val = 0 := by omega
      simp [hi, hne]

theorem written_once (s : RxIssueCam) (x : IssueIn) (i j : Nat)
    (hi : (s.camWr x).wV.getLsbD i = true) (hj : (s.camWr x).wV.getLsbD j = true) : i = j := by
  have hone : ∃ val f, (s.camWr x).wV = RxIssueCam.oneHot val f := by
    unfold RxIssueCam.camWr
    cases x.clear with
    | none => exact ⟨_, _, rfl⟩
    | some f => exact ⟨_, _, rfl⟩
  obtain ⟨val, f, hw⟩ := hone
  rw [hw, getLsbD_oneHot, Bool.and_eq_true, decide_eq_true_iff] at hi hj
  rw [hi.2, hj.2]

theorem entry_map_eq {s : CamPair} (h : Inv s) {f : FlowId} {tag : FourTuple} :
    (∃ d, s.real.addrToFlowid.entry f = some (tag, d)) ↔ s.plain.cam f = some tag := by
  rw [h.entries]
  constructor
  · rintro ⟨d, hd⟩
    obtain ⟨t, ht, heq⟩ := Option.map_eq_some_iff.mp hd
    rw [ht, (Prod.mk.inj heq).1]
  · intro hf
    exact ⟨_, by rw [hf]; rfl⟩

theorem Inv.one (h : Inv s) {rV : Bool} {tag : FourTuple} {f g : FlowId}
    (hf : s.real.addrToFlowid.rMatch rV tag f = true)
    (hg : s.real.addrToFlowid.rMatch rV tag g = true) : f = g := by
  cases rV with
  | false => simp [BsgCam.rMatch] at hf
  | true =>
    rw [BsgCam.rMatch_iff, entry_map_eq h] at hf hg
    exact h.unique f g tag hf hg

/-- The response of the CAM is the lookup in the map. -/
theorem Inv.lookup (h : Inv s) (tag : FourTuple) : camLookup s.plain.cam tag =
    if s.real.addrToFlowid.rVal true tag then
      some (flowidOf (s.real.addrToFlowid.rData true tag)) else none := by
  cases hl : camLookup s.plain.cam tag with
  | none =>
    have hmiss : s.real.addrToFlowid.rVal true tag = false := by
      refine BsgCam.read_miss fun f d hd => ?_
      exact RxIssuePipe.camLookup_none hl f ((entry_map_eq h).mp ⟨d, hd⟩)
    rw [hmiss]
    rfl
  | some f =>
    have hcam := RxIssuePipe.camLookup_some hl
    have hentry : s.real.addrToFlowid.entry f = some (tag, BitVec.ofFin f) := by
      rw [h.entries, hcam]
      rfl
    have hone : ∀ g, s.real.addrToFlowid.rMatch true tag g = true → g = f := by
      intro g hg
      exact h.one hg (BsgCam.rMatch_iff.mpr ⟨_, hentry⟩)
    obtain ⟨hval, hdata⟩ := BsgCam.read_hit hentry hone
    rw [hval, hdata]
    rfl

/-! ### One cycle -/

/-- What the pipe computes from its registers without the CAM is the same in both. -/
theorem alloc_eq (h : Inv s) : s.real.pipe.allocNewFlowid x = s.plain.allocNewFlowid x := by
  rw [h.regs]
  rfl

theorem Inv.flowidNext (h : Inv s) (p : RecvPkt) :
    s.real.flowidNext x p = s.plain.flowidNext x p := by
  have ht : s.real.pipe.t = s.plain.t := by rw [h.regs]
  rw [RxIssueCam.flowidNext, RxIssuePipe.flowidNext, alloc_eq h, ht, ← h.lookup]

theorem Inv.regs_next (h : Inv s) :
    (s.real.step x).pipe = { s.plain.step x with cam := (s.real.step x).pipe.cam } := by
  have hstep : { s.real.pipe.step x with t := (s.plain.step x).t, cam := s.real.pipe.cam } =
      { s.plain.step x with cam := s.real.pipe.cam } := by
    rw [h.regs]
    rfl
  have ht : (s.real.step x).pipe.t = (s.plain.step x).t := by
    have hstall : s.real.pipe.stallT x = s.plain.stallT x := by
      rw [h.regs]
      rfl
    have hreg : s.real.pipe.t = s.plain.t := by rw [h.regs]
    have hfirst : s.real.pipe.f = s.plain.f := by rw [h.regs]
    have hnext : (fun p => ({ pkt := p, flowid := s.real.flowidNext x p } : StageT)) =
        fun p => { pkt := p, flowid := s.plain.flowidNext x p } := by
      funext p
      rw [h.flowidNext]
    show (if s.real.pipe.stallT x then s.real.pipe.t else s.real.pipe.f.map _) = _
    rw [hstall, hreg, hfirst, hnext]
    rfl
  calc (s.real.step x).pipe
      = { s.real.pipe.step x with t := (s.real.step x).pipe.t, cam := s.real.pipe.cam } := rfl
    _ = { s.real.pipe.step x with t := (s.plain.step x).t, cam := s.real.pipe.cam } := by rw [ht]
    _ = _ := hstep

/-- An entry is written for a packet that the lookup missed, and not while an entry is cleared. -/
theorem alloc_missed {f : FlowId} (h : Inv s) (ha : s.plain.allocNewFlowid x = some f) :
    x.clear = none ∧ f = x.newFlowid ∧ ∃ p, s.plain.t = some { pkt := p, flowid := none } ∧
      ∀ g, s.plain.cam g ≠ some p.tag := by
  obtain ⟨⟨p, ht⟩, -, hid, hstall, -, -⟩ := RxIssuePipe.alloc_cases ha
  have hwant : s.plain.wantNewFlowid x = true := by
    by_contra hw
    simp [RxIssuePipe.allocNewFlowid, hw] at ha
  have hclear : x.clear = none := by
    cases hc : x.clear with
    | none => rfl
    | some g => simp [RxIssuePipe.stallT, ht, hwant, hc] at hstall
  exact ⟨hclear, hid, p, ht, fun g => h.miss _ ht rfl g⟩

theorem Inv.entries_next (h : Inv s) (f : FlowId) : (s.real.step x).addrToFlowid.entry f =
    ((s.plain.step x).cam f).map fun tag => (tag, BitVec.ofFin f) := by
  show (s.real.addrToFlowid.next (s.real.camWr x)).entry f = (s.plain.camNext x f).map _
  rw [BsgCam.entry_next]
  have hdec : ∀ g : FlowId, decide (f.val = g.val) = decide (f = g) := by
    intro g
    rw [Bool.eq_iff_iff, decide_eq_true_iff, decide_eq_true_iff, Fin.ext_iff]
  cases hc : x.clear with
  | some g =>
    have hw : (s.real.camWr x).wV.getLsbD f = decide (f = g) := by
      simp only [RxIssueCam.camWr, hc, getLsbD_oneHot, Bool.true_and, hdec]
    have hset : (s.real.camWr x).setNotClear = false := by simp [RxIssueCam.camWr, hc]
    have hcam : s.plain.camNext x = Function.update s.plain.cam g none := by
      simp [RxIssuePipe.camNext, hc]
    rw [hw, hset, hcam]
    by_cases hfg : f = g
    · subst hfg
      simp
    · rw [decide_eq_false hfg, Function.update_of_ne hfg, h.entries]
      rfl
  | none =>
    have hset : (s.real.camWr x).setNotClear = true := by simp [RxIssueCam.camWr, hc]
    rw [hset]
    cases ha : s.plain.allocNewFlowid x with
    | none =>
      have hw : (s.real.camWr x).wV.getLsbD f = false := by
        simp only [RxIssueCam.camWr, hc, getLsbD_oneHot, alloc_eq h, ha, Option.isSome_none,
          Bool.false_and]
      have hcam : s.plain.camNext x = s.plain.cam := by simp [RxIssuePipe.camNext, hc, ha]
      rw [hw, hcam, h.entries]
      rfl
    | some g =>
      obtain ⟨-, hid, p, ht, -⟩ := alloc_missed h ha
      have hw : (s.real.camWr x).wV.getLsbD f = decide (f = g) := by
        simp only [RxIssueCam.camWr, hc, getLsbD_oneHot, alloc_eq h, ha, Option.isSome_some,
          Bool.true_and, hdec, hid]
      have hreg : s.real.pipe.t = s.plain.t := by rw [h.regs]
      have htag : (s.real.camWr x).tag = p.tag := by simp [RxIssueCam.camWr, hreg, ht]
      have hdata : (s.real.camWr x).data = BitVec.ofFin g := by rw [hid]; rfl
      have hcam : s.plain.camNext x = Function.update s.plain.cam g (some p.tag) := by
        simp [RxIssuePipe.camNext, hc, ha, ht]
      rw [hw, htag, hdata, hcam]
      by_cases hfg : f = g
      · subst hfg
        simp
      · rw [decide_eq_false hfg, Function.update_of_ne hfg, h.entries]
        rfl

/-- A new entry of the map is the one of the packet in stage T. -/
theorem cam_cases {f : FlowId} {tag : FourTuple} (hf : (s.plain.step x).cam f = some tag) :
    s.plain.cam f = some tag ∨ s.plain.allocNewFlowid x = some f ∧
      s.plain.t.map (·.pkt.tag) = some tag := by
  have hnext : s.plain.camNext x f = some tag := hf
  unfold RxIssuePipe.camNext at hnext
  cases hc : x.clear with
  | some g =>
    simp only [hc] at hnext
    by_cases hfg : f = g
    · rw [hfg, Function.update_self] at hnext
      cases hnext
    · rw [Function.update_of_ne hfg] at hnext
      exact .inl hnext
  | none =>
    cases ha : s.plain.allocNewFlowid x with
    | none =>
      simp only [hc, ha] at hnext
      exact .inl hnext
    | some g =>
      simp only [hc, ha] at hnext
      by_cases hfg : f = g
      · rw [hfg, Function.update_self] at hnext
        exact .inr ⟨by rw [hfg], hnext⟩
      · rw [Function.update_of_ne hfg] at hnext
        exact .inl hnext

theorem Inv.unique_next (h : Inv s) {f g : FlowId} {tag : FourTuple}
    (hf : (s.plain.step x).cam f = some tag) (hg : (s.plain.step x).cam g = some tag) : f = g := by
  have habsurd : ∀ {f g : FlowId}, s.plain.cam g = some tag → s.plain.allocNewFlowid x = some f →
      s.plain.t.map (·.pkt.tag) ≠ some tag := by
    intro f g hold ha ht
    obtain ⟨-, -, p, hp, hno⟩ := alloc_missed h ha
    rw [hp] at ht
    exact hno g (by rw [hold, ← ht]; rfl)
  rcases cam_cases hf with hf | ⟨haf, htf⟩
  · rcases cam_cases hg with hg | ⟨hag, htg⟩
    · exact h.unique f g tag hf hg
    · exact absurd htg (habsurd hf hag)
  · rcases cam_cases hg with hg | ⟨hag, -⟩
    · exact absurd htf (habsurd hg haf)
    · rw [haf] at hag
      exact Option.some.inj hag

theorem Inv.miss_next (h : Inv s) {t : StageT} (ht : (s.plain.step x).t = some t)
    (hn : t.flowid = none) (f : FlowId) : (s.plain.step x).cam f ≠ some t.pkt.tag := by
  intro hf
  have ht' : (if s.plain.stallT x then s.plain.t else
    s.plain.f.map fun p => { pkt := p, flowid := s.plain.flowidNext x p }) = some t := ht
  cases hs : s.plain.stallT x with
  | true =>
    -- nothing is allocated while the packet waits
    rw [hs, if_pos rfl] at ht'
    rcases cam_cases hf with hf | ⟨ha, -⟩
    · exact h.miss t ht' hn f hf
    · have hstall := (RxIssuePipe.alloc_cases ha).2.2.2.1
      rw [hs] at hstall
      cases hstall
  | false =>
    simp only [hs, Bool.false_eq_true, if_false] at ht'
    obtain ⟨p, -, rfl⟩ := Option.map_eq_some_iff.mp ht'
    have hno : s.plain.flowidNext x p = none := hn
    rcases cam_cases hf with hf | ⟨ha, htag⟩
    · -- the lookup of this cycle would have found the entry
      by_cases hbyp : (s.plain.allocNewFlowid x).isSome ∧ s.plain.t.map (·.pkt.tag) = some p.tag
      · rw [RxIssuePipe.flowidNext, if_pos hbyp] at hno
        rw [hno] at hbyp
        cases hbyp.1
      · rw [RxIssuePipe.flowidNext, if_neg hbyp] at hno
        exact RxIssuePipe.camLookup_none hno f hf
    · -- the write of this cycle is bypassed
      rw [RxIssuePipe.flowidNext, if_pos ⟨by rw [ha]; rfl, htag⟩, ha] at hno
      cases hno

theorem Inv.next (h : Inv s) : Inv (s.next x) :=
  ⟨h.regs_next, h.entries_next, fun _ _ _ => h.unique_next, fun _ => h.miss_next⟩

theorem Init.inv (h : s.Init) : Inv s := by
  obtain ⟨⟨hp, hv⟩, hq⟩ := h
  refine ⟨by rw [hp, hq], fun f => ?_, ?_, ?_⟩
  · simp [BsgCam.entry, hv, hq, RxIssuePipe.reset]
  · intro f g tag hf
    simp [hq, RxIssuePipe.reset] at hf
  · intro t ht
    simp [hq, RxIssuePipe.reset] at ht

/-- In every run the pipe with the CAM is the pipe with the map. -/
theorem flowid_cam_agrees (h : Reach Init step Free s) : Agrees s := by
  have hi : Inv s := by
    refine h.invariant (fun _ => Init.inv) ?_
    intro s x s' hi _ hs
    cases hs
    exact hi.next
  exact ⟨hi.regs, hi.lookup, fun _ _ _ _ => hi.one, written_once s.real⟩

/-- A four-tuple that is cleared and comes back gets a second flow ID. -/
theorem flowid_cam_agrees_cleared : ∃ s, Reach Init step Free s ∧
    s.real.addrToFlowid.rVal true (RxFront.recvOf tcpSyn 100 0).tag = true ∧
    flowidOf (s.real.addrToFlowid.rData true (RxFront.recvOf tcpSyn 100 0).tag) = 1 ∧ Agrees s := by
  let syn := IssueRun.smooth (some (RxFront.recvOf tcpSyn 100 0))
  have hrun : ∃ s, Reach Init step Free s ∧
      decide (s.real.addrToFlowid.rVal true (RxFront.recvOf tcpSyn 100 0).tag = true ∧
        flowidOf (s.real.addrToFlowid.rData true (RxFront.recvOf tcpSyn 100 0).tag) = 1) = true :=
    Reach.exists_of_run
      [syn 0, IssueRun.smooth none 0, IssueRun.smooth none 0,
        { IssueRun.smooth none 1 with clear := some 0 }, syn 1, IssueRun.smooth none 1,
        IssueRun.smooth none 1, IssueRun.smooth none 2]
      (s := ⟨⟨RxIssuePipe.reset, ⟨fun _ => false, fun _ => default, fun _ => 0⟩⟩, RxIssuePipe.reset⟩)
      ⟨⟨rfl, fun _ => rfl⟩, rfl⟩ (by decide +kernel)
  obtain ⟨s, hs, hp⟩ := hrun
  obtain ⟨hv, hd⟩ := of_decide_eq_true hp
  exact ⟨s, hs, hv, hd, flowid_cam_agrees hs⟩

end CamPair

end TcpHw
