import TcpHw.Send.SendPipe

/-!
# Retransmit requests

The retransmit flag of a flow is set from stage W of `est_pipe`, read when the flow
is scheduled, and cleared from stage W of `protocol_logic_pipe`. The two pipes
meet in `rt_timeout_flag_store`. A packet of `est_pipe` that stalls in stage W asks
for the set in every cycle it stays there.
-/
namespace TcpHw

open Trace

set_option autoImplicit false

/-- The send pipe and `set_rt_flag_reg_w & est_hdr_val_reg_w` of `est_pipe` with its flow.
The other fields are not registers. `estFirst` says that the packet entered stage W on the
last edge; `pending` is what the flag is meant to be: requested, and no pass that read
the request has completed since; `raised` counts the requests that found the flag
clear, `retransmits` the completed passes that read the flag as set. -/
structure RtSystem where
  send : SendPipe
  estW : Option FlowId
  estFirst : Bool
  pending : FlowId → Bool
  raised : FlowId → Nat
  retransmits : FlowId → Nat

/-- One cycle: what drives the send pipe, whether stage W of `est_pipe` stalls, and the
packet that raises the flag and enters that stage otherwise. -/
structure RtIn where
  send : SendIn
  estStall : Bool
  estNext : Option FlowId

namespace RtSystem

def rtFlag (s : RtSystem) (f : FlowId) : Bool := s.send.flags.rtFlags f

/-- `rx_pipe_rt_store_set_rt_flag` is driven by stage W of `est_pipe`. -/
def sendIn (s : RtSystem) (i : RtIn) : SendIn := { i.send with rtSet := s.estW }

def stallW (i : RtIn) : Bool := !i.send.assemblerRdy || !i.send.txWrRdy

/-- The flow of the pass that completes stage W in this cycle and had read its retransmit
flag as set. -/
def rtDone (s : RtSystem) (i : RtIn) : Option FlowId :=
  if stallW i then none
  else s.send.pipe.w.bind fun w => if w.flags.rtPending then some w.flowid else none

/-- One clock edge of both pipes. -/
def step (s : RtSystem) (i : RtIn) : RtSystem where
  send := s.send.step (s.sendIn i)
  estW := if i.estStall then s.estW else i.estNext
  estFirst := !i.estStall
  pending f := (s.pending f || s.estW == some f) && !(s.rtDone i == some f)
  raised f := s.raised f + (s.estFirst && s.estW == some f && !s.rtFlag f).toNat
  retransmits f := s.retransmits f + (s.rtDone i == some f).toNat

/-- Each flow is announced at most once, and `est_pipe` works on announced flows. -/
def cycle (s : RtSystem) (i : RtIn) : Option RtSystem :=
  if (∀ f ∈ SendPipe.newFlowId i.send, f ∉ s.send.announced) ∧
      ∀ f ∈ i.estNext, f ∈ s.send.announced then some (s.step i) else none

def Init (s : RtSystem) : Prop :=
  s.send.Init ∧ s.estW = none ∧ ∀ f, s.pending f = false ∧ s.raised f = 0 ∧ s.retransmits f = 0

/-- The flag is set exactly while a request is pending, and every request that found the
flag clear has led to exactly one completed pass, or to the one still pending. -/
def RtExact (s : RtSystem) : Prop :=
  ∀ f, s.rtFlag f = s.pending f ∧ s.retransmits f + (s.rtFlag f).toNat = s.raised f

/-- A pass that clears the flag of a flow while it is set or being set has itself read it as
set, is not stalled, and does not meet a set in the same cycle. -/
def ClearOk (s : RtSystem) (i : RtIn) : Prop :=
  ∀ w ∈ s.send.pipe.w, w.numbered.generatePkt = true →
    (s.rtFlag w.flowid = true ∨ s.estW = some w.flowid) →
      w.flags.rtPending = true ∧ stallW i = false ∧ s.estW ≠ some w.flowid

instance (s : RtSystem) (i : RtIn) : Decidable (ClearOk s i) :=
  inferInstanceAs (Decidable (∀ w ∈ s.send.pipe.w, _))

/-! ### The invariant -/

/-- A pass that has read a flag as set still finds it set, from stage RT to stage W. -/
structure Inv (s : RtSystem) : Prop where
  exact : s.RtExact
  flagLive : ∀ f, s.rtFlag f = true → f ∈ s.send.announced
  estLive : ∀ f, s.estW = some f → f ∈ s.send.announced
  held : ∀ f, s.estW = some f → s.estFirst = false → s.rtFlag f = true
  rd : ∀ f, s.send.pipe.rt = some f → s.send.pipe.rtFlagsStall = none →
    s.send.flags.rd = some f
  rtRead : ∀ f x, s.send.pipe.rt = some f → s.send.pipe.rtFlagsStall = some x →
    x.rtPending = true → s.rtFlag f = true
  nRead : ∀ f x, s.send.pipe.n = some (f, x) → x.rtPending = true → s.rtFlag f = true
  wRead : ∀ w, s.send.pipe.w = some w → w.flags.rtPending = true → s.rtFlag w.flowid = true
  wGen : ∀ w, s.send.pipe.w = some w → w.flags.rtPending = true →
    w.numbered.generatePkt = true

theorem rtFlag_step (s : RtSystem) (i : RtIn) (f : FlowId) :
    (s.step i).rtFlag f = ((s.rtFlag f || s.estW == some f) && !(s.send.pipe.clrBit == some f) &&
      !(SendPipe.newFlowId i.send == some f)) := rfl

theorem clrBit_eq_some {p : ProtocolLogicPipe} {f : FlowId} (h : p.clrBit = some f) :
    ∃ w, p.w = some w ∧ w.numbered.generatePkt = true ∧ w.flowid = f := by
  obtain ⟨w, hw, hf⟩ := Option.bind_eq_some_iff.mp h
  simp only [Option.ite_none_right_eq_some, Option.some.injEq] at hf
  exact ⟨w, hw, hf⟩

theorem rtDone_eq_some {s : RtSystem} {i : RtIn} {f : FlowId} (h : s.rtDone i = some f) :
    stallW i = false ∧ ∃ w, s.send.pipe.w = some w ∧ w.flags.rtPending = true ∧ w.flowid = f := by
  simp only [rtDone, Option.ite_none_left_eq_some] at h
  obtain ⟨hs, h⟩ := h
  obtain ⟨w, hw, hf⟩ := Option.bind_eq_some_iff.mp h
  simp only [Option.ite_none_right_eq_some, Option.some.injEq] at hf
  exact ⟨by simpa using hs, w, hw, hf⟩

variable {s : RtSystem} {i : RtIn}

/-- A completing pass that read the flag finds it set and meets no set. -/
theorem Inv.of_rtDone (h : Inv s) (hc : ClearOk s i) {f : FlowId} (hd : s.rtDone i = some f) :
    s.rtFlag f = true ∧ s.estW ≠ some f := by
  obtain ⟨-, w, hw, hr, rfl⟩ := rtDone_eq_some hd
  have hset := h.wRead w hw hr
  exact ⟨hset, (hc w hw (h.wGen w hw hr) (.inl hset)).2.2⟩

/-- Under the condition the flag is cleared by nothing but a completing pass that read it. -/
theorem Inv.rtFlag_next (h : Inv s) (hc : ClearOk s i)
    (hnew : ∀ f ∈ SendPipe.newFlowId i.send, f ∉ s.send.announced) (f : FlowId) :
    (s.step i).rtFlag f =
      ((s.rtFlag f || s.estW == some f) && !(s.rtDone i == some f)) := by
  rw [rtFlag_step]
  by_cases hset : (s.rtFlag f || s.estW == some f) = true
  · have hset' : s.rtFlag f = true ∨ s.estW = some f := by simpa using hset
    have hlive : f ∈ s.send.announced := hset'.elim (h.flagLive f) (h.estLive f)
    have hnf : SendPipe.newFlowId i.send ≠ some f := fun he => hnew f he hlive
    have hiff : s.send.pipe.clrBit = some f ↔ s.rtDone i = some f := by
      constructor
      · intro hclr
        obtain ⟨w, hw, hg, rfl⟩ := clrBit_eq_some hclr
        obtain ⟨hr, hs, -⟩ := hc w hw hg hset'
        simp [rtDone, hs, hw, hr]
      · intro hd
        obtain ⟨-, w, hw, hr, rfl⟩ := rtDone_eq_some hd
        simp [ProtocolLogicPipe.clrBit, hw, h.wGen w hw hr]
    have hclr : (s.send.pipe.clrBit == some f) = (s.rtDone i == some f) := by
      rw [Bool.eq_iff_iff, beq_iff_eq, beq_iff_eq]
      exact hiff
    simp [hset, hclr, hnf]
  · simp [Bool.not_eq_true _ ▸ hset]

/-- The flag of a flow stays set while its pass is not in stage W. -/
theorem Inv.rtFlag_keep (h : Inv s) (hc : ClearOk s i)
    (hnew : ∀ f ∈ SendPipe.newFlowId i.send, f ∉ s.send.announced) {f : FlowId}
    (hf : s.rtFlag f = true) (hw : ∀ w, s.send.pipe.w = some w → w.flowid ≠ f) :
    (s.step i).rtFlag f = true := by
  have hd : s.rtDone i ≠ some f := by
    intro hd
    obtain ⟨-, w, hw', -, hwf⟩ := rtDone_eq_some hd
    exact hw w hw' hwf
  rw [h.rtFlag_next hc hnew, hf]
  simpa using hd

/-- The flags a pass in stage RT carries are those of its own flow, and still hold. -/
theorem Inv.rt_flags (h : Inv s) {f : FlowId} {x : RtTimeoutFlags} (hr : s.send.pipe.rt = some f)
    (hx : s.send.pipe.rtFlagsStall.or s.send.flags.rdResp = some x) (hp : x.rtPending = true) :
    s.rtFlag f = true := by
  cases hst : s.send.pipe.rtFlagsStall with
  | some y =>
    rw [hst, Option.some_or] at hx
    cases hx
    exact h.rtRead f x hr hst hp
  | none =>
    rw [hst, Option.none_or, FlagStore.rdResp, h.rd f hr hst, Option.map_some] at hx
    cases hx
    exact hp

theorem inv_exact (h : Inv s) (hc : ClearOk s i)
    (hnew : ∀ f ∈ SendPipe.newFlowId i.send, f ∉ s.send.announced) : (s.step i).RtExact := by
  intro f
  have hflag := h.rtFlag_next hc hnew f
  obtain ⟨hpend, hcount⟩ := h.exact f
  refine ⟨?_, ?_⟩
  · rw [hflag, hpend]
    rfl
  · change s.retransmits f + (s.rtDone i == some f).toNat + ((s.step i).rtFlag f).toNat =
      s.raised f + (s.estFirst && s.estW == some f && !s.rtFlag f).toNat
    rw [hflag]
    by_cases hd : s.rtDone i = some f
    · obtain ⟨hset, -⟩ := h.of_rtDone hc hd
      simp only [hset, Bool.toNat_true] at hcount
      simp [hd, hset, hcount]
    · have hd' : (s.rtDone i == some f) = false := beq_eq_false_iff_ne.mpr hd
      by_cases he : s.estW = some f
      · cases hset : s.rtFlag f with
        | true =>
          simp only [hset, Bool.toNat_true] at hcount
          simp [hd', he, hcount]
        | false =>
          -- a request that is not in its first cycle finds the flag it has set before
          have hfirst : s.estFirst = true := by
            by_contra hnf
            have hh := h.held f he (by simpa using hnf)
            rw [hset] at hh
            cases hh
          simp only [hset, Bool.toNat_false, Nat.add_zero] at hcount
          simp [hd', he, hfirst, hcount]
      · have he' : (s.estW == some f) = false := beq_eq_false_iff_ne.mpr he
        simp [hd', he', hcount]

theorem inv_step (h : Inv s) (hc : ClearOk s i)
    (hnew : ∀ f ∈ SendPipe.newFlowId i.send, f ∉ s.send.announced)
    (hest : ∀ f ∈ i.estNext, f ∈ s.send.announced) (hnd : s.send.pipe.inFlight.Nodup) :
    Inv (s.step i) := by
  have hmono : ∀ f ∈ s.send.announced, f ∈ (s.step i).send.announced := fun f hf =>
    List.mem_append_right _ hf
  have hflag := h.rtFlag_next hc hnew
  constructor
  · exact inv_exact h hc hnew
  · intro f hf
    rw [hflag] at hf
    apply hmono
    simp only [Bool.and_eq_true, Bool.or_eq_true, beq_iff_eq] at hf
    exact hf.1.elim (h.flagLive f) (h.estLive f)
  · intro f hf
    apply hmono
    simp only [step] at hf
    split at hf
    · exact h.estLive f hf
    · exact hest f hf
  · -- a held request has just been made, and no pass may complete against it
    intro f hf hfirst
    have hst : i.estStall = true := by simpa [step] using hfirst
    have hW : s.estW = some f := by simpa [step, hst] using hf
    have hd : s.rtDone i ≠ some f := fun hd => (h.of_rtDone hc hd).2 hW
    rw [hflag, hW]
    simpa using hd
  · intro f hr hst
    simp only [step, SendPipe.step, ProtocolLogicPipe.step] at hr hst
    split at hr
    · rename_i hstall
      rw [if_pos hstall, Option.or_eq_none_iff] at hst
      have hrd := h.rd f hr hst.1
      have hresp : s.send.flags.rdResp = none := hst.2
      rw [FlagStore.rdResp, hrd] at hresp
      cases hresp
    · split at hr
      · cases hr
      · exact hr
  · intro f x hr hst hp
    simp only [step, SendPipe.step, ProtocolLogicPipe.step] at hr hst
    split at hst
    · rename_i hstall
      rw [if_pos hstall] at hr
      exact h.rtFlag_keep hc hnew (h.rt_flags hr hst hp) (s.send.pipe.w_ne_rt hnd hr)
    · cases hst
  · intro f x hn hp
    rcases ProtocolLogicPipe.n_of_step hn with hn | ⟨hr, rfl⟩
    · exact h.rtFlag_keep hc hnew (h.nRead f x hn hp) (s.send.pipe.w_ne_n hnd hn)
    · change ((s.send.pipe.rtFlagsStall.or s.send.flags.rdResp).getD default).rtPending = true at hp
      cases hor : s.send.pipe.rtFlagsStall.or s.send.flags.rdResp with
      | none =>
        rw [hor] at hp
        cases hp
      | some y =>
        rw [hor] at hp
        exact h.rtFlag_keep hc hnew (h.rt_flags hr hor hp) (s.send.pipe.w_ne_rt hnd hr)
  · intro w hw hp
    rcases ProtocolLogicPipe.w_of_step hw with ⟨hw, hstall⟩ | ⟨f, x, hn, rfl⟩
    · have hset := h.wRead w hw hp
      have hns := (hc w hw (h.wGen w hw hp) (.inl hset)).2.1
      have hs : stallW i = true := hstall
      rw [hs] at hns
      cases hns
    · exact h.rtFlag_keep hc hnew (h.nRead f x hn hp) (s.send.pipe.w_ne_n hnd hn)
  · intro w hw hp
    rcases ProtocolLogicPipe.w_of_step hw with ⟨hw, -⟩ | ⟨f, x, hn, rfl⟩
    · exact h.wGen w hw hp
    · have hx : x.rtPending = true := hp
      exact numbering_generate_of_any (by simp [RtTimeoutFlags.any, hx]) _ _ _

theorem inv_init (h : s.Init) : Inv s := by
  obtain ⟨⟨-, hp, hf, -⟩, he, hg⟩ := h
  have hflag : ∀ f, s.rtFlag f = false := by simp [rtFlag, hf, FlagStore.reset]
  constructor
  · intro f
    simp [hflag f, hg f]
  all_goals simp [hflag, he, hp, ProtocolLogicPipe.reset]

/-- In every run in which no clear hits a set flag it did not read, a stalled pass or a
set of the same cycle, retransmit requests are neither lost nor repeated. -/
theorem rtExact_of_clearOk (h : Reach Init cycle ClearOk s) : s.RtExact := by
  have hinv : Inv s ∧ ∃ q, SendPipe.Inv s.send q := by
    refine h.invariant (I := fun s => Inv s ∧ ∃ q, SendPipe.Inv s.send q) ?_ ?_
    · exact fun s h0 => ⟨inv_init h0, [], SendPipe.inv_init h0.1⟩
    · rintro s i s' ⟨hi, q, hq⟩ hc hs
      simp only [cycle, Option.ite_none_right_eq_some, Option.some.injEq] at hs
      obtain ⟨⟨hnew, hest⟩, rfl⟩ := hs
      refine ⟨inv_step hi hc hnew hest hq.inFlight_nodup, SendPipe.inv_step hq ?_⟩
      have hcyc : SendPipe.cycle s.send (s.sendIn i) = some (s.send.step (s.sendIn i)) :=
        if_pos hnew
      exact (SendPipe.nodup_of_cycle hq.nodup hcyc).2
  exact hinv.1.exact

/-- One flow with bytes to send, announced while `est_pipe` is idle. -/
def oneFlow : RtIn where
  send :=
    { newFlow := some { flowid := 3, txState := default, tailPtr := 100 }
      assemblerRdy := true
      txWrRdy := true
      rtSet := none
      ackWr := none
      tailWr := none }
  estStall := false
  estNext := none

/-- A cycle in which `est_pipe` raises the flag for flow 3, or not. -/
def estCycle (raise estStall : Bool) : RtIn where
  send := SendPipe.quiet none true
  estStall := estStall
  estNext := if raise then some 3 else none

def reset : RtSystem where
  send := SendPipe.reset
  estW := none
  estFirst := false
  pending _ := false
  raised _ := 0
  retransmits _ := 0

theorem reset_init : Init reset := ⟨SendPipe.reset_init, rfl, fun _ => ⟨rfl, rfl, rfl⟩⟩

/-- A request held for a second cycle leads to one pass. -/
theorem rtExact_of_clearOk_held : ∃ s, Reach Init cycle ClearOk s ∧ s.retransmits 3 = 1 ∧
    s.RtExact := by
  have hrun : ∃ s, Reach Init cycle ClearOk s ∧ (s.retransmits 3 == 1) = true :=
    Reach.exists_of_run (oneFlow :: List.replicate 5 (estCycle false false) ++
      [estCycle true false, estCycle false true] ++ List.replicate 5 (estCycle false false))
      reset_init (by decide +kernel)
  obtain ⟨s, hr, hp⟩ := hrun
  exact ⟨s, hr, by simpa using hp, rtExact_of_clearOk hr⟩

/-- The flag is set while an ordinary pass over the flow is between its read and stage W;
the pass clears it. -/
theorem rtExact_lost : ¬ ∀ s : RtSystem, Reach Init cycle Free s → s.RtExact := by
  intro h
  have hrun : ∃ s, Reach Init cycle Free s ∧ (s.pending 3 && !s.rtFlag 3) = true :=
    Reach.exists_of_run [oneFlow, estCycle true false, estCycle false false,
      estCycle false false] reset_init (by decide +kernel)
  obtain ⟨s, hr, hp⟩ := hrun
  have he := (h s hr 3).1
  simp only [Bool.and_eq_true, Bool.not_eq_true'] at hp
  rw [hp.1, hp.2] at he
  cases he

end RtSystem

end TcpHw
