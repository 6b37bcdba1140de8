import TcpHw.Frontend.FormatDelivery
import TcpHw.Frontend.PipeDelivery

/-!
# The two formatters agree

Both formatters owe the same headers and the same lines for the same packets. The pipelined one
pays them in every run. The other one pays them in the runs in which the second line of a packet is
offered when the checksum of its header arrives, and is the last line if the checksum is bad: it
takes the response whether or not the line is there, and it never accepts a line while it drains a
packet.
-/
namespace TcpHw

open Bytes Framing Trace

set_option autoImplicit false

/-! ### Fixed packets -/

/-- A header line of a packet without options, with zeros behind the checksum. -/
def headLine (totLen chksum : Nat) : Line :=
  BitVec.ofNat 512 (0x4500 * 2 ^ 496 + totLen * 2 ^ 480 + chksum * 2 ^ 416)

/-- 200 bytes in four lines, with a checksum field of zero. -/
def longBad : IpPacket where
  head := ⟨headLine 200 0, 0, false, 7⟩
  tail := [⟨1, 0, false, 7⟩, ⟨2, 0, false, 7⟩, ⟨3, 56, true, 7⟩]
  tlen := 200
  hdrLen := by decide +kernel
  hasPayload := by decide +kernel
  framed := by decide +kernel

/-- 100 bytes in two lines, with the right checksum. -/
def shortGood : IpPacket where
  head := ⟨headLine 100 0xBA9B, 0, false, 7⟩
  tail := [⟨5, 28, true, 7⟩]
  tlen := 100
  hdrLen := by decide +kernel
  hasPayload := by decide +kernel
  framed := by decide +kernel

/-- 100 bytes in two lines, with a checksum field of zero. -/
def shortBad : IpPacket where
  head := ⟨headLine 100 0, 0, false, 7⟩
  tail := [⟨5, 28, true, 7⟩]
  tlen := 100
  hdrLen := by decide +kernel
  hasPayload := by decide +kernel
  framed := by decide +kernel

def FormatSystem.reset (pkts : List IpPacket) : FormatSystem :=
  ⟨⟨.ready, .waiting, ⟨0, 0, 0, 0, 0, 0, 0, 0, 0, 0, 0⟩, 0, 0, 0, 0, false, 0⟩, .wait, .reset,
    linesOf pkts, [], []⟩

theorem FormatSystem.init_reset (pkts : List IpPacket) : Init pkts (reset pkts) :=
  ⟨rfl, rfl, rfl, ⟨rfl, rfl⟩, ⟨rfl, rfl⟩, rfl, rfl, rfl, rfl, ⟨rfl, rfl⟩⟩

/-- Everything around the formatter is ready. -/
def FormatEnv.calm : FormatEnv := ⟨true, default, true, true, true, true⟩

/-! ### Agreement -/

/-- The two formatters have delivered headers and lines in the same order, and each of them, once
its outputs are ready, the lines are offered and the units it uses go on, accepts every line and
delivers everything. The cycles of `ip_stream_format` meet `ok`. -/
structure Agree (ok : FormatSystem → FormatEnv → Prop) (pkts : List IpPacket) (s : FormatSystem)
    (t : PipeSystem) : Prop where
  hdrs : s.hdrs <+: hdrsOf pkts ∧ t.hdrs <+: hdrsOf pkts
  data : s.data <+: dataOf pkts ∧ t.data <+: dataOf pkts
  formatGoesOn : ∀ sched, (∀ n, ok (exec FormatSystem.cycle s sched n) (sched n)) →
    (∀ n, FormatSystem.Open (sched n)) → Fair FormatSystem.Given sched →
      ∃ n, FormatSystem.Delivered pkts (exec FormatSystem.cycle s sched n)
  pipeGoesOn : ∀ sched, (∀ n, PipeSystem.Open (sched n)) → Fair PipeSystem.Given sched →
    ∃ n, PipeSystem.Delivered pkts (exec PipeSystem.cycle t sched n)

/-- For all packets with the right `tot_len` and all schedules, while `ip_stream_format` takes
neither of its two branches. -/
theorem formatters_agree (pkts : List IpPacket) (hx : ∀ p ∈ pkts, p.Exact) {s : FormatSystem}
    {t : PipeSystem}
    (hs : Reach (FormatSystem.Init pkts) FormatSystem.step FormatSystem.Sound s)
    (ht : Reach (PipeSystem.Init pkts) PipeSystem.step Free t) :
    Agree FormatSystem.Sound pkts s t := by
  have hinv := FormatSystem.inv_of_reach hx hs
  have hgood := PipeSystem.good_of_reach ht
  obtain ⟨hh, hd⟩ := hinv.prefixes
  obtain ⟨hh', hd'⟩ := hgood.prefixes
  exact ⟨⟨hh, hh'⟩, ⟨hd, hd'⟩, fun _ hok ho hf => hinv.delivers hok ho hf,
    fun _ ho hf => hgood.delivers ho hf⟩

/-- A bad and a good packet of two lines: both formatters deliver the good one. -/
theorem formatters_agree_short :
    ∃ s t, Reach (FormatSystem.Init [shortBad, shortGood]) FormatSystem.step FormatSystem.Sound s ∧
      Reach (PipeSystem.Init [shortBad, shortGood]) PipeSystem.step Free t ∧
      (s.src = [] ∧ s.hdrs.length = 1 ∧ s.data.length = 2) ∧ t.hdrs = s.hdrs ∧ t.data = s.data ∧
      Agree FormatSystem.Sound [shortBad, shortGood] s t := by
  have hs : ∃ s, Reach (FormatSystem.Init [shortBad, shortGood]) FormatSystem.step
      FormatSystem.Sound s ∧ decide (s.src = [] ∧ s.hdrs = hdrsOf [shortBad, shortGood] ∧
        s.data = dataOf [shortBad, shortGood]) = true :=
    Reach.exists_of_run (List.replicate 16 .calm) (FormatSystem.init_reset _) (by decide +kernel)
  have ht : ∃ t, Reach (PipeSystem.Init [shortBad, shortGood]) PipeSystem.step Free t ∧
      decide (t.hdrs = hdrsOf [shortBad, shortGood] ∧
        t.data = dataOf [shortBad, shortGood]) = true :=
    Reach.exists_of_run (List.replicate 16 .calm) (PipeSystem.init_reset _) (by decide +kernel)
  obtain ⟨s, hs, hp⟩ := hs
  obtain ⟨t, ht, hq⟩ := ht
  obtain ⟨hsrc, hh, hd⟩ := of_decide_eq_true hp
  obtain ⟨hh', hd'⟩ := of_decide_eq_true hq
  refine ⟨s, t, hs, ht, ⟨hsrc, ?_, ?_⟩, hh'.trans hh.symm, hd'.trans hd.symm,
    formatters_agree _ (by decide +kernel) hs ht⟩
  · rw [hh]
    decide +kernel
  · rw [hd]
    decide +kernel

/-! ### The two branches -/

namespace FormatSystem

open IpStreamFormat

variable {s : FormatSystem} {e : FormatEnv}

/-- A packet is drained without accepting its lines, so a line that is not the last stays on
the bus. -/
theorem drain_stuck {l : RxLine} {t : List RxLine} (hd : s.fmt.dataState = .drain)
    (hs : s.src = l :: t) (hl : l.last = false) (n : Nat) (sched : Nat → FormatEnv)
    (ho : ∀ n, Open (sched n)) :
    (exec cycle s sched n).fmt.dataState = .drain ∧ (exec cycle s sched n).src = l :: t := by
  induction n with
  | zero => exact ⟨hd, hs⟩
  | succ n ih =>
    obtain ⟨hd', hs'⟩ := ih
    show ((exec cycle s sched n).cycle (sched n)).fmt.dataState = .drain ∧
      ((exec cycle s sched n).cycle (sched n)).src = l :: t
    generalize exec cycle s sched n = u at hd' hs'
    have hline : (u.inputs (sched n)).src = l := by simp [inputs, (ho n).1, hs']
    exact ⟨by simp [cycle, next, dataComb, hd', hline, hl],
      by simp [cycle, outputs, dataComb, hd', quiet, hs']⟩

/-- The response is gone and none will follow, so the second line is never accepted. -/
theorem lost_response_stuck (hd : s.fmt.dataState = .chksumWaitFirstData) (hc : s.chk = .reset)
    (n : Nat) (sched : Nat → FormatEnv) :
    (exec cycle s sched n).fmt.dataState = .chksumWaitFirstData ∧
      (exec cycle s sched n).chk = .reset ∧ (exec cycle s sched n).src = s.src := by
  induction n with
  | zero => exact ⟨hd, hc, rfl⟩
  | succ n ih =>
    obtain ⟨hd', hc', hs'⟩ := ih
    show ((exec cycle s sched n).cycle (sched n)).fmt.dataState = .chksumWaitFirstData ∧
      ((exec cycle s sched n).cycle (sched n)).chk = .reset ∧
        ((exec cycle s sched n).cycle (sched n)).src = s.src
    generalize exec cycle s sched n = u at hd' hc' hs'
    have hresp : (u.inputs (sched n)).resp = none :=
      resp_nil (by simp [hc', ChksumCalc.reset])
    exact ⟨by simp [cycle, next, dataComb, hd', hresp],
      chk_reset hc' (by simp [outputs, dataComb, hd', hresp, quiet]),
      by simp [cycle, outputs, dataComb, hd', hresp, quiet, hs']⟩

end FormatSystem

/-- A calm schedule is fair. -/
theorem FormatSystem.fair_calm : Fair Given fun _ => FormatEnv.calm :=
  fun k n => ⟨n, Nat.le_refl n, by cases k <;> rfl⟩

/-- A run of the unrestricted formatter that ends in a state from which a calm schedule never
delivers breaks the agreement. -/
theorem not_agree {pkts : List IpPacket} {s : FormatSystem}
    (hs : Reach (FormatSystem.Init pkts) FormatSystem.step Free s)
    (hstuck : ∀ n, (exec FormatSystem.cycle s (fun _ => FormatEnv.calm) n).src ≠ []) :
    ¬ ∀ s t, Reach (FormatSystem.Init pkts) FormatSystem.step Free s →
      Reach (PipeSystem.Init pkts) PipeSystem.step Free t → Agree Free pkts s t := by
  intro h
  obtain ⟨n, hn⟩ := (h s _ hs (.start (PipeSystem.init_reset pkts))).formatGoesOn
    (fun _ => FormatEnv.calm) (fun _ => trivial) (fun _ => ⟨rfl, rfl, rfl⟩) FormatSystem.fair_calm
  exact hstuck n hn.1

/-- Without a condition on the runs of `ip_stream_format` the agreement fails: for a bad packet of
four lines it stops in `DRAIN`, and for a good packet of two lines it stops waiting for a checksum
that came one cycle before the second line. The `tot_len` of both is right. -/
theorem formatters_disagree :
    (longBad.Exact ∧ ¬ ∀ s t, Reach (FormatSystem.Init [longBad]) FormatSystem.step Free s →
      Reach (PipeSystem.Init [longBad]) PipeSystem.step Free t → Agree Free [longBad] s t) ∧
    shortGood.Exact ∧ ¬ ∀ s t, Reach (FormatSystem.Init [shortGood]) FormatSystem.step Free s →
      Reach (PipeSystem.Init [shortGood]) PipeSystem.step Free t → Agree Free [shortGood] s t := by
  refine ⟨⟨by decide +kernel, ?_⟩, by decide +kernel, ?_⟩
  · have hrun : ∃ s, Reach (FormatSystem.Init [longBad]) FormatSystem.step Free s ∧
        decide (s.fmt.dataState = .drain ∧ s.src = longBad.tail.tail) = true :=
      Reach.exists_of_run [.calm, .calm, .calm] (FormatSystem.init_reset _) (by decide +kernel)
    obtain ⟨s, hs, hp⟩ := hrun
    obtain ⟨hd, hsrc⟩ := of_decide_eq_true hp
    refine not_agree hs fun n => ?_
    rw [(FormatSystem.drain_stuck hd hsrc rfl n _ fun _ => ⟨rfl, rfl, rfl⟩).2]
    simp
  · have hrun : ∃ s, Reach (FormatSystem.Init [shortGood]) FormatSystem.step Free s ∧
        decide (s.fmt.dataState = .chksumWaitFirstData ∧ s.chk.transferIn = false ∧
          s.chk.frame.isEmpty ∧ s.chk.out = [] ∧ s.src = shortGood.tail) = true :=
      Reach.exists_of_run [.calm, .calm, { FormatEnv.calm with offer := false }]
        (FormatSystem.init_reset _) (by decide +kernel)
    obtain ⟨s, hs, hp⟩ := hrun
    obtain ⟨hd, ht, hf, ho, hsrc⟩ := of_decide_eq_true hp
    have hc : s.chk = .reset := by
      rw [List.isEmpty_iff] at hf
      cases hk : s.chk
      simp_all [ChksumCalc.reset]
    refine not_agree hs fun n => ?_
    rw [(FormatSystem.lost_response_stuck hd hc n _).2.2, hsrc]
    simp [shortGood]

end TcpHw
