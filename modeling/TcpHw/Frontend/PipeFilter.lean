import TcpHw.Frontend.FormattersAgree

/-!
# `ip_stream_format_pipe` is an exact filter

The header port and the data port give out what the packets with a good checksum owe, and nothing
else, in every run. If every port and every unit goes on again and again, at whatever times,
everything that is owed is given out.
-/
namespace TcpHw

open Bytes Framing Trace

set_option autoImplicit false

namespace PipeSystem

/-- The source offers its next line, or a unit or an output port goes on. -/
inductive PipeTurn where
  | offer
  | goes (w : PipeWait)

def Grants (e : PipeEnv) : PipeTurn → Prop
  | .offer => e.offer = true
  | .goes w => Brings e w

/-- The pipeline gets on when it is granted this. -/
def Needs (s : PipeSystem) : PipeTurn → Prop
  | .offer => s.Hungry ∧ s.src ≠ []
  | .goes w => s.Awaiting w

/-- How many of the two halves get on. -/
def moved (s : PipeSystem) (e : PipeEnv) : Nat :=
  (if inMoves s.pipeIn (s.inWires e) then 1 else 0) +
    if outGets s.pipeOut (s.outWires e) s.realign (e.present && e.dataRdy) then 1 else 0

variable {pkts : List IpPacket} {s : PipeSystem} {e : PipeEnv}

theorem moved_pos (h : inMoves s.pipeIn (s.inWires e) = true ∨
    outGets s.pipeOut (s.outWires e) s.realign (e.present && e.dataRdy) = true) :
    0 < s.moved e := by
  unfold moved
  rcases h with h | h
  · rw [h, if_pos rfl]
    omega
  · rw [h, if_pos rfl]
    omega

theorem not_moved (h : s.moved e = 0) : inMoves s.pipeIn (s.inWires e) = false ∧
    outGets s.pipeOut (s.outWires e) s.realign (e.present && e.dataRdy) = false := by
  unfold moved at h
  constructor
  · cases hin : inMoves s.pipeIn (s.inWires e) with
    | false => rfl
    | true => simp [hin] at h
  · cases hout : outGets s.pipeOut (s.outWires e) s.realign (e.present && e.dataRdy) with
    | false => rfl
    | true => simp [hout] at h

/-- Short of the end a half gets on in any case, or something is needed. -/
theorem Good.needs (hg : Good pkts s) (hn : ¬ Delivered pkts s) :
    ∃ k, (∀ e, 0 < s.moved e) ∨ s.Needs k := by
  obtain ⟨l, cur, rem, begun, rest, h, d, hv⟩ := hg
  rcases waits hv with ⟨w, hw⟩ | hdrop | ⟨hungry, hdone⟩
  · exact ⟨.goes w, .inr hw⟩
  · exact ⟨.offer, .inl fun e => moved_pos (.inr (hdrop.gets_on e))⟩
  · exact ⟨.offer, .inr ⟨hungry, fun hsrc => hn (hdone hsrc)⟩⟩

theorem Good.granted (hg : Good pkts s) {k : PipeTurn} (hk : s.Needs k) (he : Grants e k) :
    0 < s.moved e := by
  obtain ⟨l, cur, rem, begun, rest, h, d, hv⟩ := hg
  apply moved_pos
  cases k with
  | offer =>
    obtain ⟨hungry, hsrc⟩ := hk
    have hoff : e.offer = true := he
    have hval : (s.inWires e).srcVal = true := by simp [inWires, hoff, hsrc]
    left
    simp [inMoves, hungry.accepts hv hval rfl rfl]
  | goes w => exact gets_on hv hk he

/-- What is needed is needed until a half gets on. -/
theorem Good.still_needs (hg : Good pkts s) {k : PipeTurn} (hk : s.Needs k) (hz : s.moved e = 0) :
    (s.cycle e).Needs k := by
  obtain ⟨l, cur, rem, begun, rest, h, d, hv⟩ := hg
  obtain ⟨hin, hout⟩ := not_moved hz
  cases k with
  | offer =>
    have hacc : s.pipeIn.accept (s.inWires e) = false := (Bool.or_eq_false_iff.mp hin).1
    refine ⟨hk.1.next hv hin, ?_⟩
    show (if s.pipeIn.accept (s.inWires e) then s.src.tail else s.src) ≠ []
    rw [hacc]
    exact hk.2
  | goes w => exact awaiting_next hv hin hout hk

theorem Good.cycle (hg : Good pkts s) : Good pkts (s.cycle e) := by
  obtain ⟨l, cur, rem, begun, rest, h, d, hv⟩ := hg
  exact inv_cycle hv

theorem Good.work_le (hg : Good pkts s) : work (s.cycle e) + s.moved e ≤ work s := by
  obtain ⟨l, cur, rem, begun, rest, h, d, hv⟩ := hg
  have hle := PipeSystem.work_le (e := e) hv
  unfold moved
  omega

/-- The source and the ports may pause at any time, as long as each of them goes on again. -/
theorem Good.delivers_granted (hg : Good pkts s) {sched : Nat → PipeEnv}
    (hf : Fair Grants sched) : ∃ n, Delivered pkts (exec PipeSystem.cycle s sched n) := by
  apply exec_reaches_moving (I := Good pkts) (G := Delivered pkts) work moved Needs ?_ ?_ ?_ ?_ ?_
    hg hf
  · intro s e hg
    exact hg.cycle
  · intro s e hg
    exact hg.work_le
  · intro s hg hn
    exact hg.needs hn
  · intro s e k hg hk he
    exact hg.granted hk he
  · intro s e k hg hk hz
    exact hg.still_needs hk hz

end PipeSystem

/-- The headers that are owed are those of the packets with a good checksum. -/
theorem hdrsOf_eq (pkts : List IpPacket) : hdrsOf pkts =
    (pkts.filter IpPacket.good).map fun p => (⟨p.hdr, p.head.timestamp⟩ : HdrOut) := by
  induction pkts with
  | nil => rfl
  | cons p ps ih => cases hg : p.good <;> simp [IpPacket.hdrOwed, hg, ih]

theorem dataOf_eq (pkts : List IpPacket) :
    dataOf pkts = (pkts.filter IpPacket.good).flatMap fun p => beats 64 p.payload := by
  induction pkts with
  | nil => rfl
  | cons p ps ih => cases hg : p.good <;> simp [IpPacket.dataOwed, hg, ih]

/-- For all packets, whatever their `tot_len`, and all schedules the header port gives out the
headers, and the data port the payload lines, of the packets with a good checksum, in order and
nothing else. If every port and unit goes on again and again they give out all of them. -/
theorem ip_stream_format_pipe_filters (pkts : List IpPacket) {s : PipeSystem}
    (h : Reach (PipeSystem.Init pkts) PipeSystem.step Free s) :
    (s.hdrs <+: (pkts.filter IpPacket.good).map fun p => ⟨p.hdr, p.head.timestamp⟩) ∧
      (s.data <+: (pkts.filter IpPacket.good).flatMap fun p => beats 64 p.payload) ∧
      ∀ sched, Fair PipeSystem.Grants sched → ∃ n,
        (exec PipeSystem.cycle s sched n).src = [] ∧
        (exec PipeSystem.cycle s sched n).hdrs =
          ((pkts.filter IpPacket.good).map fun p => ⟨p.hdr, p.head.timestamp⟩) ∧
        (exec PipeSystem.cycle s sched n).data =
          (pkts.filter IpPacket.good).flatMap fun p => beats 64 p.payload := by
  have hgood := PipeSystem.good_of_reach h
  obtain ⟨hh, hd⟩ := hgood.prefixes
  rw [← hdrsOf_eq, ← dataOf_eq]
  exact ⟨hh, hd, fun sched hf => hgood.delivers_granted hf⟩

/-- 60 bytes in one line whose `tot_len` is 30, with the right checksum. -/
def paddedGood : IpPacket where
  head := ⟨headLine 30 0xBAE1, 4, true, 7⟩
  tail := []
  tlen := 60
  hdrLen := by decide +kernel
  hasPayload := by decide +kernel
  framed := by decide +kernel

/-- Two bad packets, one of them long, around two good ones, one of them with a wrong `tot_len`:
only the good ones are given out. -/
theorem ip_stream_format_pipe_filters_four :
    ¬ paddedGood.Exact ∧
    ∃ s, Reach (PipeSystem.Init [longBad, shortGood, paddedGood, shortBad]) PipeSystem.step Free s ∧
      s.src = [] ∧ s.hdrs.length = 2 ∧ s.data.map (fun b => b.bytes.length) = [64, 16, 40] ∧
      (s.hdrs <+: ([longBad, shortGood, paddedGood, shortBad].filter IpPacket.good).map fun p =>
        ⟨p.hdr, p.head.timestamp⟩) := by
  have hs : ∃ s, Reach (PipeSystem.Init [longBad, shortGood, paddedGood, shortBad])
      PipeSystem.step Free s ∧ decide (s.src = [] ∧ s.hdrs.length = 2 ∧
        s.data.map (fun b => b.bytes.length) = [64, 16, 40]) = true :=
    Reach.exists_of_run (List.replicate 32 .calm) (PipeSystem.init_reset _) (by decide +kernel)
  obtain ⟨s, hs, hp⟩ := hs
  obtain ⟨hsrc, hh, hd⟩ := of_decide_eq_true hp
  exact ⟨by decide +kernel, s, hs, hsrc, hh, hd, (ip_stream_format_pipe_filters _ hs).1⟩

end TcpHw
