import TcpHw.Frontend.RxTcpCounts
import TcpHw.Recv.TmpRxBuf

/-!
# Segments whose lengths do not agree

The length of the payload is the length in the pseudo header less the length of the header, in 16
bits, in `rx_tcp_format_output_ctrl` and again in `frontend_parser` for `tcp_tmp_rx_buf`. Neither
place looks at the result, and neither compares it with the bytes that come. A segment is handled
within its own bytes exactly if its three lengths agree.
-/
namespace TcpHw

open Bytes Framing Machines Trace

set_option autoImplicit false

/-- The packet for `tcp_tmp_rx_buf`, with the `tcp_payload_len` of `frontend_parser`. -/
def RxTcpHdr.rxHdr (h : RxTcpHdr) : RxHdr where
  srcIp := h.srcIp
  dstIp := h.dstIp
  tcpHdr := h.tcpHdr
  payloadLen := h.tcpTotLen - h.tcpHdr.hdrBytes

/-- What `tcp_tmp_rx_buf` records when it takes the header. -/
def recordedLen (b : TmpRxBuf) (h : RxTcpHdr) (error : Bool) (addr : SlabAddr)
    (dataVal dstRdy : Bool) : BitVec 16 :=
  (b.step (some h.rxHdr) error addr dataVal dstRdy).payloadEntry.payloadLen

theorem recordedLen_eq {b : TmpRxBuf} (hb : b.ctrl = .ready) (h : RxTcpHdr) (error : Bool)
    (addr : SlabAddr) (dataVal dstRdy : Bool) :
    recordedLen b h error addr dataVal dstRdy = h.tcpTotLen - h.tcpHdr.hdrBytes := by
  simp [recordedLen, TmpRxBuf.step, hb, TmpRxBuf.payloadEntry, RxTcpHdr.rxHdr]

/-! ### Lengths that agree -/

namespace LooseSegment

variable (x : LooseSegment)

/-- The lines behind those of the headers. -/
def linesBehind : Nat := x.lines.length - x.hdrLines

/-- The header fits in the length, the payload that this leaves is no longer than the segment, the
segment has the lines that its header reaches into, and the payload reaches behind the other lines
but the last, modulo 2^16; if it ends there the segment has another full line. -/
structure Consistent : Prop where
  header : x.hdrLen ≤ x.lenField
  payload : x.lenField - x.hdrLen ≤ x.len
  lines : x.hdrLines ≤ x.lines.length
  behind : 0 < x.linesBehind → ∃ t, t % 2 ^ 16 = x.lenField - x.hdrLen ∧
    64 * (x.linesBehind - 1) ≤ t ∧ t ≤ x.len ∧
      (t = 64 * (x.linesBehind - 1) → 64 * x.linesBehind ≤ x.len)

variable {x}

theorem lenField_lt : x.lenField < 2 ^ 16 := (pseudoHdrCast x.head.data).length.isLt

/-- The subtraction does not wrap around when the header fits. -/
theorem toNat_payloadSize (h : x.hdrLen ≤ x.lenField) :
    (payloadSizeCalc x.head.data).toNat = x.lenField - x.hdrLen := by
  have hle : (tcpHdrCast x.head.data).hdrBytes.toNat ≤
      (pseudoHdrCast x.head.data).length.toNat := by
    rw [toNat_hdrBytes]
    exact h
  rw [payloadSizeCalc, BitVec.toNat_sub_of_le hle, toNat_hdrBytes]
  rfl

/-- A segment of less than 2^16 bytes. -/
theorem consistent_iff_of_short (hs : x.len < 2 ^ 16) : x.Consistent ↔
    x.hdrLen ≤ x.lenField ∧ x.lenField - x.hdrLen ≤ x.len ∧ x.hdrLines ≤ x.lines.length ∧
      (0 < x.linesBehind → 64 * (x.linesBehind - 1) ≤ x.lenField - x.hdrLen ∧
        (x.lenField - x.hdrLen = 64 * (x.linesBehind - 1) → 64 * x.linesBehind ≤ x.len)) := by
  constructor
  · rintro ⟨hhdr, hpay, hlines, hbehind⟩
    refine ⟨hhdr, hpay, hlines, fun hpos => ?_⟩
    obtain ⟨t, ht, hge, hle, hfull⟩ := hbehind hpos
    rw [Nat.mod_eq_of_lt (by omega)] at ht
    rw [← ht]
    exact ⟨hge, hfull⟩
  · rintro ⟨hhdr, hpay, hlines, hbehind⟩
    refine ⟨hhdr, hpay, hlines, fun hpos => ?_⟩
    obtain ⟨hge, hfull⟩ := hbehind hpos
    exact ⟨_, Nat.mod_eq_of_lt (by omega), hge, hpay, hfull⟩

/-- Where the length in the pseudo header is that of the segment, the header has to fit. -/
theorem consistent_iff_of_exact (h : x.lenField = x.len) :
    x.Consistent ↔ x.hdrLen ≤ x.lenField := by
  have hmax := x.hdrLen_le
  have hlt := x.lenField_lt
  have hcar : CarriesBytes x.lines (12 + x.len) := x.carries
  have hle := hcar.le.2
  have hge := hcar.lt
  refine ⟨Consistent.header, fun hhdr => (consistent_iff_of_short (by omega)).mpr ?_⟩
  unfold linesBehind hdrLines
  split
  · exact ⟨hhdr, by omega, by omega, fun _ => ⟨by omega, fun _ => by omega⟩⟩
  · exact ⟨hhdr, by omega, by omega, fun _ => ⟨by omega, fun _ => by omega⟩⟩

/-- The bytes given out are those of the payload, and the lengths tell whether the segment has as
many. -/
theorem given_le_iff (hhdr : x.hdrLen ≤ x.lenField) (hpay : x.lenField - x.hdrLen ≤ x.len) :
    x.given ≤ x.len ↔ (0 < x.linesBehind → ∃ t, t % 2 ^ 16 = x.lenField - x.hdrLen ∧
      64 * (x.linesBehind - 1) ≤ t ∧ t ≤ x.len ∧
        (t = 64 * (x.linesBehind - 1) → 64 * x.linesBehind ≤ x.len)) := by
  have hsize := toNat_payloadSize hhdr
  unfold given
  show spentBehind x.linesBehind _ ≤ _ ↔ _
  cases hn : x.linesBehind with
  | zero =>
    have hle : spentBehind 0 (payloadSizeCalc x.head.data) ≤ x.len := by
      show (payloadSizeCalc x.head.data).toNat ≤ _
      rw [hsize]
      exact hpay
    exact ⟨fun _ hpos => absurd hpos (Nat.lt_irrefl 0), fun _ => hle⟩
  | succ n =>
    rw [← hsize]
    exact spent_le_iff.trans ⟨fun h _ => h, fun h => h (Nat.succ_pos n)⟩

end LooseSegment

namespace RxTcpSystem

/-- The segment is next, and any lines follow it. -/
def Start (x : LooseSegment) (rest : List AxisLine) (s : RxTcpSystem) : Prop :=
  s.ctrl.Idle ∧ s.src = x.lines ++ rest ∧ s.hdrs = [] ∧ s.data = []

/-- The controller has not come back to `READY`. -/
def Within (x : LooseSegment) (rest : List AxisLine) (s : RxTcpSystem) (_ : OutputEnv) : Prop :=
  s.ctrl.parseState ≠ .ready ∨ s.src = x.lines ++ rest

instance (x : LooseSegment) (rest : List AxisLine) (s : RxTcpSystem) (e : OutputEnv) :
    Decidable (Within x rest s e) := inferInstanceAs (Decidable (_ ∨ _))

/-- A state between the first line of the segment and the return to `READY`, both included. -/
def Visit (x : LooseSegment) (rest : List AxisLine) : RxTcpSystem → Prop :=
  Reach (Start x rest) rxTcpMachine.step (Within x rest)

/-- The length of the payload does not wrap around; whatever follows the segment, no more bytes are
given out or recorded for it than it has, and the controller comes back to `READY` when it has taken
the lines of the segment and no others. -/
structure Contains (x : LooseSegment) : Prop where
  unwrapped : (payloadSizeCalc x.head.data).toNat + x.hdrLen = x.lenField
  emitted : ∀ rest s, Visit x rest s →
    (s.data.flatMap Beat.bytes).length ≤ x.len
  recorded : ∀ rest s, Visit x rest s → ∀ h ∈ s.hdrs,
    ∀ b : TmpRxBuf, b.ctrl = .ready → ∀ error addr dataVal dstRdy,
      (recordedLen b h error addr dataVal dstRdy).toNat ≤ x.len
  consumed : ∀ rest s, Visit x rest s → s.ctrl.parseState = .ready →
    s.src = x.lines ++ rest ∨ s.src = rest
  returns : ∀ rest s, Visit x rest s → ∀ sched, Fair OutputEnv.Given sched →
    ∃ n, (exec rxTcpMachine.cycle s sched n).ctrl.Idle ∧
      (exec rxTcpMachine.cycle s sched n).src = rest

variable {x : LooseSegment} {rest : List AxisLine} {s : RxTcpSystem} {e : OutputEnv}

/-! ### A segment with the lines of its header -/

/-- The controller is at the segment, with the bytes counted. -/
abbrev AtSegment (x : LooseSegment) (rest : List AxisLine) (s : RxTcpSystem) : Prop :=
  InUnit looseLines.kind RxTcpOutput.countPhases.phases x rest [] [] (counted s)

/-- The controller is behind the segment, with the bytes counted. -/
abbrev PastSegment (x : LooseSegment) (rest : List AxisLine) (s : RxTcpSystem) : Prop :=
  Behind looseLines.kind RxTcpOutput.countPhases.phases x rest [] [] (counted s)

theorem Within.not_past (hw : Within x rest s e) : ¬ PastSegment x rest s := by
  rintro ⟨⟨hst, -⟩, hsrc, -⟩
  rcases hw with hne | hall
  · exact hne hst
  · have hlen := congrArg List.length (hall.symm.trans hsrc)
    simp only [LooseSegment.lines, List.length_append, List.length_cons] at hlen
    omega

/-- Short of the end of the segment every cycle is one of the segment. -/
theorem AtSegment.within (hi : AtSegment x rest s) (hn : ¬ PastSegment x rest s) :
    Within x rest s e := by
  cases hi with
  | before _ hsrc => exact .inr hsrc
  | phase _ _ hp =>
    obtain ⟨_, -, hp⟩ := hp
    exact .inl hp.not_ready
  | behind hr hsrc hh hd => exact absurd ⟨hr, hsrc, hh, hd⟩ hn

theorem AtSegment.keeps (hx : x.Counted) (hi : AtSegment x rest s) (hn : ¬ PastSegment x rest s) :
    AtSegment x rest (rxTcpMachine.cycle s e) := by
  have hkeeps := InUnit.keeps (a := e) RxTcpOutput.handles_counts.handles hx hi hn
  rw [← counted_cycle] at hkeeps
  exact hkeeps

theorem Start.atSegment (h : Start x rest s) : AtSegment x rest s := by
  obtain ⟨hr, hsrc, hh, hd⟩ := h
  refine .before hr hsrc hh ?_
  show List.replicate (s.data.flatMap Beat.bytes).length () = []
  rw [hd]
  rfl

theorem Visit.atSegment (hx : x.Counted) (h : Visit x rest s) : AtSegment x rest s := by
  refine Reach.invariant (I := AtSegment x rest) (fun s hs => hs.atSegment) ?_ h
  intro s e s' hi hw hstep
  cases hstep
  exact hi.keeps hx hw.not_past

theorem AtSegment.emitted_le (hi : AtSegment x rest s) :
    (s.data.flatMap Beat.bytes).length ≤ x.given := by
  obtain ⟨-, -, hpre⟩ := hi.beginning
  have hle := hpre.length_le
  have hgiven : ([] ++ looseLines.kind.data x).length = x.given := List.length_replicate
  have hcount : (counted s).data.length = (s.data.flatMap Beat.bytes).length :=
    List.length_replicate
  rwa [hgiven, hcount] at hle

theorem AtSegment.hdr_mem (hi : AtSegment x rest s) : ∀ h ∈ s.hdrs, h = x.hdr := by
  obtain ⟨⟨-, hpre⟩, -⟩ := hi.beginning
  intro h hmem
  exact List.mem_singleton.mp (hpre.subset hmem)

theorem AtSegment.ends (hx : x.Counted) (hi : AtSegment x rest s) {sched : Nat → OutputEnv}
    (hf : Fair OutputEnv.Given sched) :
    ∃ n, PastSegment x rest (exec rxTcpMachine.cycle s sched n) := by
  obtain ⟨n, hn⟩ := InUnit.ends RxTcpOutput.handles_counts.handles hx hi hf
  rw [← exec_map counted_cycle] at hn
  exact ⟨n, hn⟩

/-- The end of the segment is visited. -/
theorem Visit.ends (hx : x.Counted) (h : Visit x rest s) {sched : Nat → OutputEnv}
    (hf : Fair OutputEnv.Given sched) :
    ∃ n, Visit x rest (exec rxTcpMachine.cycle s sched n) ∧
      PastSegment x rest (exec rxTcpMachine.cycle s sched n) := by
  classical
  have hends := AtSegment.ends hx (h.atSegment hx) hf
  have hvisit : ∀ n ≤ Nat.find hends, Visit x rest (exec rxTcpMachine.cycle s sched n) := by
    intro n
    induction n with
    | zero => exact fun _ => h
    | succ n ih =>
      intro hn
      have hv := ih (Nat.le_of_succ_le hn)
      have hnot := Nat.find_min hends hn
      exact .next (sched n) hv ((Visit.atSegment hx hv).within hnot) rfl
  exact ⟨_, hvisit _ (Nat.le_refl _), Nat.find_spec hends⟩

theorem contains_of_consistent (hg : x.good = true) (hc : x.Consistent) : Contains x := by
  have hx : x.Counted := ⟨hg, hc.lines⟩
  have hsize := LooseSegment.toNat_payloadSize hc.header
  have hgiven : x.given ≤ x.len := (LooseSegment.given_le_iff hc.header hc.payload).mpr hc.behind
  refine ⟨?_, ?_, ?_, ?_, ?_⟩
  · rw [hsize]
    exact Nat.sub_add_cancel hc.header
  · intro rest s h
    exact (AtSegment.emitted_le (Visit.atSegment hx h)).trans hgiven
  · intro rest s h hd hmem b hb error addr dataVal dstRdy
    rw [AtSegment.hdr_mem (Visit.atSegment hx h) hd hmem, recordedLen_eq hb]
    exact hsize.trans_le hc.payload
  · intro rest s h hready
    cases Visit.atSegment hx h with
    | before _ hsrc => exact .inl hsrc
    | phase _ _ hp =>
      obtain ⟨_, -, hp⟩ := hp
      exact absurd hready hp.not_ready
    | behind _ hsrc => exact .inr hsrc
  · intro rest s h sched hf
    obtain ⟨n, hr, hsrc, -⟩ := AtSegment.ends hx (Visit.atSegment hx h) hf
    exact ⟨n, hr, hsrc⟩

/-! ### What goes wrong otherwise -/

/-- The first line of a good segment takes the controller out of `READY`. -/
theorem not_ready_of_begins {r : RxTcpOutput} {i : OutputWires} (hb : r.begins i = true) :
    (r.next i).parseState ≠ .ready := by
  obtain ⟨⟨hs, hv⟩, hm⟩ : (r.parseState = .ready ∧ i.respVal = true) ∧
      chksumMatch i.resp.data = true := by simpa [RxTcpOutput.begins] using hb
  simp only [RxTcpOutput.next, RxTcpOutput.parseNext, hs, hv, hm, if_true]
  split
  · decide
  · split
    · split <;> decide
    · decide

theorem start_reset (x : LooseSegment) : Start x [] (reset x.lines) :=
  ⟨⟨rfl, rfl⟩, (List.append_nil _).symm, rfl, rfl⟩

/-- After one cycle and after two cycles in which everything happens. -/
def afterOne (x : LooseSegment) : RxTcpSystem := rxTcpMachine.cycle (reset x.lines) .calm

def afterTwo (x : LooseSegment) : RxTcpSystem := rxTcpMachine.cycle (afterOne x) .calm

theorem visit_afterOne (x : LooseSegment) : Visit x [] (afterOne x) :=
  .next OutputEnv.calm (.start (start_reset x)) (.inr (start_reset x).2.1) rfl

theorem fair_calm : Fair OutputEnv.Given fun _ => OutputEnv.calm := by
  intro k n
  refine ⟨n, Nat.le_refl n, ?_⟩
  cases k with
  | line => exact rfl
  | data => exact ⟨rfl, rfl⟩
  | hdr => exact rfl

theorem hdr_comes_out (hg : x.good = true) :
    Visit x [] (afterTwo x) ∧ (afterTwo x).hdrs = [x.hdr] := by
  obtain ⟨hbeg, hout, hhdr⟩ := RxTcpOutput.begins_line (r := (reset x.lines).ctrl)
    (i := OutputEnv.calm.wires x.lines) ⟨rfl, rfl⟩ rfl hg
  have hne : (afterOne x).ctrl.parseState ≠ .ready := not_ready_of_begins hbeg
  refine ⟨.next OutputEnv.calm (visit_afterOne x) (.inl hne) rfl, ?_⟩
  have hval : (afterOne x).ctrl.hdrVal = true := beq_iff_eq.mpr hout
  have hgiven : (afterOne x).ctrl.hdrGiven (OutputEnv.calm.wires (afterOne x).src) =
      [(afterOne x).ctrl.hdrOut] := by
    rw [RxTcpOutput.hdrGiven, RxTcpOutput.givesHdr, hval]
    rfl
  show (afterOne x).hdrs ++
    (afterOne x).ctrl.hdrGiven (OutputEnv.calm.wires (afterOne x).src) = _
  rw [hgiven]
  exact congrArg (fun h => [h]) hhdr

/-- The rest of the header does not come, and the controller waits for it. -/
theorem waits_for_header (hg : x.good = true) (hspill : 52 < x.hdrLen) (hnil : x.tail = [])
    (sched : Nat → OutputEnv) (n : Nat) :
    (exec rxTcpMachine.cycle (afterOne x) sched n).ctrl.parseState = .tcpHdrDrain ∧
      (exec rxTcpMachine.cycle (afterOne x) sched n).src = [] := by
  induction n with
  | zero =>
    have hsp : hdrSpills x.head.data = true := by
      rw [hdrSpills, LooseSegment.toNat_hdrBytes]
      exact decide_eq_true hspill
    have hmatch : chksumMatch x.head.data = true := hg
    refine ⟨?_, hnil⟩
    show ((reset x.lines).ctrl.next (OutputEnv.calm.wires x.lines)).parseState = _
    simp [RxTcpOutput.next, RxTcpOutput.parseNext, reset, OutputEnv.wires, OutputEnv.calm,
      LooseSegment.lines, hmatch, hsp]
  | succ n ih =>
    obtain ⟨hs, hsrc⟩ := ih
    have hval : (rxTcpMachine.wires (sched n)
        (exec rxTcpMachine.cycle (afterOne x) sched n).src).respVal = false := by
      rw [hsrc]
      exact Bool.and_false _
    refine ⟨?_, ?_⟩
    · show (RxTcpOutput.next _ _).parseState = _
      simp [RxTcpOutput.next, RxTcpOutput.parseNext, hs, hval]
    · show (if _ then List.tail _ else _) = _
      rw [hsrc]
      exact ite_self _

theorem lines_of_contains (hg : x.good = true) (hc : Contains x) :
    x.hdrLines ≤ x.lines.length := by
  by_contra hlt
  have hlen : x.lines.length = x.tail.length + 1 := rfl
  have hspill : 52 < x.hdrLen := by
    by_contra hno
    have hone : x.hdrLines = 1 := if_neg hno
    omega
  have htwo : x.hdrLines = 2 := if_pos hspill
  have hnil : x.tail = [] := List.eq_nil_of_length_eq_zero (by omega)
  obtain ⟨n, hidle, -⟩ := hc.returns [] _ (visit_afterOne x) _ fair_calm
  have hwaits := (waits_for_header hg hspill hnil (fun _ => OutputEnv.calm) n).1
  rw [hidle.1] at hwaits
  cases hwaits

/-- All bytes are given out in some run. -/
theorem given_le_of_contains (hx : x.Counted) (hc : Contains x) : x.given ≤ x.len := by
  obtain ⟨n, hv, -, -, -, hd⟩ := Visit.ends hx (.start (start_reset x)) fair_calm
  have hcount := congrArg List.length hd
  have hle := hc.emitted [] _ hv
  have hgiven : ([] ++ looseLines.kind.data x).length = x.given := List.length_replicate
  rw [hgiven, counted, List.length_replicate] at hcount
  omega

theorem consistent_of_contains (hg : x.good = true) (hc : Contains x) : x.Consistent := by
  have hwrap := hc.unwrapped
  have hhdr : x.hdrLen ≤ x.lenField := by omega
  have hpay : x.lenField - x.hdrLen ≤ x.len := by
    obtain ⟨hreach, hhdrs⟩ := hdr_comes_out hg
    have hle := hc.recorded [] _ hreach x.hdr (by simp [hhdrs]) .reset rfl false 0 false false
    rw [recordedLen_eq rfl] at hle
    exact (LooseSegment.toNat_payloadSize hhdr).symm.trans_le hle
  have hlines := lines_of_contains hg hc
  exact ⟨hhdr, hpay, hlines,
    (LooseSegment.given_le_iff hhdr hpay).mp (given_le_of_contains ⟨hg, hlines⟩ hc)⟩

end RxTcpSystem

/-- A segment with a good checksum is handled within its own bytes exactly if its lengths agree. -/
theorem rx_tcp_format_contains_iff (x : LooseSegment) (hg : x.good = true) :
    RxTcpSystem.Contains x ↔ x.Consistent :=
  ⟨RxTcpSystem.consistent_of_contains hg, RxTcpSystem.contains_of_consistent hg⟩

/-! ### Fixed segments -/

theorem carriesBytes_one {l : AxisLine} {k : Nat} (hl : l.last = true) (hpos : 0 < k)
    (hk : k ≤ 64) : CarriesBytes [l] k := by
  rw [CarriesBytes, if_pos hk]
  exact ⟨rfl, hl, hpos⟩

/-- A segment of one line with `len` bytes, a length in the pseudo header and one of the header. -/
def oneLine (length : BitVec 16) (offset : BitVec 4) (len : Nat) (hlen : 12 + len ≤ 64) :
    LooseSegment where
  head := chkLine length { (default : TcpPktHdr) with rawDataOffset := offset } true
  tail := []
  len := len
  carries := carriesBytes_one rfl (Nat.lt_of_lt_of_le (by decide) (Nat.le_add_right 12 len)) hlen

/-- A segment of 20 bytes whose header claims to have 24. -/
def wrappingSegment : LooseSegment := oneLine 20 6 20 (by decide)

/-- A segment of 52 bytes whose pseudo header claims that there are 100. -/
def claimingSegment : LooseSegment := oneLine 100 5 52 (by decide)

/-- A header of 20 bytes leaves four bytes of 24; one of 24 bytes does not fit in 20; and 80 bytes
of payload do not come in 52. -/
theorem rx_tcp_format_contains_iff_two :
    (oneLine 24 5 24 (by decide)).good = true ∧
      RxTcpSystem.Contains (oneLine 24 5 24 (by decide)) ∧
      wrappingSegment.good = true ∧ ¬ RxTcpSystem.Contains wrappingSegment ∧
      claimingSegment.good = true ∧ ¬ RxTcpSystem.Contains claimingSegment := by
  refine ⟨by decide +kernel, (rx_tcp_format_contains_iff _ (by decide +kernel)).mpr ?_,
    by decide +kernel, fun h => ?_, by decide +kernel, fun h => ?_⟩
  · exact (LooseSegment.consistent_iff_of_exact (by decide +kernel)).mpr (by decide +kernel)
  · have hhdr := ((rx_tcp_format_contains_iff _ (by decide +kernel)).mp h).header
    exact absurd hhdr (by decide +kernel)
  · have hpay := ((rx_tcp_format_contains_iff _ (by decide +kernel)).mp h).payload
    exact absurd hpay (by decide +kernel)

/-- The segment of 20 bytes makes the controller give out a line of 64 bytes. -/
theorem rx_tcp_format_overruns : ¬ ∀ x : LooseSegment, x.good = true → RxTcpSystem.Contains x := by
  intro h
  have hs : ∃ s, Reach (RxTcpSystem.Start wrappingSegment []) rxTcpMachine.step
      (RxTcpSystem.Within wrappingSegment []) s ∧
        decide (64 ≤ (s.data.flatMap Beat.bytes).length ∧ wrappingSegment.len = 20) = true :=
    Reach.exists_of_run (s := RxTcpSystem.reset wrappingSegment.lines) [.calm, .calm]
      ⟨⟨rfl, rfl⟩, rfl, rfl, rfl⟩ (by decide +kernel)
  obtain ⟨s, hs, hp⟩ := hs
  obtain ⟨hlong, hlen⟩ := of_decide_eq_true hp
  have hle := (h wrappingSegment (by decide +kernel)).emitted [] s hs
  omega

end TcpHw
