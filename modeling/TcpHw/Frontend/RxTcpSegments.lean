import TcpHw.Frontend.RxTcpPhases
import TcpHw.Lib.Machines

/-!
# Segments behind the checksum engine

A good segment whose header fits is given out whole, and a bad segment of more than one line is
dropped whole: the controller comes back to `READY` with the lines behind the segment untouched. Two
kinds of segments are not treated so. A bad segment of one line sends the controller to `DRAIN` with
its last line already taken, so the next segment is dropped in its place. A segment whose header is
longer than the segment makes the length of its payload wrap around.
-/
namespace TcpHw

open Bytes Framing Machines Trace

set_option autoImplicit false

/-! ### The system -/

/-- The controller behind the engine. -/
def rxTcpLines :
    LineMachine RxTcpOutput AxisLine OutputWires OutputEnv RxTcpHdr (Beat (BitVec 8)) where
  wires := OutputEnv.wires
  next := RxTcpOutput.next
  takes := RxTcpOutput.takes
  hdrGiven := RxTcpOutput.hdrGiven
  dataGiven := RxTcpOutput.dataGiven

abbrev rxTcpMachine := rxTcpLines.machine

/-- The controller, the lines the engine still has and what was given out. -/
abbrev RxTcpSystem := System RxTcpOutput (List AxisLine) RxTcpHdr (Beat (BitVec 8))

/-- What the ports owe for a segment: nothing if it is bad. -/
def segmentLines : LineKind ChkSegment AxisLine RxTcpHdr (Beat (BitVec 8)) where
  lines := ChkSegment.lines
  hdrs x := if x.good then [x.hdr] else []
  data x := if x.good then beats 64 x.payload else []

namespace RxTcpOutput

def awaits (r : RxTcpOutput) : OutputEvent :=
  match r.parseState with
  | .ready | .tcpHdrDrain | .firstData | .drain => .line
  | .dataOutput | .dataOutputLast => .data
  | .dataWaitTxFin => .hdr

def phases : LinePhases RxTcpOutput AxisLine RxTcpHdr (Beat (BitVec 8)) OutputEvent where
  idle := Idle
  inside := Phase
  busy r := r.parseState != .ready
  awaits := awaits

/-! ### The first line -/

/-- The segment is given out or dropped whole: its header fits if its checksum is good, and it has
more than one line if it is bad. -/
def Handled (x : ChkSegment) : Prop :=
  (x.good = true → x.Fits) ∧ (x.good = false → 64 < 12 + x.len)

instance (x : ChkSegment) : Decidable (Handled x) := inferInstanceAs (Decidable (_ ∧ _))

variable {r : RxTcpOutput} {i : OutputWires} {x : ChkSegment}

/-- A segment of more than one line. -/
theorem head_not_last (hlong : 64 < 12 + x.len) : x.head.last = false := by
  cases hlast : x.head.last with
  | false => rfl
  | true =>
    have hle := (x.carries_lines.of_last hlast).2
    omega

/-- The header machine after a first line with a good checksum. -/
theorem begins_line (hr : r.Idle) (hv : i.respVal = true)
    (hmatch : chksumMatch i.resp.data = true) :
    r.begins i = true ∧ (r.next i).hdrState = .output ∧
      (r.next i).hdrOut = .ofLine i.resp.data := by
  obtain ⟨hs, hm⟩ := hr
  have hbeg : r.begins i = true := by simp [begins, hs, hv, hmatch]
  refine ⟨hbeg, ?_, ?_⟩
  · simp [next, hdrNext, hm, hs, hv, hmatch]
  · simp [hdrOut, next, hbeg, RxTcpHdr.ofLine]

theorem begins_hdr (hr : r.Idle) (hv : i.respVal = true) (hl : i.resp = x.head)
    (hg : x.good = true) :
    r.begins i = true ∧ (r.next i).hdrState = .output ∧ (r.next i).hdrOut = x.hdr := by
  have hbegins := begins_line hr hv (by rw [hl]; exact hg)
  rw [hl] at hbegins
  exact hbegins

/-- The registers after the first line of a good segment. -/
theorem begins_good (hr : r.Idle) (hv : i.respVal = true) (hl : i.resp = x.head)
    (hg : x.good = true) (hfits : x.Fits) :
    r.begins i = true ∧ (r.next i).HdrOwes [x.hdr] ∧
      (r.next i).bytesLeft.toNat = x.len - x.hdrLen := by
  obtain ⟨hbeg, hout, hhdr⟩ := begins_hdr hr hv hl hg
  refine ⟨hbeg, .inl ⟨hout, by rw [hhdr]⟩, ?_⟩
  rw [← x.toNat_payloadSize hfits]
  simp [next, bytesLeftNext, hr.1, hbeg, hl]

/-- The header goes on in the second line. -/
theorem begins_spilling (hr : r.Idle) (hv : i.respVal = true) (hl : i.resp = x.head)
    (hg : x.good = true) (hfits : x.Fits) (hspill : 52 < x.hdrLen) :
    (r.next i).Phase x.tail [x.hdr] (beats 64 x.payload) := by
  obtain ⟨hbeg, hhdr, hleft⟩ := begins_good hr hv hl hg hfits
  have hs := hr.1
  have hmatch : chksumMatch x.head.data = true := hg
  have hle : x.hdrLen ≤ x.len := hfits
  have hhb : (tcpHdrCast x.head.data).hdrBytes.toNat = x.hdrLen := TcpPktHdr.toNat_hdrBytes _
  have hmax := x.hdrLen_le
  have hfirst : (lineBytes x.head.data).length = 64 := length_lineBytes _
  have hsp : hdrSpills x.head.data = true := by rw [x.hdrSpills_eq]; simp [hspill]
  have hrem : (r.next i).hdrBytesRem.toNat = x.hdrLen - 52 := by
    have hnext : (r.next i).hdrBytesRem = 12 + (tcpHdrCast x.head.data).hdrBytes - 64 := by
      simp [next, hdrBytesRemNext, hs, hbeg, hl, hsp]
    rw [hnext]
    bv_omega
  have hlast : x.head.last = false := head_not_last (by omega)
  refine .hdrDrain (12 + x.len - 64) ?_ hhdr (x.carries_lines.of_not_last hlast).2 (by omega)
    (by omega) (by omega) ?_
  · simp [next, parseNext, hs, hv, hl, hmatch, hsp]
  · have hcut : (12 + x.hdrLen) - 64 = x.hdrLen - 52 := by omega
    rw [hrem, ChkSegment.payload, ChkSegment.lines, take_axisBytes_cons (by omega),
      List.drop_append, hfirst, hcut, List.drop_of_length_le (by omega), List.nil_append]

/-- The header ends in the first line, and more lines follow. -/
theorem begins_longer (hr : r.Idle) (hv : i.respVal = true) (hl : i.resp = x.head)
    (hg : x.good = true) (hfits : x.Fits) (hspill : x.hdrLen ≤ 52) (hlong : 64 < 12 + x.len) :
    (r.next i).Phase x.tail [x.hdr] (beats 64 x.payload) := by
  obtain ⟨hbeg, hhdr, hleft⟩ := begins_good hr hv hl hg hfits
  have hs := hr.1
  have hmatch : chksumMatch x.head.data = true := hg
  have hhb : (tcpHdrCast x.head.data).hdrBytes.toNat = x.hdrLen := TcpPktHdr.toNat_hdrBytes _
  have hfirst : (lineBytes x.head.data).length = 64 := length_lineBytes _
  have hsp : hdrSpills x.head.data = false := by rw [x.hdrSpills_eq]; simp [hspill]
  have hlast : x.head.last = false := head_not_last hlong
  have hrem : (r.next i).hdrBytesRem.toNat = 12 + x.hdrLen := by
    have hnext : (r.next i).hdrBytesRem = 12 + (tcpHdrCast x.head.data).hdrBytes := by
      simp [next, hdrBytesRemNext, hs, hbeg, hl, hsp]
    rw [hnext]
    bv_omega
  have hup : (r.next i).realignUpper = x.head.data := by
    simp [next, realignUpperNext, hs, hbeg, hl, hsp]
  refine .firstData (12 + x.len - 64) ?_ hhdr (x.carries_lines.of_not_last hlast).2 (by omega)
    (by omega) ?_
  · simp [next, parseNext, hs, hv, hl, hmatch, hsp, hlast]
  · rw [hrem, hup, ChkSegment.payload, ChkSegment.lines, take_axisBytes_cons (by omega),
      List.drop_append_of_le_length (by omega)]

/-- The segment has one line. -/
theorem begins_single (hr : r.Idle) (hv : i.respVal = true) (hl : i.resp = x.head)
    (hg : x.good = true) (hfits : x.Fits) (hshort : 12 + x.len ≤ 64) :
    (r.next i).Phase x.tail [x.hdr] (beats 64 x.payload) := by
  obtain ⟨hbeg, hhdr, hleft⟩ := begins_good hr hv hl hg hfits
  have hs := hr.1
  have hmatch : chksumMatch x.head.data = true := hg
  have hle : x.hdrLen ≤ x.len := hfits
  have hhb : (tcpHdrCast x.head.data).hdrBytes.toNat = x.hdrLen := TcpPktHdr.toNat_hdrBytes _
  have hfirst : (lineBytes x.head.data).length = 64 := length_lineBytes _
  have hsp : hdrSpills x.head.data = false := by
    rw [x.hdrSpills_eq]
    exact decide_eq_false (by omega)
  have hlast : x.head.last = true := by
    cases hlast : x.head.last with
    | true => rfl
    | false =>
      have hlong := (x.carries_lines.of_not_last hlast).1
      omega
  have hnil : x.tail = [] := (x.carries_lines.of_last hlast).1
  have hsize := x.toNat_payloadSize hfits
  rw [hnil]
  by_cases hz : payloadSizeCalc x.head.data = 0
  · refine .waitTxFin ?_ hhdr rfl ?_
    · simp [next, parseNext, hs, hv, hl, hmatch, hsp, hlast, hz]
    · have hempty : x.payload = [] := by
        refine List.eq_nil_of_length_eq_zero ?_
        rw [x.length_payload hfits, ← hsize, hz]
        rfl
      rw [hempty, beats_nil]
  · have hpos : 0 < x.len - x.hdrLen := by
      rw [← hsize]
      exact Nat.pos_of_ne_zero fun h0 => hz (BitVec.eq_of_toNat_eq h0)
    have hrem : (r.next i).hdrBytesRem.toNat = 12 + x.hdrLen := by
      have hnext : (r.next i).hdrBytesRem = 12 + (tcpHdrCast x.head.data).hdrBytes := by
        simp [next, hdrBytesRemNext, hs, hbeg, hl, hsp]
      rw [hnext]
      bv_omega
    have hup : (r.next i).realignUpper = x.head.data := by
      simp [next, realignUpperNext, hs, hbeg, hl, hsp]
    refine .dataOutputLast ?_ hhdr rfl (by omega) (by omega) (by omega) ?_
    · simp only [next, parseNext, hs, hv, hl, hmatch, hsp, hlast, if_true,
        Bool.false_eq_true, if_false, if_neg hz]
    · have hsub : 12 + x.len - (12 + x.hdrLen) = x.len - x.hdrLen := by omega
      rw [held, hup, hrem, hleft, List.take_append_of_le_length
        (by rw [List.length_drop]; omega), ChkSegment.payload, ChkSegment.lines, hnil,
        axisBytes_cons, axisBytes_nil, List.append_nil, List.drop_take, hsub]

/-- The controller has taken the first line of the segment. -/
theorem begins_phase (hr : r.Idle) (hx : Handled x) (hv : i.respVal = true)
    (hl : i.resp = x.head) : (r.next i).Phase x.tail (segmentLines.hdrs x) (segmentLines.data x) := by
  cases hg : x.good with
  | false =>
    have howes : segmentLines.hdrs x = [] ∧ segmentLines.data x = [] := by simp [segmentLines, hg]
    have hmatch : chksumMatch x.head.data = false := hg
    obtain ⟨hs, hm⟩ := hr
    rw [howes.1, howes.2]
    refine .drain (12 + x.len - 64) ?_ ?_ rfl
      (x.carries_lines.of_not_last (head_not_last (hx.2 hg))).2 rfl
    · simp [next, parseNext, hs, hv, hl, hmatch]
    · simp [next, hdrNext, hm, hs, hv, hl, hmatch]
  | true =>
    have howes : segmentLines.hdrs x = [x.hdr] ∧ segmentLines.data x = beats 64 x.payload := by
      simp [segmentLines, hg]
    have hfits := hx.1 hg
    rw [howes.1, howes.2]
    by_cases hspill : 52 < x.hdrLen
    · exact begins_spilling hr hv hl hg hfits hspill
    · by_cases hlong : 64 < 12 + x.len
      · exact begins_longer hr hv hl hg hfits (Nat.le_of_not_lt hspill) hlong
      · exact begins_single hr hv hl hg hfits (Nat.le_of_not_lt hlong)

/-! ### The controller handles segments -/

theorem idle_gives (hr : r.Idle) : r.hdrGiven i = [] ∧ r.dataGiven i = [] := by
  obtain ⟨hs, hm⟩ := hr
  refine ⟨?_, ?_⟩
  · simp [hdrGiven, givesHdr, hdrVal, hm]
  · simp [dataGiven, gives, dataVal, hs]

theorem idle_still (hr : r.Idle) (ht : r.takes i = false) : (r.next i).Idle := by
  obtain ⟨hs, hm⟩ := hr
  have hv : i.respVal = false := by simpa [takes, respRdy, hs] using ht
  refine ⟨?_, ?_⟩
  · simp [next, parseNext, hs, hv]
  · simp [next, hdrNext, hm, hv]

theorem Phase.not_ready {cur : List AxisLine} {h : List RxTcpHdr} {d : List (Beat (BitVec 8))}
    (hp : r.Phase cur h d) : r.parseState ≠ .ready := by
  cases hp with
  | hdrDrain _ hs | firstData _ hs | dataOutput _ hs | dataOutputLast hs | drain _ hs
  | waitTxFin hs =>
    rw [hs]
    decide

/-- Where nothing moves, the data machine stays in its state. -/
theorem awaits_next (ht : r.takes i = false) (hgives : r.gives i = false)
    (hl : r.parseState ≠ .ready → (r.next i).parseState ≠ .ready) :
    (r.next i).awaits = r.awaits := by
  have hst : (r.next i).parseState = r.parseState := by
    show r.parseNext i = _
    cases hst : r.parseState with
    | ready | tcpHdrDrain | firstData | drain =>
      have hv : i.respVal = false := by simpa [takes, respRdy, hst] using ht
      simp [parseNext, hst, hv]
    | dataOutput => simp [parseNext, hst, hgives]
    | dataOutputLast =>
      have hr : i.dataRdy = false := by simpa [gives, dataVal, hst] using hgives
      simp [parseNext, hst, hr]
    | dataWaitTxFin =>
      have hh : r.hdrState ≠ .waitTxFin := by
        intro hh
        exact hl (by simp [hst]) (by simp [next, parseNext, hst, hh])
      simp [parseNext, hst, hh]
  rw [awaits, hst]
  rfl

theorem awaits_still (hm : rxTcpLines.moves phases r i = false) :
    (r.next i).awaits = r.awaits := by
  obtain ⟨⟨⟨ht, -⟩, hg⟩, hl⟩ : ((r.takes i = false ∧ r.hdrGiven i = []) ∧ r.dataGiven i = []) ∧
      (r.parseState ≠ .ready → (r.next i).parseState ≠ .ready) := by
    simpa [LineMachine.moves, rxTcpLines, phases] using hm
  exact awaits_next ht (by simpa [dataGiven] using hg) hl

/-- When the awaited event comes something moves, given lines where lines are taken and a header
machine that waits for the data machine where that waits. -/
theorem moves_of_given {e : OutputEnv} {src : List AxisLine} (hg : e.Given r.awaits)
    (hsrc : r.parseState ≠ .dataOutputLast → r.parseState ≠ .dataWaitTxFin → src ≠ [])
    (hh : r.parseState = .dataWaitTxFin → r.hdrState = .output ∨ r.hdrState = .waitTxFin) :
    r.takes (e.wires src) = true ∨ r.givesHdr (e.wires src) = true ∨
      r.gives (e.wires src) = true ∨
        r.parseState ≠ .ready ∧ (r.next (e.wires src)).parseState = .ready := by
  cases hst : r.parseState with
  | ready | tcpHdrDrain | firstData | drain =>
    have ho : e.offer = true := by simpa [awaits, hst, OutputEnv.Given] using hg
    have hv := OutputEnv.val_of_offer ho (hsrc (by simp [hst]) (by simp [hst]))
    exact .inl (by simp [takes, respRdy, hst, hv])
  | dataOutput =>
    obtain ⟨ho, hr⟩ : e.offer = true ∧ e.dataRdy = true := by
      simpa [awaits, hst, OutputEnv.Given] using hg
    have hv := OutputEnv.val_of_offer ho (hsrc (by simp [hst]) (by simp [hst]))
    refine .inl ?_
    rw [takes, hv, respRdy, hst]
    exact hr
  | dataOutputLast =>
    obtain ⟨-, hr⟩ : e.offer = true ∧ e.dataRdy = true := by
      simpa [awaits, hst, OutputEnv.Given] using hg
    exact .inr (.inr (.inl (by simp [gives, dataVal, hst, OutputEnv.wires, hr])))
  | dataWaitTxFin =>
    have hr : e.hdrRdy = true := by simpa [awaits, hst, OutputEnv.Given] using hg
    rcases hh hst with ho | hw
    · exact .inr (.inl (by simp [givesHdr, hdrVal, ho, OutputEnv.wires, hr]))
    · exact .inr (.inr (.inr ⟨by simp, by simp [next, parseNext, hst, hw]⟩))

theorem HdrOwes.waits {h : List RxTcpHdr} (hh : r.HdrOwes h) :
    r.hdrState = .output ∨ r.hdrState = .waitTxFin := hh.imp And.left And.left

/-- Inside a segment something moves when the awaited event comes. -/
theorem Phase.stirs {cur tail : List AxisLine} {h : List RxTcpHdr} {d : List (Beat (BitVec 8))}
    {e : OutputEnv} (hp : r.Phase cur h d) (hg : e.Given r.awaits) :
    rxTcpLines.moves phases r (e.wires (cur ++ tail)) = true := by
  have hsrc : r.parseState ≠ .dataOutputLast → r.parseState ≠ .dataWaitTxFin →
      cur ++ tail ≠ [] := by
    intro hne hne'
    have hcur : cur ≠ [] := by
      cases hp with
      | hdrDrain k hst _ hc | firstData k hst _ hc | dataOutput k hst _ hc
      | drain k hst _ _ hc => exact hc.ne_nil
      | dataOutputLast hst => exact absurd hst hne
      | waitTxFin hst => exact absurd hst hne'
    exact List.append_ne_nil_of_left_ne_nil hcur tail
  have hhdr : r.parseState = .dataWaitTxFin →
      r.hdrState = .output ∨ r.hdrState = .waitTxFin := by
    intro hst
    cases hp with
    | waitTxFin _ hh => exact hh.waits
    | hdrDrain _ hs | firstData _ hs | dataOutput _ hs | dataOutputLast hs | drain _ hs =>
      rw [hst] at hs
      cases hs
  have hmoves := moves_of_given hg hsrc hhdr
  simpa [LineMachine.moves, rxTcpLines, phases, hdrGiven, dataGiven, or_assoc] using hmoves

theorem handles : LineHandles rxTcpLines segmentLines phases OutputEnv.Given Handled where
  lines_ne x := List.cons_ne_nil _ _
  idle_busy r hr := by simp [phases, hr.1]
  inside_busy r cur h d hp := by simp [phases, hp.not_ready]
  takes_ne r e src ht := by
    obtain ⟨t, ht⟩ := OutputEnv.resp_of_val (Bool.and_eq_true_iff.mp ht).1
    rw [ht]
    exact List.cons_ne_nil _ _
  idle_gives r i hr := idle_gives hr
  idle_still r e src hr ht := idle_still hr ht
  idle_stirs r e src hr hne hg := by
    have ho : e.offer = true := by simpa [phases, awaits, hr.1, OutputEnv.Given] using hg
    show ((e.wires src).respVal && r.respRdy (e.wires src)) = true
    rw [OutputEnv.val_of_offer ho hne, respRdy, hr.1]
    rfl
  begins x tail r e hx hr ht := by
    have hv : (e.wires (x.lines ++ tail)).respVal = true := (Bool.and_eq_true_iff.mp ht).1
    obtain ⟨t, hsrc⟩ := OutputEnv.resp_of_val hv
    have hl : (e.wires (x.lines ++ tail)).resp = x.head := by
      rw [ChkSegment.lines, List.cons_append, List.cons.injEq] at hsrc
      exact hsrc.1.symm
    exact begins_phase hr hx hv hl
  advances r cur h d e tail hp := hp.advances fun hv => OutputEnv.resp_of_val hv
  stirs r cur h d e tail hp hg := hp.stirs hg
  awaits_still r i hm := awaits_still hm

end RxTcpOutput

/-! ### All segments -/

namespace RxTcpSystem

def goodHdrs (segs : List ChkSegment) : List RxTcpHdr :=
  (segs.filter ChkSegment.good).map ChkSegment.hdr

def goodData (segs : List ChkSegment) : List (Beat (BitVec 8)) :=
  (segs.filter ChkSegment.good).flatMap fun x => beats 64 x.payload

/-- Nothing is in the controller, and the engine has the segments. -/
def Init (segs : List ChkSegment) (s : RxTcpSystem) : Prop :=
  s.ctrl.Idle ∧ s.src = segs.flatMap ChkSegment.lines ∧ s.hdrs = [] ∧ s.data = []

/-- All good segments were given out, and the others were dropped. -/
def Delivered (segs : List ChkSegment) (s : RxTcpSystem) : Prop :=
  s.ctrl.Idle ∧ s.src = [] ∧ s.hdrs = goodHdrs segs ∧ s.data = goodData segs

/-- The good segments are given out in order, each with its own header and its own payload, and in
the end all of them are. -/
structure Isolates (segs : List ChkSegment) (s : RxTcpSystem) : Prop where
  hdrs : s.hdrs <+: goodHdrs segs
  data : s.data <+: goodData segs
  bytes : ∀ x ∈ segs, x.payload.length = x.len - x.hdrLen
  ends : ∀ sched, Fair OutputEnv.Given sched →
    ∃ n, Delivered segs (exec rxTcpMachine.cycle s sched n)

theorem flatMap_hdrs (segs : List ChkSegment) :
    segs.flatMap segmentLines.kind.hdrs = goodHdrs segs := by
  induction segs with
  | nil => rfl
  | cons x segs ih =>
    rw [List.flatMap_cons, ih]
    cases hg : x.good <;> simp [LineKind.kind, segmentLines, goodHdrs, hg]

theorem flatMap_data (segs : List ChkSegment) :
    segs.flatMap segmentLines.kind.data = goodData segs := by
  induction segs with
  | nil => rfl
  | cons x segs ih =>
    rw [List.flatMap_cons, ih]
    cases hg : x.good <;> simp [LineKind.kind, segmentLines, goodData, hg]

end RxTcpSystem

/-- Where every bad segment has more than one line, the good segments are given out as if the bad
ones were not there. -/
theorem rx_tcp_format_isolates (segs : List ChkSegment) (hfits : ∀ x ∈ segs, x.Fits)
    (hlong : ∀ x ∈ segs, x.good = false → 64 < 12 + x.len) {s : RxTcpSystem}
    (h : Reach (RxTcpSystem.Init segs) rxTcpMachine.step Free s) : RxTcpSystem.Isolates segs s := by
  have hx : ∀ x ∈ segs, RxTcpOutput.Handled x :=
    fun x hmem => ⟨fun _ => hfits x hmem, hlong x hmem⟩
  have hinit : ∀ s, RxTcpSystem.Init segs s →
      Between segmentLines.kind RxTcpOutput.phases.phases [] segs s := by
    rintro s ⟨hr, hsrc, hh, hd⟩
    exact ⟨hr, hsrc.trans (loadAll_lines segmentLines segs).symm, hh, hd⟩
  have hrun := inRun_of_reach RxTcpOutput.handles.handles hx (h.of_init hinit)
  obtain ⟨hhdrs, hdata⟩ := hrun.beginning
  rw [RxTcpSystem.flatMap_hdrs] at hhdrs
  rw [RxTcpSystem.flatMap_data] at hdata
  refine ⟨hhdrs, hdata, fun x hmem => x.length_payload (hfits x hmem), fun sched hf => ?_⟩
  obtain ⟨n, hr, hsrc, hh, hd⟩ := hrun.ends RxTcpOutput.handles.handles hx hf
  rw [RxTcpSystem.flatMap_hdrs] at hh
  rw [RxTcpSystem.flatMap_data] at hd
  exact ⟨n, hr, hsrc, hh, hd⟩

/-! ### Fixed segments -/

/-- The first line of a segment of the given length. -/
def chkLine (length : BitVec 16) (h : TcpPktHdr) (last : Bool) : AxisLine where
  data := (tcpPseudoHdr 1 2 length).bits ++ (h.bits ++ (0xab : BitVec (8 * 32)))
  keep := 0
  last := last
  user := 0

theorem pseudoHdrCast_chkLine (length : BitVec 16) (h : TcpPktHdr) (last : Bool) :
    pseudoHdrCast (chkLine length h last).data = tcpPseudoHdr 1 2 length := by
  show ChksumPseudoHdr.cast (BitVec.extractLsb' 416 96 (_ ++ _)) = _
  rw [BitVec.extractLsb'_append_eq_left, ChksumPseudoHdr.cast_bits]

/-- 20 bytes of header and four bytes of payload. -/
def shortSegment (seqNum : BitVec 32) (chksum : BitVec 16) : ChkSegment where
  head := chkLine 24 { (default : TcpPktHdr) with seqNum, chksum, rawDataOffset := 5 } true
  tail := []
  carries := by
    rw [pseudoHdrCast_chkLine]
    exact ⟨rfl, rfl, by decide⟩

/-- 24 bytes of header and 56 bytes of payload. -/
def longSegment (seqNum : BitVec 32) (chksum : BitVec 16) : ChkSegment where
  head := chkLine 80 { (default : TcpPktHdr) with seqNum, chksum, rawDataOffset := 6 } false
  tail := [⟨BitVec.ofNat 512 (0x1234 * 2 ^ 400), 0, true, 0⟩]
  carries := by
    rw [pseudoHdrCast_chkLine]
    exact ⟨rfl, rfl, rfl, by decide⟩

namespace RxTcpSystem

def reset (src : List AxisLine) : RxTcpSystem where
  ctrl := ⟨.ready, .waiting, default, default, 0, 0, 0, 0⟩
  src := src
  hdrs := []
  data := []

theorem init_reset (segs : List ChkSegment) : Init segs (reset (segs.flatMap ChkSegment.lines)) :=
  ⟨⟨rfl, rfl⟩, rfl, rfl, rfl⟩

end RxTcpSystem

/-- A bad segment of two lines between two good ones is dropped. -/
theorem rx_tcp_format_isolates_three :
    ∃ s, Reach (RxTcpSystem.Init [shortSegment 1 0, longSegment 2 1, longSegment 3 0])
        rxTcpMachine.step Free s ∧
      s.hdrs.map (fun h => (h.tcpTotLen, h.tcpHdr.seqNum)) = [(24, 1), (80, 3)] ∧
      s.data.map (fun b => (b.bytes.length, b.last, b.padbytes)) = [(4, true, 60), (56, true, 8)] ∧
      RxTcpSystem.Isolates [shortSegment 1 0, longSegment 2 1, longSegment 3 0] s := by
  have hs : ∃ s, Reach (RxTcpSystem.Init [shortSegment 1 0, longSegment 2 1, longSegment 3 0])
      rxTcpMachine.step Free s ∧
        decide (s.hdrs.map (fun h => (h.tcpTotLen, h.tcpHdr.seqNum)) = [(24, 1), (80, 3)] ∧
          s.data.map (fun b => (b.bytes.length, b.last, b.padbytes)) =
            [(4, true, 60), (56, true, 8)]) = true :=
    Reach.exists_of_run (List.replicate 16 .calm) (RxTcpSystem.init_reset _) (by decide +kernel)
  obtain ⟨s, hs, hp⟩ := hs
  obtain ⟨hh, hd⟩ := of_decide_eq_true hp
  exact ⟨s, hs, hh, hd, rx_tcp_format_isolates _ (by decide +kernel) (by decide +kernel) hs⟩

/-- A bad segment of one line is followed by two good segments, and the first of them is dropped
with it. -/
theorem rx_tcp_format_drops_next :
    ¬ ∀ segs : List ChkSegment, (∀ x ∈ segs, 20 ≤ x.hdrLen ∧ x.Fits) →
      ∀ s, Reach (RxTcpSystem.Init segs) rxTcpMachine.step Free s →
        RxTcpSystem.Isolates segs s := by
  intro h
  have hs : ∃ s, Reach (RxTcpSystem.Init [shortSegment 1 1, shortSegment 2 0, shortSegment 3 0])
      rxTcpMachine.step Free s ∧
        decide (s.hdrs.map (fun h => h.tcpHdr.seqNum) = [3]) = true :=
    Reach.exists_of_run (List.replicate 8 .calm) (RxTcpSystem.init_reset _) (by decide +kernel)
  obtain ⟨s, hs, hp⟩ := hs
  have hiso := h _ (by decide +kernel) s hs
  have hpre := hiso.hdrs.map (fun h => h.tcpHdr.seqNum)
  rw [of_decide_eq_true hp] at hpre
  have hno : ¬ [3] <+: (RxTcpSystem.goodHdrs
      [shortSegment 1 1, shortSegment 2 0, shortSegment 3 0]).map fun h => h.tcpHdr.seqNum := by
    decide +kernel
  exact hno hpre

end TcpHw
