import TcpHw.Frontend.RxTcpUnits

/-!
# `rx_tcp_format_wrap`

The input controller, the checksum engine and the output controller of the receive side. The lines
the engine has not given out yet are known up to their padding, so what is known of the output
controller is known for all lines that may come. In every cycle without a bubble the three keep to
what is owed for the segments, and everything that moves lowers what is left to do.
-/
namespace TcpHw

open Bytes Framing Machines

set_option autoImplicit false

/-- The registers of the three. -/
structure RxTcpWrap where
  inp : RxTcpInput
  chk : ChksumUnit
  out : RxTcpOutput

/-- What is still to come to each of the three, and what was given out. -/
structure RxTcpLists where
  pkts : List (ChkPkt 12)
  data : List (Beat (BitVec 8))
  reqs : List ChkTok
  resps : List ChkTok
  hdrs : List RxTcpHdr
  lines : List (Beat (BitVec 8))

namespace RxTcpWrap

variable (p : RxTcpWrap) (i : RxTcpInputWires) (o : OutputWires)

/-- The controllers are wired to the engine. -/
structure Wired : Prop where
  cmd : i.cmdRdy = p.chk.cmdRdy
  req : i.reqRdy = true → p.chk.transferIn = true
  val : o.respVal = p.chk.valid
  resp : ∀ l, p.chk.resp = some l → o.resp = l

/-- One clock edge. -/
def next (respond : Bool) : RxTcpWrap where
  inp := p.inp.next i
  chk := p.chk.step (if p.inp.takesHdr i then some tcpChksumCmd else none) (p.inp.sent i)
    (p.out.takes o) respond
  out := p.out.next o

/-- What is left after a cycle. -/
def left (l : RxTcpLists) : RxTcpLists where
  pkts := if p.inp.takesHdr i then l.pkts.tail else l.pkts
  data := if p.inp.takesData i then l.data.tail else l.data
  reqs := if (p.inp.sent i).isSome then l.reqs.tail else l.reqs
  resps := if p.out.takes o then l.resps.tail else l.resps
  hdrs := l.hdrs ++ p.out.hdrGiven o
  lines := l.lines ++ p.out.dataGiven o

/-- The lines `ls` follow those that the engine has. -/
def Follows (segs : List RxSegment) (l : RxTcpLists) (ls : List AxisLine) : Prop :=
  ∃ ys, List.Forall₂ ChkSegment.Shown ys segs ∧
    InRun RxUnit.kind.kind RxTcpOutput.phases.phases (ChkSegment.units ys)
      ⟨p.out, p.chk.out ++ ls ++ ChkSegment.missing ys, l.hdrs, l.lines⟩

/-- The segments are on their way. -/
structure Owes (segs : List RxSegment) (l : RxTcpLists) : Prop where
  inp : p.inp.general.Owes p.chk.transferIn l.pkts l.data l.reqs
  chk : p.chk.Holds 28 tcpChksumCmd l.reqs l.resps
  shown : ∃ ls, List.Forall₂ AxisLine.Shows ls l.resps
  out : ∀ ls, List.Forall₂ AxisLine.Shows (p.chk.out ++ ls) l.resps → p.Follows segs l ls

variable {p i o} {segs : List RxSegment} {l : RxTcpLists}

/-! ### The start -/

def resetLists (segs : List RxSegment) : RxTcpLists where
  pkts := segs.map RxSegment.pkt
  data := segs.flatMap fun x => beats 64 x.bytes
  reqs := (segs.map RxSegment.pkt).flatMap ChkPkt.toks
  resps := segs.flatMap fun x => frameToks 0 x.frame
  hdrs := []
  lines := []

/-- The engine seals one frame after the other. -/
theorem sealAll_frames (segs : List RxSegment) :
    sealAll 28 [] ((segs.map RxSegment.pkt).flatMap ChkPkt.toks) =
      segs.flatMap fun x => frameToks 0 x.frame := by
  induction segs with
  | nil => rfl
  | cons x segs ih =>
    have hlen := x.length_frame
    rw [RxSegment.frame, length_sealed] at hlen
    rw [List.map_cons, List.flatMap_cons, ChkPkt.toks, sealAll_frame _ _ _ _ (by omega),
      List.nil_append, sealToks_frame _ (by decide) (by omega), ih, List.flatMap_cons]
    rfl

theorem exists_shows_frames (segs : List RxSegment) :
    ∃ ls, List.Forall₂ AxisLine.Shows ls (segs.flatMap fun x => frameToks 0 x.frame) := by
  induction segs with
  | nil => exact ⟨[], .nil⟩
  | cons x segs ih =>
    have hlen := x.length_frame
    obtain ⟨ls, hls⟩ := ih
    obtain ⟨l, hl⟩ := AxisLine.exists_shows_frame 0 (show 0 < x.frame.length by omega)
    exact ⟨l ++ ls, List.rel_append hl hls⟩

theorem owes_reset (hx : ∀ x ∈ segs, x.Framed) (hinp : p.inp.state = .ready) (hchk : p.chk.Reset)
    (hout : p.out.Idle) : p.Owes segs (resetLists segs) := by
  have hlines : (segs.map RxSegment.pkt).flatMap ChkPkt.lines =
      segs.flatMap fun x => beats 64 x.bytes := by
    rw [List.flatMap_map]
    rfl
  refine ⟨.ready hinp hchk.1 hlines.symm rfl, ?_, exists_shows_frames segs, fun ls hls => ?_⟩
  · show ChksumUnit.Holds _ _ _ _ (segs.flatMap fun x => frameToks 0 x.frame)
    rw [← sealAll_frames]
    exact ChksumUnit.holds_reset hchk
  · rw [hchk.2.2.1, List.nil_append] at hls
    obtain ⟨ys, rfl, hys⟩ := exists_segments hx hls
    have hstart : Between RxUnit.kind.kind RxTcpOutput.phases.phases [] (ChkSegment.units ys)
        ⟨p.out, p.chk.out ++ ys.flatMap ChkSegment.lines ++ ChkSegment.missing ys, [], []⟩ := by
      refine ⟨hout, ?_, rfl, rfl⟩
      show p.chk.out ++ ys.flatMap ChkSegment.lines ++ ChkSegment.missing ys = _
      rw [hchk.2.2.1, List.nil_append, loadAll_lines]
      exact (ChkSegment.flatMap_units ys).symm
    exact ⟨ys, hys, hstart.inRun RxTcpOutput.handles_units.handles rfl⟩

/-! ### One cycle -/

theorem takesHdr_idle (hw : Wired p i o) (ht : p.inp.takesHdr i = true) :
    p.chk.transferIn = false := by
  have hcmd : i.cmdRdy = true := (Bool.and_eq_true_iff.mp ht).2
  rw [hw.cmd] at hcmd
  simpa [ChksumUnit.cmdRdy] using hcmd

theorem sent_busy (hw : Wired p i o) {a : AxisLine} (ha : a ∈ p.inp.sent i) :
    p.chk.transferIn = true := by
  refine hw.req ?_
  cases hq : i.reqRdy with
  | true => rfl
  | false => simp [RxTcpInput.sent, hq] at ha

theorem takes_valid (hw : Wired p i o) (ht : p.out.takes o = true) : p.chk.valid = true :=
  hw.val ▸ (Bool.and_eq_true_iff.mp ht).1

/-- The engine is in a frame while the input controller is. -/
theorem busy_next {r : RxTcpInput} {busy : Bool} (hb : busy = (r.state != .ready)) :
    (r.takesHdr i || (busy && !(r.sent i).any AxisLine.last)) = ((r.next i).state != .ready) := by
  subst hb
  show _ = (r.stateNext i != .ready)
  cases hs : r.state with
  | ready =>
    cases hh : r.takesHdr i <;> simp [RxTcpInput.stateNext, hs, hh]
  | chksumDataInput =>
    have hh : r.takesHdr i = false := by simp [RxTcpInput.takesHdr, hs]
    cases hq : i.reqRdy with
    | false =>
      have ht : r.takesData i = false := by simp [RxTcpInput.takesData, hq]
      simp [RxTcpInput.stateNext, RxTcpInput.sent, hs, hh, hq, ht]
    | true =>
      cases ht : r.takesData i <;> cases hl : i.line.last <;> cases hsp : RxTcpInput.spills i <;>
        (simp [RxTcpInput.stateNext, RxTcpInput.sent, RxTcpInput.req, hs, hh, hq, ht, hl, hsp]; try rfl)
  | chksumDataLast =>
    have hh : r.takesHdr i = false := by simp [RxTcpInput.takesHdr, hs]
    cases hq : i.reqRdy <;>
      simp [RxTcpInput.stateNext, RxTcpInput.sent, RxTcpInput.req, hs, hh, hq]

theorem busy_eq {r : RxTcpInput} {busy : Bool} {ps : List (ChkPkt 12)} {ds : List (Beat (BitVec 8))}
    {ts : List ChkTok} (ho : r.general.Owes busy ps ds ts) : busy = (r.state != .ready) := by
  cases ho with
  | ready hs hb =>
    have hs' : r.state = .ready := hs
    simp [hb, hs']
  | dataInput rest hs hb =>
    have hs' : r.state = .chksumDataInput := hs
    simp [hb, hs']
  | dataLast hs hb =>
    have hs' : r.state = .chksumDataLast := hs
    simp [hb, hs']

/-- The line that is presented is the first one owed. -/
theorem Owes.presented (ho : p.Owes segs l) (hw : Wired p i o) (hv : p.chk.valid = true) :
    ∃ t ts, l.resps = t :: ts ∧ p.chk.out = o.resp :: p.chk.out.tail ∧ o.resp.Shows t := by
  obtain ⟨a, as, ha⟩ := List.exists_cons_of_ne_nil (ho.chk.valid hv)
  have hr : p.chk.resp = some a := by simp [ChksumUnit.resp, hv, ha]
  obtain ⟨-, t, ts, hts, hshow⟩ := ho.chk.resp hr
  rw [hw.resp a hr, ha]
  exact ⟨t, ts, hts, rfl, hshow⟩

/-- The output controller sees the lines of the engine and those that follow as its source. -/
def env (p : RxTcpWrap) (o : OutputWires) : OutputEnv := ⟨p.chk.valid, o.hdrRdy, o.dataRdy, o.resp⟩

theorem wires_env (ho : p.Owes segs l) (hw : Wired p i o) (ls : List AxisLine) :
    (p.env o).wires (p.chk.out ++ ls) = o := by
  have hval : o.respVal = p.chk.valid := hw.val
  have hresp : (if p.chk.valid then (p.chk.out ++ ls).headD o.resp else o.resp) = o.resp := by
    cases hv : p.chk.valid with
    | false => rfl
    | true =>
      obtain ⟨-, -, -, hout, -⟩ := ho.presented hw hv
      rw [hout]
      rfl
  have hoffer : (p.chk.valid && !(p.chk.out ++ ls).isEmpty) = o.respVal := by
    rw [hval]
    cases hv : p.chk.valid with
    | false => rfl
    | true => simp [ho.chk.valid hv]
  exact OutputWires.mk.injEq .. |>.mpr ⟨hoffer, hresp, rfl, rfl⟩

theorem cycle_of_wires {e : OutputEnv} {src : List AxisLine} (h : e.wires src = o) {c : RxTcpOutput}
    {hs : List RxTcpHdr} {ds : List (Beat (BitVec 8))} : rxTcpMachine.cycle ⟨c, src, hs, ds⟩ e =
      ⟨c.next o, if c.takes o then src.tail else src, hs ++ c.hdrGiven o, ds ++ c.dataGiven o⟩ := by
  subst h
  rfl

/-- What the output controller does in a cycle, whatever lines follow. -/
theorem Follows.next (ho : p.Owes segs l) (hw : Wired p i o) (hx : ∀ x ∈ segs, x.Framed)
    (respond : Bool) {new ls : List AxisLine}
    (hnew : (p.next i o respond).chk.out =
      (if p.out.takes o then p.chk.out.tail else p.chk.out) ++ new)
    (hf : p.Follows segs l (new ++ ls)) :
    (p.next i o respond).Follows segs (p.left i o l) ls := by
  obtain ⟨ys, hys, hrun⟩ := hf
  refine ⟨ys, hys, ?_⟩
  have hkeep := hrun.keeps (a := p.env o) RxTcpOutput.handles_units.handles (units_handled hys hx)
  have hwires := wires_env ho hw (new ++ ls ++ ChkSegment.missing ys)
  rw [← List.append_assoc] at hwires
  have hsrc : (if p.out.takes o then (p.chk.out ++ (new ++ ls) ++ ChkSegment.missing ys).tail
      else p.chk.out ++ (new ++ ls) ++ ChkSegment.missing ys) =
        (p.next i o respond).chk.out ++ ls ++ ChkSegment.missing ys := by
    rw [hnew]
    cases ht : p.out.takes o with
    | false => simp
    | true =>
      have hne := ho.chk.valid (takes_valid hw ht)
      simp [List.tail_append_of_ne_nil, hne]
  rw [cycle_of_wires hwires, hsrc] at hkeep
  exact hkeep

/-- Every cycle without a bubble keeps to what is owed. -/
theorem Owes.keeps (ho : p.Owes segs l) (hw : Wired p i o) (hx : ∀ x ∈ segs, x.Framed)
    (hb : p.inp.bubble i = false) (respond : Bool)
    (hhdr : p.inp.takesHdr i = true → ∃ q ps, l.pkts = q :: ps ∧
      (tcpPseudoHdr i.srcIp i.dstIp i.tcpLen).bits = q.hdr ∧ q.timestamp = 0 ∧ q.body ≠ [])
    (hread : p.inp.takesData i = true → ∃ d ds, l.data = d :: ds ∧ i.line.read = d) :
    (p.next i o respond).Owes segs (p.left i o l) ∧ ((p.inp.sent i).isSome = true → l.reqs ≠ []) := by
  have hin := RxTcpInput.moves ho.inp hb hhdr hread
  have hcmd : ∀ x ∈ (if p.inp.takesHdr i then some tcpChksumCmd else none),
      x = tcpChksumCmd ∧ p.chk.transferIn = false := by
    intro x hx
    split_ifs at hx with ht
    · exact ⟨(Option.mem_some_iff.mp hx).symm, takesHdr_idle hw ht⟩
    · cases hx
  have hchk := ho.chk.step rfl (by decide) rfl respond hcmd
    (fun a ha => ⟨sent_busy hw ha, hin.sent a ha⟩) (takes_valid hw)
  have hbusy : (p.next i o respond).chk.transferIn = ((p.next i o respond).inp.state != .ready) := by
    have hstep : (p.next i o respond).chk.transferIn =
        (p.inp.takesHdr i || (p.chk.transferIn && !(p.inp.sent i).any AxisLine.last)) := by
      simp only [next, ChksumUnit.step]
      split_ifs with ht <;> simp [ht]
    rw [hstep, busy_next (busy_eq ho.inp)]
    rfl
  -- the lines that come out of the engine now are the first of those that follow
  obtain ⟨new, hnew⟩ : ∃ new, (p.next i o respond).chk.out =
      (if p.out.takes o then p.chk.out.tail else p.chk.out) ++ new := ⟨_, rfl⟩
  have hfirst : ∀ ls, List.Forall₂ AxisLine.Shows ((p.next i o respond).chk.out ++ ls)
      (p.left i o l).resps → List.Forall₂ AxisLine.Shows (p.chk.out ++ (new ++ ls)) l.resps := by
    intro ls hls
    rw [hnew, List.append_assoc] at hls
    cases ht : p.out.takes o with
    | false => simpa [left, ht] using hls
    | true =>
      obtain ⟨t, ts, hts, hout, hshow⟩ := ho.presented hw (takes_valid hw ht)
      rw [left, hts, ht, if_pos rfl, if_pos rfl, List.tail_cons] at hls
      rw [hts, hout]
      exact .cons hshow hls
  refine ⟨⟨?_, hchk, ?_, fun ls hls => ?_⟩, ?_⟩
  · obtain ⟨busy, howes⟩ := hin.owes
    have hst := busy_eq howes
    rw [hbusy]
    exact hst ▸ howes
  · obtain ⟨ls, hls⟩ := ho.shown
    cases ht : p.out.takes o with
    | false => exact ⟨ls, by simpa [left, ht] using hls⟩
    | true =>
      obtain ⟨t, ts, hts, -⟩ := ho.presented hw (takes_valid hw ht)
      rw [hts] at hls
      obtain ⟨a, as, -, has, rfl⟩ := List.forall₂_cons_right_iff.mp hls
      exact ⟨as, by simpa [left, ht, hts] using has⟩
  · exact Follows.next ho hw hx respond hnew (ho.out _ (hfirst ls hls))
  · intro hs
    obtain ⟨a, ha⟩ := Option.isSome_iff_exists.mp hs
    obtain ⟨t, ts, ht, -⟩ := hin.sent a ha
    simp [ht]

/-! ### What was given out -/

def allHdrs (segs : List RxSegment) : List RxTcpHdr := (RxSegment.passed segs).map RxSegment.hdrOut

def allLines (segs : List RxSegment) : List (Beat (BitVec 8)) :=
  (RxSegment.passed segs).flatMap fun x => beats 64 x.payload

/-- Some lines may follow. -/
theorem Owes.follows (ho : p.Owes segs l) : ∃ ls, p.Follows segs l ls := by
  obtain ⟨ls, hls⟩ := ho.shown
  obtain ⟨fr, os, -, hos, hresps⟩ := ho.chk.lines
  rw [hresps] at hls
  refine ⟨ls.drop os.length, ho.out _ ?_⟩
  rw [hresps]
  exact List.rel_append hos (List.forall₂_drop_append _ _ _ hls)

theorem Owes.given (ho : p.Owes segs l) (hx : ∀ x ∈ segs, x.Framed) :
    l.hdrs <+: allHdrs segs ∧ l.lines <+: allLines segs := by
  obtain ⟨ls, ys, hys, hrun⟩ := ho.follows
  obtain ⟨hh, hd⟩ := hrun.beginning
  obtain ⟨hall, hall'⟩ := owed_units hys hx
  have hh' : l.hdrs <+: (ChkSegment.units ys).flatMap RxUnit.kind.hdrs := hh
  have hd' : l.lines <+: (ChkSegment.units ys).flatMap RxUnit.kind.data := hd
  rw [hall] at hh'
  rw [hall'] at hd'
  exact ⟨hh', hd'⟩

/-! ### What the three wait for -/

/-- The output controller waits for a line. -/
def Wants (r : RxTcpOutput) : Prop :=
  r.parseState ≠ .dataOutputLast ∧ r.parseState ≠ .dataWaitTxFin

/-- The engine has a line and does not present it. -/
def Awaiting (p : RxTcpWrap) : Prop := p.chk.out ≠ [] ∧ p.chk.valid = false

/-- The output controller waits for a line and the engine has none. -/
def Starved (p : RxTcpWrap) : Prop := Wants p.out ∧ p.chk.out = []

/-- A line is taken, or the segment is left, whatever the surroundings do. -/
def Stirs (p : RxTcpWrap) : Prop :=
  Wants p.out ∧ p.out.parseState ≠ .dataOutput ∧ p.chk.valid = true ∨
    p.out.parseState = .dataWaitTxFin ∧ p.out.hdrState = .waitTxFin

/-- There is a line to give out. -/
def HasLine (p : RxTcpWrap) : Prop :=
  p.out.parseState = .dataOutputLast ∨ p.out.parseState = .dataOutput ∧ p.chk.valid = true

/-- The header waits for its port. -/
def HasHdr (p : RxTcpWrap) : Prop := p.out.hdrState = .output

theorem hdr_of_waitTxFin {ys : List ChkSegment} {s : RxTcpSystem}
    (hrun : InRun RxUnit.kind.kind RxTcpOutput.phases.phases (ChkSegment.units ys) s)
    (hs : s.ctrl.parseState = .dataWaitTxFin) :
    s.ctrl.hdrState = .output ∨ s.ctrl.hdrState = .waitTxFin := by
  rcases hrun.idle_or_inside with hr | ⟨tail, h, d, cur, -, hp⟩
  · cases hs.symm.trans hr.1
  · have hp' : RxTcpOutput.Phase s.ctrl cur h d := hp
    cases hp' with
    | hdrDrain k hst | firstData k hst | dataOutput k hst | dataOutputLast hst | drain k hst =>
      cases hs.symm.trans hst
    | waitTxFin hst hh =>
      rcases hh with ⟨ho, -⟩ | ⟨hw, -⟩
      · exact .inl ho
      · exact .inr hw

theorem Owes.waits (ho : p.Owes segs l) :
    p.Stirs ∨ p.Awaiting ∨ p.Starved ∨ p.HasLine ∨ p.HasHdr := by
  have hwant : Wants p.out → p.chk.valid = false → p.Awaiting ∨ p.Starved := by
    intro hw hv
    by_cases hout : p.chk.out = []
    · exact .inr ⟨hw, hout⟩
    · exact .inl ⟨hout, hv⟩
  cases hs : p.out.parseState with
  | ready | tcpHdrDrain | firstData | drain =>
    have hw : Wants p.out := by simp [Wants, hs]
    cases hv : p.chk.valid with
    | true => exact .inl (.inl ⟨hw, by simp [hs], hv⟩)
    | false => exact .inr ((hwant hw hv).imp_right .inl)
  | dataOutput =>
    have hw : Wants p.out := by simp [Wants, hs]
    cases hv : p.chk.valid with
    | true => exact .inr (.inr (.inr (.inl (.inr ⟨hs, hv⟩))))
    | false => exact .inr ((hwant hw hv).imp_right .inl)
  | dataOutputLast => exact .inr (.inr (.inr (.inl (.inl hs))))
  | dataWaitTxFin =>
    obtain ⟨ls, ys, -, hrun⟩ := ho.follows
    rcases hdr_of_waitTxFin hrun hs with hh | hh
    · exact .inr (.inr (.inr (.inr hh)))
    · exact .inl (.inr ⟨hs, hh⟩)

/-- The controller waits for a line of a segment that is missing: everything was given out. -/
theorem all_given {ys : List ChkSegment} {r : RxTcpOutput} {hs : List RxTcpHdr}
    {ds : List (Beat (BitVec 8))} (hw : Wants r)
    (hrun : InRun RxUnit.kind.kind RxTcpOutput.phases.phases (ChkSegment.units ys)
      ⟨r, ChkSegment.missing ys, hs, ds⟩) :
    hs = (ChkSegment.units ys).flatMap RxUnit.kind.hdrs ∧
      ds = (ChkSegment.units ys).flatMap RxUnit.kind.data := by
  cases hrun with
  | done hb => exact ⟨hb.2.2.1, hb.2.2.2⟩
  | atUnit pre u post hxs hi hn =>
    obtain ⟨cur, hcur, hsrc⟩ : ∃ cur : List AxisLine, cur ≠ [] ∧
        ChkSegment.missing ys = cur ++ RxUnit.kind.kind.loadAll post := by
      cases hi with
      | before hr hsrc =>
        exact ⟨u.lines, RxTcpOutput.handles_units.lines_ne u, hsrc⟩
      | phase h d hp =>
        obtain ⟨cur, hsrc, hp⟩ := hp
        have hp' : RxTcpOutput.Phase r cur h d := hp
        refine ⟨cur, ?_, hsrc⟩
        cases hp' with
        | hdrDrain k _ _ hc | firstData k _ _ hc | dataOutput k _ _ hc | drain k _ _ _ hc =>
          exact hc.ne_nil
        | dataOutputLast hst => exact absurd hst hw.1
        | waitTxFin hst => exact absurd hst hw.2
      | behind hr hsrc hh hd => exact absurd ⟨hr, hsrc, hh, hd⟩ hn
    have hne : ChkSegment.missing ys ≠ [] := by simp [hsrc, hcur]
    obtain ⟨hmiss, us, y, hus⟩ := ChkSegment.units_of_missing hne
    rw [loadAll_lines] at hsrc
    rcases List.eq_nil_or_concat post with rfl | ⟨post', v, rfl⟩
    · -- the last unit, for which nothing is owed
      obtain ⟨rfl, hu⟩ := List.append_inj' (hus.symm.trans hxs) rfl
      obtain rfl := List.singleton_inj.mp hu
      obtain ⟨⟨hlo, hhi⟩, hlo', hhi'⟩ := hi.beginning
      have hnone : RxUnit.kind.kind.hdrs (.pair y closingSegment) = [] ∧
          RxUnit.kind.kind.data (.pair y closingSegment) = [] := ⟨rfl, rfl⟩
      rw [hnone.1, List.append_nil] at hhi
      rw [hnone.2, List.append_nil] at hhi'
      rw [hus, List.flatMap_append, List.flatMap_append]
      refine ⟨?_, ?_⟩
      · have heq := hhi.eq_of_length_le hlo.length_le
        exact heq.trans (List.append_nil _).symm
      · have heq := hhi'.eq_of_length_le hlo'.length_le
        exact heq.trans (List.append_nil _).symm
    · -- more lines than those of the missing segment
      have hlast : RxUnit.pair y closingSegment = v := by
        have htail : us ++ [RxUnit.pair y closingSegment] = (pre ++ u :: post') ++ [v] := by
          rw [← hus, hxs, List.concat_eq_append, List.append_assoc, List.cons_append]
        exact List.singleton_inj.mp (List.append_inj' htail rfl).2
      have hlen := congrArg List.length (hmiss.symm.trans hsrc)
      have hv : RxUnit.kind.lines v = y.lines ++ closingSegment.lines := by rw [← hlast]; rfl
      rw [List.concat_eq_append, List.flatMap_append, List.flatMap_cons, List.flatMap_nil, hv] at hlen
      have hpos := List.length_pos_of_ne_nil hcur
      simp only [List.length_append, List.length_nil] at hlen
      omega

/-- A starved path with no segments to come has given out everything. -/
theorem Owes.drained (ho : p.Owes segs l) (hx : ∀ x ∈ segs, x.Framed) (hs : p.Starved)
    (hi : p.inp.state = .ready) (hp : l.pkts = []) :
    l.data = [] ∧ l.hdrs = allHdrs segs ∧ l.lines = allLines segs := by
  obtain ⟨hw, hout⟩ := hs
  obtain ⟨hdata, hreqs⟩ : l.data = [] ∧ l.reqs = [] := by
    have hst : p.inp.general.state = .ready := hi
    cases ho.inp with
    | ready _ _ hd ht => exact ⟨by simpa [hp] using hd, by simpa [hp] using ht⟩
    | dataInput rest hst' => cases hst.symm.trans hst'
    | dataLast hst' => cases hst.symm.trans hst'
  have hresps : l.resps = [] := by
    obtain ⟨fr, os, -, hos, hresps⟩ := ho.chk.lines
    rw [hout, List.forall₂_nil_left_iff] at hos
    rw [hresps, hos, hreqs]
    rfl
  obtain ⟨ys, hys, hrun⟩ := ho.out [] (by rw [hout, hresps]; exact .nil)
  rw [hout] at hrun
  obtain ⟨hh, hd⟩ := all_given hw hrun
  obtain ⟨hall, hall'⟩ := owed_units hys hx
  exact ⟨hdata, hh.trans hall, hd.trans hall'⟩

/-! ### Progress -/

/-- A segment that was begun has to be finished. -/
def busy (r : RxTcpOutput) : Bool := r.parseState != .ready

/-- What is left to do. A line of the engine is first presented and then taken, and may begin a
segment that has to be finished. -/
def work (segs : List RxSegment) (p : RxTcpWrap) (l : RxTcpLists) : Nat :=
  l.pkts.length + l.data.length + l.reqs.length + 3 * l.resps.length +
    ((allHdrs segs).length - l.hdrs.length) + ((allLines segs).length - l.lines.length) +
    (!p.chk.valid).toNat + (busy p.out).toNat

/-- How much moves in a cycle. -/
def moved (p : RxTcpWrap) (i : RxTcpInputWires) (o : OutputWires) (respond : Bool) : Nat :=
  (p.inp.takesHdr i).toNat + (p.inp.takesData i).toNat + (p.inp.sent i).isSome.toNat +
    (p.out.takes o).toNat + (p.out.hdrGiven o).length + (p.out.dataGiven o).length +
    (!p.chk.valid && (respond && !p.chk.out.isEmpty)).toNat +
    (busy p.out && !busy (p.out.next o)).toNat

theorem busy_step (r : RxTcpOutput) (o : OutputWires) :
    (busy (r.next o)).toNat + (busy r && !busy (r.next o)).toNat ≤
      (busy r).toNat + (r.takes o).toNat := by
  by_cases hs : r.parseState = .ready
  · have hb : busy r = false := by simp [busy, hs]
    have hle := Bool.toNat_le (busy (r.next o))
    cases hv : o.respVal with
    | true =>
      have ht : r.takes o = true := by simp [RxTcpOutput.takes, RxTcpOutput.respRdy, hs, hv]
      simpa [hb, ht] using hle
    | false =>
      have hn : busy (r.next o) = false := by
        simp [busy, RxTcpOutput.next, RxTcpOutput.parseNext, hs, hv]
      simp [hb, hn]
  · have hb : busy r = true := by simp [busy, hs]
    cases hn : busy (r.next o) <;> simp [hb]

/-- Everything that moves lowers the work. -/
theorem work_le {respond : Bool} (ho : (p.next i o respond).Owes segs (p.left i o l))
    (hx : ∀ x ∈ segs, x.Framed) (hw : Wired p i o) (hpkts : p.inp.takesHdr i = true → l.pkts ≠ [])
    (hdata : p.inp.takesData i = true → l.data ≠ [])
    (hreqs : (p.inp.sent i).isSome = true → l.reqs ≠ [])
    (hresps : p.out.takes o = true → l.resps ≠ []) :
    work segs (p.next i o respond) (p.left i o l) + p.moved i o respond ≤ work segs p l := by
  obtain ⟨hh, hd⟩ := ho.given hx
  have hhle := hh.length_le
  have hdle := hd.length_le
  have h1 := length_tail_if hpkts
  have h2 := length_tail_if hdata
  have h3 := length_tail_if hreqs
  have h4 := length_tail_if hresps
  have h5 := ChksumUnit.valid_step (c := p.chk)
    (if p.inp.takesHdr i then some tcpChksumCmd else none) (p.inp.sent i) respond (takes_valid hw)
  have h6 := busy_step p.out o
  simp only [left, List.length_append] at hhle hdle
  simp only [work, moved, left, next, List.length_append]
  omega

theorem Owes.takes_ne (ho : p.Owes segs l) (hw : Wired p i o) (ht : p.out.takes o = true) :
    l.resps ≠ [] := by
  obtain ⟨t, ts, hts, -⟩ := ho.presented hw (takes_valid hw ht)
  simp [hts]

/-- Any of these is a move. -/
theorem moved_pos {respond : Bool} (hm : p.inp.takesHdr i = true ∨ (p.inp.sent i).isSome = true ∨
    p.out.takes o = true ∨ p.out.hdrGiven o ≠ [] ∨ p.out.dataGiven o ≠ [] ∨
    (busy p.out && !busy (p.out.next o)) = true ∨
    (!p.chk.valid && (respond && !p.chk.out.isEmpty)) = true) : 0 < p.moved i o respond := by
  rcases hm with h | h | h | h | h | h | h
  · simp only [moved, h, Bool.toNat_true]
    omega
  · simp only [moved, h, Bool.toNat_true]
    omega
  · simp only [moved, h, Bool.toNat_true]
    omega
  · have hpos := List.length_pos_of_ne_nil h
    simp only [moved]
    omega
  · have hpos := List.length_pos_of_ne_nil h
    simp only [moved]
    omega
  · simp only [moved, h, Bool.toNat_true]
    omega
  · simp only [moved, h, Bool.toNat_true]
    omega

theorem Stirs.moves (hs : p.Stirs) (hw : Wired p i o) (respond : Bool) :
    0 < p.moved i o respond := by
  rcases hs with ⟨⟨hlast, hfin⟩, hout, hv⟩ | ⟨hs, hh⟩
  · have ht : p.out.takes o = true := by
      have hr : p.out.respRdy o = true := by
        cases hst : p.out.parseState <;> simp_all [RxTcpOutput.respRdy]
      simp [RxTcpOutput.takes, hw.val, hv, hr]
    exact moved_pos (.inr (.inr (.inl ht)))
  · have hl : (busy p.out && !busy (p.out.next o)) = true := by
      simp [busy, RxTcpOutput.next, RxTcpOutput.parseNext, hs, hh]
    exact moved_pos (by simp [hl])

theorem HasLine.moves (hl : p.HasLine) (hw : Wired p i o) (hr : o.dataRdy = true)
    (respond : Bool) : 0 < p.moved i o respond := by
  have hg : p.out.gives o = true := by
    rcases hl with hs | ⟨hs, hv⟩
    · simp [RxTcpOutput.gives, RxTcpOutput.dataVal, hs, hr]
    · simp [RxTcpOutput.gives, RxTcpOutput.dataVal, hs, hr, hw.val, hv]
  exact moved_pos (by simp [RxTcpOutput.dataGiven, hg])

theorem HasHdr.moves (hh : p.HasHdr) (hr : o.hdrRdy = true) (respond : Bool) :
    0 < p.moved i o respond := by
  have hs : p.out.hdrState = .output := hh
  have hg : p.out.givesHdr o = true := by
    simp [RxTcpOutput.givesHdr, RxTcpOutput.hdrVal, hs, hr]
  exact moved_pos (by simp [RxTcpOutput.hdrGiven, hg])

/-- Where nothing moves, the three keep to their states. -/
structure Still (p q : RxTcpWrap) : Prop where
  inp : q.inp.state = p.inp.state
  lines : q.chk.out = p.chk.out
  valid : q.chk.valid = p.chk.valid
  hasLine : p.HasLine → q.HasLine
  hasHdr : p.HasHdr → q.HasHdr

theorem still {respond : Bool} (hz : p.moved i o respond = 0) : Still p (p.next i o respond) := by
  simp only [moved, Nat.add_eq_zero_iff, Bool.toNat_eq_zero, List.length_eq_zero_iff] at hz
  obtain ⟨⟨⟨⟨⟨⟨⟨hhdr, hdata⟩, hsent⟩, htakes⟩, hghdr⟩, hgives⟩, hrise⟩, -⟩ := hz
  have hnone : p.inp.sent i = none := by simpa using hsent
  have hg : p.out.gives o = false := by simpa [RxTcpOutput.dataGiven] using hgives
  have hgh : p.out.givesHdr o = false := by simpa [RxTcpOutput.hdrGiven] using hghdr
  have hkeep : (p.next i o respond).chk.out = p.chk.out ∧
      (p.next i o respond).chk.valid = p.chk.valid := by
    show (p.chk.step _ (p.inp.sent i) (p.out.takes o) respond).out = _ ∧
      (p.chk.step _ (p.inp.sent i) (p.out.takes o) respond).valid = _
    rw [hnone, htakes]
    exact ChksumUnit.still _ hrise
  refine ⟨?_, hkeep.1, hkeep.2, ?_, ?_⟩
  · show p.inp.stateNext i = _
    cases hs : p.inp.state with
    | ready => simp [RxTcpInput.stateNext, hs, hhdr]
    | chksumDataInput => simp [RxTcpInput.stateNext, hs, hdata]
    | chksumDataLast =>
      have hq : i.reqRdy = false := by
        cases hq : i.reqRdy with
        | false => rfl
        | true => simp [RxTcpInput.sent, RxTcpInput.req, hq, hs] at hnone
      simp [RxTcpInput.stateNext, hs, hq]
  · rintro (hs | ⟨hs, hv⟩)
    · have hr : o.dataRdy = false := by
        simpa [RxTcpOutput.gives, RxTcpOutput.dataVal, hs] using hg
      exact .inl (by simp [next, RxTcpOutput.next, RxTcpOutput.parseNext, hs, hr])
    · refine .inr ⟨?_, by rw [hkeep.2, hv]⟩
      simp [next, RxTcpOutput.next, RxTcpOutput.parseNext, hs, hg]
  · intro hs
    have hs' : p.out.hdrState = .output := hs
    have hr : o.hdrRdy = false := by
      simpa [RxTcpOutput.givesHdr, RxTcpOutput.hdrVal, hs'] using hgh
    show p.out.hdrNext o = .output
    simp [RxTcpOutput.hdrNext, hs', hr]

end RxTcpWrap

end TcpHw
