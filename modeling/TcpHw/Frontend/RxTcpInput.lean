import TcpHw.Frontend.TcpStream

/-!
# `rx_tcp_format_input_ctrl`

The controller puts the pseudo header in front of the lines of a segment, like its UDP neighbour,
with one difference: in `CHKSUM_DATA_INPUT` its request is valid whether or not a line is there. A
cycle in which the checksum engine is ready and no line is there is a bubble: the engine takes a line
that no byte of the segment is in. In a run without bubbles the controller sends what the general
input controller sends.
-/
namespace TcpHw

open Bytes Framing Trace

set_option autoImplicit false

/-- The registers of `rx_tcp_format_input_ctrl`. -/
structure RxTcpInput where
  state : InputState
  hold : BitVec (8 * 12)
  padbytes : BitVec 6

structure RxTcpInputWires where
  hdrVal : Bool
  srcIp : BitVec 32
  dstIp : BitVec 32
  tcpLen : BitVec 16
  dataVal : Bool
  line : DataLine
  cmdRdy : Bool
  reqRdy : Bool

namespace RxTcpInput

variable (r : RxTcpInput) (i : RxTcpInputWires)

/-- The header is taken, and the command is given to the engine. -/
def takesHdr : Bool := r.state == .ready && i.hdrVal && i.cmdRdy

/-- A line of the segment is taken. -/
def takesData : Bool := r.state == .chksumDataInput && i.dataVal && i.reqRdy

/-- `src_tcp_format_rx_padbytes < HOLD_BYTES` -/
def spills : Bool := decide (i.line.padbytes.toNat < 12)

/-- `padbytes_output`; `USE_BYTES` is added in six bits. -/
def padbytesOutput (padbytes : BitVec 6) : BitVec 6 := padbytes + 52

/-- The line on the bus to the engine while `req_tval` is high; there is no `tuser`. -/
def req : Option AxisLine :=
  match r.state with
  | .ready => none
  | .chksumDataInput =>
    some
      { data := fill r.hold i.line.data
        keep :=
          if r.takesData i then
            if i.line.last && !spills i then
              BitVec.allOnes 64 <<< (padbytesOutput i.line.padbytes).toNat
            else BitVec.allOnes 64
          else 0
        last := r.takesData i && i.line.last && !spills i
        user := 0 }
  | .chksumDataLast =>
    some
      { data := fill r.hold (0 : Line)
        keep := BitVec.allOnes 64 <<< (padbytesOutput r.padbytes).toNat
        last := true
        user := 0 }

/-- The line the engine takes. -/
def sent : Option AxisLine := if i.reqRdy then r.req i else none

def stateNext : InputState :=
  match r.state with
  | .ready => if r.takesHdr i then .chksumDataInput else .ready
  | .chksumDataInput =>
    if r.takesData i && i.line.last then (if spills i then .chksumDataLast else .ready)
    else .chksumDataInput
  | .chksumDataLast => if i.reqRdy then .ready else .chksumDataLast

/-- One clock edge. -/
def next : RxTcpInput where
  state := r.stateNext i
  hold :=
    if r.takesHdr i then (tcpPseudoHdr i.srcIp i.dstIp i.tcpLen).bits
    else if r.takesData i then
      if i.line.last && !spills i then 0 else i.line.data.setWidth (8 * 12)
    else r.hold
  padbytes := if r.takesData i && i.line.last && spills i then i.line.padbytes else r.padbytes

/-- The engine is ready and no line is there. -/
def bubble : Bool := r.state == .chksumDataInput && i.reqRdy && !i.dataVal

end RxTcpInput

/-! ### The general controller -/

namespace RxTcpInput

variable {r : RxTcpInput} {i : RxTcpInputWires}

/-- The general controller in the same state. -/
def general (r : RxTcpInput) : InputCtrl 12 := ⟨r.state, r.hold, r.padbytes, 0⟩

/-- The same inputs; the rest of the last line is zero. -/
def wires (r : RxTcpInput) (i : RxTcpInputWires) : InputWires 12 where
  hdrVal := i.hdrVal
  hdr := (tcpPseudoHdr i.srcIp i.dstIp i.tcpLen).bits
  hdrOnly := false
  timestamp := 0
  dataVal := i.dataVal
  line := if r.state = .chksumDataLast then { i.line with data := 0 } else i.line
  cmdRdy := i.cmdRdy
  reqRdy := i.reqRdy

theorem general_takesHdr : r.general.takesHdr (r.wires i) = r.takesHdr i := by
  show (i.hdrVal && (r.state == .ready && i.cmdRdy)) = (r.state == .ready && i.hdrVal && i.cmdRdy)
  cases i.hdrVal <;> cases r.state == .ready <;> rfl

theorem general_takesData : r.general.takesData (r.wires i) = r.takesData i := by
  show (i.dataVal && (r.state == .chksumDataInput && i.reqRdy)) =
    (r.state == .chksumDataInput && i.dataVal && i.reqRdy)
  cases i.dataVal <;> cases r.state == .chksumDataInput <;> rfl

theorem wires_line (hs : r.state ≠ .chksumDataLast) : (r.wires i).line = i.line := by
  simp [wires, hs]

/-- Without a bubble the engine takes the same line. -/
theorem general_sent (hb : r.bubble i = false) : r.general.sent (r.wires i) = r.sent i := by
  show (if i.reqRdy then r.general.req (r.wires i) else none) = if i.reqRdy then r.req i else none
  cases hq : i.reqRdy with
  | false => rfl
  | true =>
    rw [if_pos rfl, if_pos rfl]
    cases hs : r.state with
    | ready => simp [InputCtrl.req, req, general, hs]
    | chksumDataLast =>
      simp [InputCtrl.req, req, general, hs, wires, InputCtrl.keepShift, padbytesOutput]
    | chksumDataInput =>
      have hval : i.dataVal = true := by simpa [bubble, hs, hq] using hb
      have hline := wires_line (r := r) (i := i) (by simp [hs])
      have hval' : (r.wires i).dataVal = true := hval
      have htake : r.takesData i = true := by simp [takesData, hs, hval, hq]
      have hends : r.general.endsInput (r.wires i) = (i.line.last && !spills i) := by
        simp [InputCtrl.endsInput, general_takesData, htake, hline, InputCtrl.spills, spills]
      have hst : r.general.state = .chksumDataInput := hs
      have hhold : r.general.hold = r.hold := rfl
      have htime : r.general.timestamp = 0 := rfl
      simp [InputCtrl.req, req, hst, hs, hval', hline, hends, htake, InputCtrl.keepShift,
        padbytesOutput, hhold, htime]

/-- The next states agree, and so do the bytes that are held while a segment is open. -/
theorem general_next : (r.general.next (r.wires i)).state = (r.next i).state ∧
    (r.general.next (r.wires i)).padbytes = (r.next i).padbytes ∧
    (r.general.next (r.wires i)).timestamp = 0 ∧
    ((r.next i).state ≠ .ready → (r.general.next (r.wires i)).hold = (r.next i).hold) := by
  have hst : r.general.state = r.state := rfl
  have hhold : r.general.hold = r.hold := rfl
  have hpad : r.general.padbytes = r.padbytes := rfl
  have hhdr : (r.wires i).hdr = (tcpPseudoHdr i.srcIp i.dstIp i.tcpLen).bits := rfl
  have honly : (r.wires i).hdrOnly = false := rfl
  have hrdy : (r.wires i).reqRdy = i.reqRdy := rfl
  refine ⟨?_, ?_, ?_, ?_⟩
  · cases hs : r.state with
    | ready =>
      simp [InputCtrl.next, InputCtrl.stateNext, next, stateNext, hst, hs, general_takesHdr, honly]
    | chksumDataInput =>
      have hline := wires_line (r := r) (i := i) (by simp [hs])
      simp [InputCtrl.next, InputCtrl.stateNext, next, stateNext, hst, hs, general_takesData,
        hline, InputCtrl.spills, spills]
    | chksumDataLast =>
      simp [InputCtrl.next, InputCtrl.stateNext, next, stateNext, hst, hs, hrdy]
  · cases htake : r.takesData i with
    | false => simp [InputCtrl.next, next, general_takesHdr, general_takesData, honly, htake, hpad]
    | true =>
      have hs : r.state ≠ .chksumDataLast := by
        intro hs
        simp [takesData, hs] at htake
      simp [InputCtrl.next, next, general_takesHdr, general_takesData, honly, htake, hpad,
        wires_line hs, InputCtrl.spills, spills]
  · show (if r.state = .ready then 0 else 0) = (0 : Timestamp)
    rw [ite_self]
  · intro hne
    cases hh : r.takesHdr i with
    | true => simp [InputCtrl.next, next, general_takesHdr, hh, hhdr]
    | false =>
      cases htake : r.takesData i with
      | false => simp [InputCtrl.next, next, general_takesHdr, general_takesData, hh, htake, hhold]
      | true =>
        have hs : r.state = .chksumDataInput := by
          simp only [takesData, Bool.and_eq_true, beq_iff_eq] at htake
          exact htake.1.1
        have hline := wires_line (r := r) (i := i) (by simp [hs])
        -- a line that ends the segment leads back to `READY`
        have hends : (i.line.last && !spills i) = false := by
          cases hl : i.line.last && !spills i with
          | false => rfl
          | true =>
            rw [Bool.and_eq_true, Bool.not_eq_true'] at hl
            exact absurd (by simp [next, stateNext, hs, htake, hl.1, hl.2]) hne
        have hends' : r.general.endsInput (r.wires i) = false := by
          simpa [InputCtrl.endsInput, general_takesData, htake, hline, InputCtrl.spills, spills]
            using hends
        simp [InputCtrl.next, next, general_takesHdr, general_takesData, hh, htake, hends', hends,
          hline]

variable {busy : Bool} {ps : List (ChkPkt 12)} {ds : List (Beat (BitVec 8))} {ts : List ChkTok}

/-- What is owed depends on the held bytes while a segment is open only. -/
theorem owes_of_general {q : InputCtrl 12} (ho : q.Owes busy ps ds ts) (hst : q.state = r.state)
    (hpad : q.padbytes = r.padbytes) (htime : q.timestamp = 0)
    (hhold : r.state ≠ .ready → q.hold = r.hold) : r.general.Owes busy ps ds ts := by
  have hst' : r.general.state = q.state := hst.symm
  have hopen : q.state ≠ .ready → r.general.hold = q.hold := by
    intro hne
    exact (hhold (hst ▸ hne)).symm
  have htime' : r.general.timestamp = q.timestamp := htime.symm
  have hpad' : r.general.padbytes = q.padbytes := hpad.symm
  cases ho with
  | ready hs hb hd ht => exact .ready (hst'.trans hs) hb hd ht
  | dataInput rest hs hb hr hd ht =>
    refine .dataInput rest (hst'.trans hs) hb hr hd ?_
    rw [htime', hopen (by simp [hs])]
    exact ht
  | dataLast hs hb hp hd ht =>
    refine .dataLast (hst'.trans hs) hb (hpad' ▸ hp) hd ?_
    rw [htime', hopen (by simp [hs]), hpad']
    exact ht

/-- What one cycle without a bubble does to what is to come and what is owed. -/
structure Moves (r : RxTcpInput) (i : RxTcpInputWires) (ps : List (ChkPkt 12))
    (ds : List (Beat (BitVec 8))) (ts : List ChkTok) : Prop where
  owes : ∃ busy, (r.next i).general.Owes busy (if r.takesHdr i then ps.tail else ps)
    (if r.takesData i then ds.tail else ds) (if (r.sent i).isSome then ts.tail else ts)
  sent : ∀ l ∈ r.sent i, ∃ t ts', ts = t :: ts' ∧ l.Shows t

theorem moves (ho : r.general.Owes busy ps ds ts) (hb : r.bubble i = false)
    (hhdr : r.takesHdr i = true → ∃ p ps', ps = p :: ps' ∧
      (tcpPseudoHdr i.srcIp i.dstIp i.tcpLen).bits = p.hdr ∧ p.timestamp = 0 ∧ p.body ≠ [])
    (hread : r.takesData i = true → ∃ d ds', ds = d :: ds' ∧ i.line.read = d) :
    Moves r i ps ds ts := by
  have hm : r.general.Moves (r.wires i) busy ps ds ts := by
    apply ho.moves (by decide) (by decide)
    · intro ht
      obtain ⟨p, ps', hps, hp, htime, hne⟩ := hhdr (general_takesHdr ▸ ht)
      have honly : (r.wires i).hdrOnly = false := rfl
      exact ⟨p, ps', hps, hp, htime.symm, by simp [honly, hne]⟩
    · intro ht
      rw [general_takesData] at ht
      have hs : r.state ≠ .chksumDataLast := by
        intro hs
        simp [takesData, hs] at ht
      rw [wires_line hs]
      exact hread ht
  have howes := hm.owes
  have hsent := hm.sent
  rw [general_takesHdr, general_takesData, general_sent hb] at howes
  rw [general_sent hb] at hsent
  obtain ⟨hst, hpad, htime, hhold⟩ := general_next (r := r) (i := i)
  exact ⟨⟨_, owes_of_general howes hst hpad htime hhold⟩, hsent⟩

end RxTcpInput

/-! ### Runs -/

/-- What comes with a segment on the header bus. -/
structure RxSegHdr where
  srcIp : BitVec 32
  dstIp : BitVec 32
  tcpLen : BitVec 16
  deriving DecidableEq, Inhabited

/-- A segment of at least one byte, in full lines. -/
structure RxSegment where
  hdr : RxSegHdr
  bytes : List (BitVec 8)
  lines : List DataLine
  nonempty : bytes ≠ []
  carried : lines.map DataLine.read = beats 64 bytes

/-- The pseudo header and the segment, as the engine is to see them. -/
def RxSegment.pkt (x : RxSegment) : ChkPkt 12 where
  hdr := (tcpPseudoHdr x.hdr.srcIp x.hdr.dstIp x.hdr.tcpLen).bits
  body := x.bytes
  timestamp := 0

/-- What the surroundings do in one cycle. The last two fields are what is on the buses while
nothing is valid there. -/
structure RxTcpInputEnv where
  offerHdr : Bool
  offerData : Bool
  cmdRdy : Bool
  reqRdy : Bool
  hdrBus : RxSegHdr
  lineBus : DataLine

/-- The controller, what the source still has to offer and what the engine took. -/
structure RxTcpInputSystem where
  ctrl : RxTcpInput
  srcHdrs : List RxSegment
  srcData : List DataLine
  sent : List AxisLine

namespace RxTcpInputSystem

section

variable (s : RxTcpInputSystem) (e : RxTcpInputEnv)

def hdrBus : RxSegHdr :=
  if e.offerHdr then (s.srcHdrs.head?.map RxSegment.hdr).getD e.hdrBus else e.hdrBus

def wires : RxTcpInputWires where
  hdrVal := e.offerHdr && !s.srcHdrs.isEmpty
  srcIp := (s.hdrBus e).srcIp
  dstIp := (s.hdrBus e).dstIp
  tcpLen := (s.hdrBus e).tcpLen
  dataVal := e.offerData && !s.srcData.isEmpty
  line := if e.offerData then s.srcData.headD e.lineBus else e.lineBus
  cmdRdy := e.cmdRdy
  reqRdy := e.reqRdy

/-- One clock cycle. -/
def cycle : RxTcpInputSystem where
  ctrl := s.ctrl.next (s.wires e)
  srcHdrs := if s.ctrl.takesHdr (s.wires e) then s.srcHdrs.tail else s.srcHdrs
  srcData := if s.ctrl.takesData (s.wires e) then s.srcData.tail else s.srcData
  sent := s.sent ++ (s.ctrl.sent (s.wires e)).toList

def step : Option RxTcpInputSystem := some (s.cycle e)

/-- No line is missing while the engine is ready for it. -/
def NoBubble : Prop := s.ctrl.bubble (s.wires e) = false

instance : Decidable (s.NoBubble e) := inferInstanceAs (Decidable (_ = false))

end

/-- After reset, with the segments to come. -/
structure Init (segs : List RxSegment) (s : RxTcpInputSystem) : Prop where
  ctrl : s.ctrl.state = .ready
  src : s.srcHdrs = segs ∧ s.srcData = segs.flatMap RxSegment.lines
  sent : s.sent = []

/-- The lines of the segments with their pseudo headers. -/
def framesOf (segs : List RxSegment) : List ChkTok := (segs.map RxSegment.pkt).flatMap ChkPkt.toks

/-- A header is offered while the engine takes a command, or a line while it takes a line. -/
inductive RxTcpInputEvent where
  | hdr | line
  deriving DecidableEq

def Given (e : RxTcpInputEnv) : RxTcpInputEvent → Prop
  | .hdr => e.offerHdr = true ∧ e.cmdRdy = true
  | .line => e.offerData = true ∧ e.reqRdy = true

/-- Every line was taken from the source and sent. -/
structure Delivered (segs : List RxSegment) (s : RxTcpInputSystem) : Prop where
  srcHdrs : s.srcHdrs = []
  srcData : s.srcData = []
  sent : List.Forall₂ AxisLine.Shows s.sent (framesOf segs)

/-- The engine has taken lines of the segments with their pseudo headers, in order and no others, and
goes on to take all of them. The cycles meet `ok`. -/
structure Sends (ok : RxTcpInputSystem → RxTcpInputEnv → Prop) (segs : List RxSegment)
    (s : RxTcpInputSystem) : Prop where
  sent : ∃ ts, List.Forall₂ AxisLine.Shows s.sent ts ∧ ts <+: framesOf segs
  goesOn : ∀ sched, (∀ n, ok (exec cycle s sched n) (sched n)) → Fair Given sched →
    ∃ n, Delivered segs (exec cycle s sched n)

/-- The lines `rest` are still to be sent. -/
structure Inv (segs : List RxSegment) (s : RxTcpInputSystem) (done rest : List ChkTok) : Prop where
  ctrl : ∃ busy, s.ctrl.general.Owes busy (s.srcHdrs.map RxSegment.pkt)
    (s.srcData.map DataLine.read) rest
  sent : List.Forall₂ AxisLine.Shows s.sent done
  all : done ++ rest = framesOf segs

variable {segs : List RxSegment} {s : RxTcpInputSystem} {e : RxTcpInputEnv} {done rest : List ChkTok}

theorem inv_init (hi : Init segs s) : Inv segs s [] (framesOf segs) := by
  have hsrc : s.srcData.map DataLine.read = (segs.map RxSegment.pkt).flatMap ChkPkt.lines := by
    rw [hi.src.2, List.map_flatMap, List.flatMap_map]
    exact congrArg (fun f => segs.flatMap f) (funext RxSegment.carried)
  refine ⟨⟨false, ?_⟩, by rw [hi.sent]; exact .nil, rfl⟩
  rw [hsrc, hi.src.1]
  exact .ready hi.ctrl rfl rfl rfl

/-- A header that is taken is that of the next segment. -/
theorem takes_hdr (ht : s.ctrl.takesHdr (s.wires e) = true) :
    ∃ x xs, s.srcHdrs = x :: xs ∧ s.hdrBus e = x.hdr := by
  simp only [RxTcpInput.takesHdr, wires, Bool.and_eq_true] at ht
  obtain ⟨⟨-, ho, hne⟩, -⟩ := ht
  cases hs : s.srcHdrs with
  | nil => simp [hs] at hne
  | cons x xs => exact ⟨x, xs, rfl, by simp [hdrBus, ho, hs]⟩

theorem takes_data (ht : s.ctrl.takesData (s.wires e) = true) :
    ∃ d ds, s.srcData = d :: ds ∧ (s.wires e).line = d := by
  simp only [RxTcpInput.takesData, wires, Bool.and_eq_true] at ht
  obtain ⟨⟨-, ho, hne⟩, -⟩ := ht
  cases hs : s.srcData with
  | nil => simp [hs] at hne
  | cons d ds => exact ⟨d, ds, rfl, by simp [wires, ho, hs]⟩

theorem ctrl_moves (hv : Inv segs s done rest) (hb : s.NoBubble e) :
    s.ctrl.Moves (s.wires e) (s.srcHdrs.map RxSegment.pkt) (s.srcData.map DataLine.read) rest := by
  obtain ⟨busy, ho⟩ := hv.ctrl
  apply RxTcpInput.moves ho hb
  · intro ht
    obtain ⟨x, xs, hs, hbus⟩ := takes_hdr ht
    refine ⟨x.pkt, xs.map RxSegment.pkt, by rw [hs, List.map_cons], ?_, rfl, x.nonempty⟩
    simp only [wires, hbus]
    rfl
  · intro ht
    obtain ⟨d, ds, hs, hline⟩ := takes_data ht
    exact ⟨d.read, ds.map DataLine.read, by rw [hs, List.map_cons], by rw [hline]⟩

/-- Every cycle without a bubble keeps the invariant. -/
theorem inv_cycle (hv : Inv segs s done rest) (hb : s.NoBubble e) :
    ∃ done' rest', Inv segs (s.cycle e) done' rest' := by
  have hm := ctrl_moves hv hb
  obtain ⟨busy, ho⟩ := hm.owes
  rw [map_tail_if, map_tail_if] at ho
  cases hs : s.ctrl.sent (s.wires e) with
  | none =>
    rw [hs, Option.isSome_none, if_neg Bool.false_ne_true] at ho
    refine ⟨done, rest, ⟨busy, ho⟩, ?_, hv.all⟩
    simpa [cycle, hs] using hv.sent
  | some l =>
    obtain ⟨t, ts, rfl, hl⟩ := hm.sent l hs
    rw [hs, Option.isSome_some, if_pos rfl] at ho
    refine ⟨done ++ [t], ts, ⟨busy, ho⟩, ?_, by simpa using hv.all⟩
    have hone : List.Forall₂ AxisLine.Shows [l] [t] := .cons hl .nil
    simpa [cycle, hs] using List.rel_append hv.sent hone

theorem inv_of_reach (h : Reach (Init segs) step NoBubble s) : ∃ done rest, Inv segs s done rest := by
  refine h.invariant (I := fun s => ∃ done rest, Inv segs s done rest)
    (fun _ hi => ⟨_, _, inv_init hi⟩) ?_
  rintro s e s' ⟨done, rest, hv⟩ hok hstep
  cases hstep
  exact inv_cycle hv hok

/-! ### Progress -/

def work (segs : List RxSegment) (s : RxTcpInputSystem) : Nat :=
  s.srcHdrs.length + s.srcData.length + ((framesOf segs).length - s.sent.length)

def awaits (s : RxTcpInputSystem) : RxTcpInputEvent :=
  if s.ctrl.state = .ready then .hdr else .line

/-- Nothing moves. -/
def Idle (s : RxTcpInputSystem) (e : RxTcpInputEnv) : Prop :=
  s.ctrl.takesHdr (s.wires e) = false ∧ s.ctrl.takesData (s.wires e) = false ∧
    s.ctrl.sent (s.wires e) = none

theorem Inv.work_lt (hv : Inv segs s done rest) (hb : s.NoBubble e) (hi : ¬ s.Idle e) :
    work segs (s.cycle e) < work segs s := by
  have hm := ctrl_moves hv hb
  have hlen : s.sent.length + rest.length = (framesOf segs).length := by
    rw [hv.sent.length_eq, ← List.length_append, hv.all]
  have h1 := length_tail_if (l := s.srcHdrs) (b := s.ctrl.takesHdr (s.wires e)) fun ht => by
    obtain ⟨x, xs, hs, -⟩ := takes_hdr ht
    simp [hs]
  have h2 := length_tail_if (l := s.srcData) (b := s.ctrl.takesData (s.wires e)) fun ht => by
    obtain ⟨d, ds, hs, -⟩ := takes_data ht
    simp [hs]
  have hc : (s.cycle e).srcHdrs.length + (s.ctrl.takesHdr (s.wires e)).toNat = s.srcHdrs.length :=
    h1
  have hd : (s.cycle e).srcData.length + (s.ctrl.takesData (s.wires e)).toNat = s.srcData.length :=
    h2
  have hsent : (s.cycle e).sent.length =
      s.sent.length + (s.ctrl.sent (s.wires e)).toList.length := List.length_append
  unfold work
  rw [hsent]
  cases hs : s.ctrl.sent (s.wires e) with
  | some l =>
    obtain ⟨t, ts, rfl, -⟩ := hm.sent l hs
    rw [List.length_cons] at hlen
    simp only [Option.toList_some, List.length_cons, List.length_nil]
    omega
  | none =>
    cases hth : s.ctrl.takesHdr (s.wires e) with
    | true =>
      rw [hth, Bool.toNat_true] at hc
      simp only [Option.toList_none, List.length_nil]
      omega
    | false =>
      cases htd : s.ctrl.takesData (s.wires e) with
      | true =>
        rw [htd, Bool.toNat_true] at hd
        simp only [Option.toList_none, List.length_nil]
        omega
      | false => exact absurd ⟨hth, htd, hs⟩ hi

/-- Where nothing moves, the state stays. -/
theorem Idle.still (hi : s.Idle e) : s.cycle e =
    { s with ctrl := (s.cycle e).ctrl } ∧ (s.cycle e).ctrl.state = s.ctrl.state := by
  obtain ⟨hh, hd, hs⟩ := hi
  refine ⟨by simp [cycle, hh, hd, hs], ?_⟩
  cases hst : s.ctrl.state with
  | ready => simp [cycle, RxTcpInput.next, RxTcpInput.stateNext, hst, hh]
  | chksumDataInput => simp [cycle, RxTcpInput.next, RxTcpInput.stateNext, hst, hd]
  | chksumDataLast =>
    have hq : (s.wires e).reqRdy = false := by
      cases hq : (s.wires e).reqRdy with
      | false => rfl
      | true => simp [RxTcpInput.sent, RxTcpInput.req, hq, hst] at hs
    simp [cycle, RxTcpInput.next, RxTcpInput.stateNext, hst, hq]

/-- Short of the end something moves when the awaited event comes. -/
theorem Inv.stirs (hv : Inv segs s done rest) (hn : ¬ Delivered segs s) (hg : Given e (awaits s)) :
    ¬ s.Idle e := by
  rintro ⟨hh, hd, hs⟩
  obtain ⟨busy, ho⟩ := hv.ctrl
  cases ho with
  | ready hst hb hds hts =>
    have hst' : s.ctrl.state = .ready := hst
    obtain ⟨ho, hc⟩ : e.offerHdr = true ∧ e.cmdRdy = true := by simpa [awaits, hst', Given] using hg
    have hnil : s.srcHdrs = [] := by
      simpa [RxTcpInput.takesHdr, wires, hst', ho, hc] using hh
    rw [hnil] at hds hts
    refine hn ⟨hnil, by simpa using hds, ?_⟩
    rw [← hv.all, hts]
    simpa using hv.sent
  | dataInput r hst hb hr hds hts =>
    have hst' : s.ctrl.state = .chksumDataInput := hst
    obtain ⟨ho, hq⟩ : e.offerData = true ∧ e.reqRdy = true := by simpa [awaits, hst', Given] using hg
    have hnil : s.srcData = [] := by
      simpa [RxTcpInput.takesData, wires, hst', ho, hq] using hd
    rw [hnil] at hds
    exact beats_ne_nil (by decide) hr (List.append_eq_nil_iff.mp hds.symm).1
  | dataLast hst hb hp hds hts =>
    have hst' : s.ctrl.state = .chksumDataLast := hst
    obtain ⟨-, hq⟩ : e.offerData = true ∧ e.reqRdy = true := by simpa [awaits, hst', Given] using hg
    simp [RxTcpInput.sent, RxTcpInput.req, wires, hst', hq] at hs

theorem Inv.goesOn (hv : Inv segs s done rest) {sched : Nat → RxTcpInputEnv}
    (hok : ∀ n, NoBubble (exec cycle s sched n) (sched n)) (hf : Fair Given sched) :
    ∃ n, Delivered segs (exec cycle s sched n) := by
  apply exec_reaches (I := fun s => ∃ done rest, Inv segs s done rest) (work segs) awaits ?_ ?_
    ⟨done, rest, hv⟩ hok hf
  · rintro s e ⟨done, rest, hv⟩ hb
    exact inv_cycle hv hb
  · rintro s e ⟨done, rest, hv⟩ hb hn
    by_cases hi : s.Idle e
    · obtain ⟨heq, hst⟩ := hi.still
      refine .inr ⟨?_, ?_, fun hg => hv.stirs hn hg hi⟩
      · rw [heq]
        exact Nat.le_refl _
      · rw [awaits, hst]
        rfl
    · exact .inl (hv.work_lt hb hi)

end RxTcpInputSystem

/-- In every run without a bubble the engine is sent the segments with their pseudo headers. -/
theorem rx_tcp_input_sends (segs : List RxSegment) {s : RxTcpInputSystem}
    (h : Reach (RxTcpInputSystem.Init segs) RxTcpInputSystem.step RxTcpInputSystem.NoBubble s) :
    RxTcpInputSystem.Sends RxTcpInputSystem.NoBubble segs s := by
  obtain ⟨done, rest, hv⟩ := RxTcpInputSystem.inv_of_reach h
  exact ⟨⟨done, hv.sent, ⟨rest, hv.all⟩⟩, fun _ hok hf => hv.goesOn hok hf⟩

/-! ### Fixed segments -/

/-- 60 bytes, which need a second line behind the pseudo header. -/
def sixtySegment : RxSegment where
  hdr := ⟨1, 2, 60⟩
  bytes := (lineBytes (BitVec.ofNat (8 * 64) (0x1234 * 2 ^ 400))).take 60
  lines := [⟨BitVec.ofNat 512 (0x1234 * 2 ^ 400), 4, true⟩]
  nonempty := by decide +kernel
  carried := by decide +kernel

def RxTcpInputSystem.reset (segs : List RxSegment) : RxTcpInputSystem :=
  ⟨⟨.ready, 0, 0⟩, segs, segs.flatMap RxSegment.lines, []⟩

theorem RxTcpInputSystem.init_reset (segs : List RxSegment) : Init segs (reset segs) :=
  ⟨rfl, ⟨rfl, rfl⟩, rfl⟩

/-- Everything is offered and the engine is ready. -/
def RxTcpInputEnv.calm : RxTcpInputEnv := ⟨true, true, true, true, default, default⟩

/-- Two segments are sent in four lines. -/
theorem rx_tcp_input_sends_two :
    ∃ s, Reach (RxTcpInputSystem.Init [sixtySegment, sixtySegment]) RxTcpInputSystem.step
        RxTcpInputSystem.NoBubble s ∧
      s.sent.map AxisLine.last = [false, true, false, true] ∧
      RxTcpInputSystem.Sends RxTcpInputSystem.NoBubble [sixtySegment, sixtySegment] s := by
  have hs : ∃ s, Reach (RxTcpInputSystem.Init [sixtySegment, sixtySegment]) RxTcpInputSystem.step
      RxTcpInputSystem.NoBubble s ∧
        decide (s.sent.map AxisLine.last = [false, true, false, true]) = true :=
    Reach.exists_of_run (List.replicate 6 .calm) (RxTcpInputSystem.init_reset _) (by decide +kernel)
  obtain ⟨s, hs, hp⟩ := hs
  exact ⟨s, hs, of_decide_eq_true hp, rx_tcp_input_sends _ hs⟩

/-- The header is taken, and in the next cycle the engine is ready but the line is not there: the
engine takes a line in which no byte is marked. -/
theorem rx_tcp_input_bubble :
    ¬ ∀ s, Reach (RxTcpInputSystem.Init [sixtySegment]) RxTcpInputSystem.step Free s →
      RxTcpInputSystem.Sends Free [sixtySegment] s := by
  intro h
  have hs : ∃ s, Reach (RxTcpInputSystem.Init [sixtySegment]) RxTcpInputSystem.step Free s ∧
      decide (s.sent.map AxisLine.keep = [0]) = true :=
    Reach.exists_of_run [.calm, { RxTcpInputEnv.calm with offerData := false }]
      (RxTcpInputSystem.init_reset _) (by decide +kernel)
  obtain ⟨s, hs, hp⟩ := hs
  have hkeep := of_decide_eq_true hp
  obtain ⟨ts, hshow, -⟩ := (h s hs).sent
  obtain ⟨l, hl⟩ : ∃ l, s.sent = [l] := by
    rw [← List.length_eq_one_iff, ← List.length_map (f := AxisLine.keep), hkeep]
    rfl
  rw [hl] at hshow hkeep
  cases hshow with
  | cons hl _ =>
    have hzero : BitVec.allOnes 64 <<< _ = 0#64 := hl.keep.symm.trans (List.singleton_inj.mp hkeep)
    have hbit := congrArg (fun x => x.getLsbD 63) hzero
    have hpad := hl.pad
    simp only [BitVec.getLsbD_shiftLeft, BitVec.getLsbD_allOnes, BitVec.getLsbD_zero] at hbit
    simp at hbit
    omega

end TcpHw
