import TcpHw.Frontend.RxTcpWrap

/-!
# The TCP receive path passes on what verifies

Headers and lines of segments wait in front of `rx_tcp_format_wrap`, and more of them may come. In a
run without bubbles the path gives out a header and the payload for every segment whose checksum
verifies, except for one that stands behind a bad segment of one line.
-/
namespace TcpHw

open Bytes Framing Trace

set_option autoImplicit false

/-! ### The system -/

/-- What the surroundings do in one cycle. The last three fields are what is on the buses while
nothing is valid there. -/
structure RxTcpEnv where
  offerHdr : Bool
  offerData : Bool
  reqRdy : Bool
  respond : Bool
  hdrRdy : Bool
  dataRdy : Bool
  hdrBus : RxSegHdr
  lineBus : DataLine
  respBus : AxisLine

/-- The path, what waits in front of it and what was given out. -/
structure RxTcpReceive where
  wrap : RxTcpWrap
  srcHdrs : List RxSegHdr
  srcData : List DataLine
  hdrs : List RxTcpHdr
  data : List (Beat (BitVec 8))

namespace RxTcpReceive

section

variable (s : RxTcpReceive) (e : RxTcpEnv)

def hdrBus : RxSegHdr := if e.offerHdr then s.srcHdrs.headD e.hdrBus else e.hdrBus

def inWires : RxTcpInputWires where
  hdrVal := e.offerHdr && !s.srcHdrs.isEmpty
  srcIp := (s.hdrBus e).srcIp
  dstIp := (s.hdrBus e).dstIp
  tcpLen := (s.hdrBus e).tcpLen
  dataVal := e.offerData && !s.srcData.isEmpty
  line := if e.offerData then s.srcData.headD e.lineBus else e.lineBus
  cmdRdy := s.wrap.chk.cmdRdy
  reqRdy := e.reqRdy && s.wrap.chk.transferIn

def outWires : OutputWires where
  respVal := s.wrap.chk.valid
  resp := s.wrap.chk.resp.getD e.respBus
  hdrRdy := e.hdrRdy
  dataRdy := e.dataRdy

/-- One clock cycle, in which the headers `hs` and the lines `ds` come. -/
def cycleWith (hs : List RxSegHdr) (ds : List DataLine) : RxTcpReceive :=
  let i := s.inWires e
  let o := s.outWires e
  { wrap := s.wrap.next i o e.respond
    srcHdrs := (if s.wrap.inp.takesHdr i then s.srcHdrs.tail else s.srcHdrs) ++ hs
    srcData := (if s.wrap.inp.takesData i then s.srcData.tail else s.srcData) ++ ds
    hdrs := s.hdrs ++ s.wrap.out.hdrGiven o
    data := s.data ++ s.wrap.out.dataGiven o }

def cycle : RxTcpReceive := s.cycleWith e [] []

def step : Option RxTcpReceive := some (s.cycle e)

/-- No line is missing while the engine is ready for it. -/
def NoBubble : Prop := s.wrap.inp.bubble (s.inWires e) = false

instance : Decidable (s.NoBubble e) := inferInstanceAs (Decidable (_ = false))

end

/-- The registers of the path after reset. -/
structure Fresh (s : RxTcpReceive) : Prop where
  inp : s.wrap.inp.state = .ready
  chk : s.wrap.chk.Reset
  out : s.wrap.out.Idle
  empty : s.hdrs = [] ∧ s.data = []

/-- After reset, with the segments to come. -/
def Init (segs : List RxSegment) (s : RxTcpReceive) : Prop :=
  s.Fresh ∧ s.srcHdrs = segs.map RxSegment.hdr ∧ s.srcData = segs.flatMap RxSegment.lines

/-- Everything was taken, and every segment that is passed on was given out. -/
structure Delivered (segs : List RxSegment) (s : RxTcpReceive) : Prop where
  srcHdrs : s.srcHdrs = []
  srcData : s.srcData = []
  hdrs : s.hdrs = (RxSegment.passed segs).map RxSegment.hdrOut
  data : s.data = (RxSegment.passed segs).flatMap fun x => beats 64 x.payload

/-! ### One cycle -/

/-- What is owed for the segments; the headers `hs` and the lines `ds` have not come yet. -/
structure Inv (segs : List RxSegment) (hs : List RxSegHdr) (ds : List (Beat (BitVec 8)))
    (s : RxTcpReceive) (l : RxTcpLists) : Prop where
  owes : s.wrap.Owes segs l
  pkts : ∃ rest : List RxSegment, l.pkts = rest.map RxSegment.pkt ∧
    rest.map RxSegment.hdr = s.srcHdrs ++ hs
  data : l.data = s.srcData.map DataLine.read ++ ds
  given : l.hdrs = s.hdrs ∧ l.lines = s.data

variable {segs : List RxSegment} {hs hs' : List RxSegHdr} {ds : List (Beat (BitVec 8))}
  {new : List RxSegHdr} {lines : List DataLine} {s : RxTcpReceive} {l : RxTcpLists} {e : RxTcpEnv}

theorem wired : s.wrap.Wired (s.inWires e) (s.outWires e) := by
  refine ⟨rfl, fun h => (Bool.and_eq_true_iff.mp h).2, rfl, fun l hl => ?_⟩
  have hresp : s.wrap.chk.resp = some l := hl
  simp [outWires, hresp]

theorem inv_fresh (hx : ∀ x ∈ segs, x.Framed) (hf : s.Fresh)
    (hh : segs.map RxSegment.hdr = s.srcHdrs ++ hs)
    (hd : (segs.flatMap fun x => beats 64 x.bytes) = s.srcData.map DataLine.read ++ ds) :
    Inv segs hs ds s (RxTcpWrap.resetLists segs) :=
  ⟨RxTcpWrap.owes_reset hx hf.inp hf.chk hf.out, ⟨segs, rfl, hh⟩, hd, hf.empty.1.symm,
    hf.empty.2.symm⟩

/-- A header that is taken is the next one. -/
theorem takes_hdr (hv : Inv segs hs ds s l) (ht : s.wrap.inp.takesHdr (s.inWires e) = true) :
    ∃ x xs h, l.pkts = RxSegment.pkt x :: xs ∧ s.srcHdrs = h :: s.srcHdrs.tail ∧ h = x.hdr ∧
      s.hdrBus e = h := by
  simp only [RxTcpInput.takesHdr, inWires, Bool.and_eq_true] at ht
  obtain ⟨⟨-, ho, hne⟩, -⟩ := ht
  obtain ⟨rest, hpkts, hrest⟩ := hv.pkts
  cases hs : s.srcHdrs with
  | nil => simp [hs] at hne
  | cons h t =>
    rw [hs] at hrest
    cases rest with
    | nil => simp at hrest
    | cons x xs =>
      rw [List.map_cons, List.cons_append, List.cons.injEq] at hrest
      exact ⟨x, _, h, hpkts, rfl, hrest.1.symm, by simp [hdrBus, ho, hs]⟩

theorem takes_data (hv : Inv segs hs ds s l) (ht : s.wrap.inp.takesData (s.inWires e) = true) :
    ∃ d t, s.srcData = d :: t ∧ (s.inWires e).line = d ∧
      l.data = d.read :: (t.map DataLine.read ++ ds) := by
  simp only [RxTcpInput.takesData, inWires, Bool.and_eq_true] at ht
  obtain ⟨⟨-, ho, hne⟩, -⟩ := ht
  cases hs : s.srcData with
  | nil => simp [hs] at hne
  | cons d t => exact ⟨d, t, rfl, by simp [inWires, ho, hs], by rw [hv.data, hs]; rfl⟩

/-- What is known after a cycle. -/
theorem owes_cycle (hv : Inv segs hs ds s l) (hx : ∀ x ∈ segs, x.Framed) (hb : s.NoBubble e) :
    (s.wrap.next (s.inWires e) (s.outWires e) e.respond).Owes segs
        (s.wrap.left (s.inWires e) (s.outWires e) l) ∧
      ((s.wrap.inp.sent (s.inWires e)).isSome = true → l.reqs ≠ []) := by
  refine hv.owes.keeps wired hx hb e.respond ?_ ?_
  · intro ht
    obtain ⟨x, xs, h, hpkts, -, rfl, hbus⟩ := takes_hdr hv ht
    refine ⟨x.pkt, xs, hpkts, ?_, rfl, x.nonempty⟩
    simp only [inWires, hbus]
    rfl
  · intro ht
    obtain ⟨d, t, -, hline, hdata⟩ := takes_data hv ht
    exact ⟨d.read, _, hdata, by rw [hline]⟩

theorem inv_cycle (hv : Inv segs (new ++ hs) (lines.map DataLine.read ++ ds) s l)
    (hx : ∀ x ∈ segs, x.Framed) (hb : s.NoBubble e) :
    Inv segs hs ds (s.cycleWith e new lines) (s.wrap.left (s.inWires e) (s.outWires e) l) := by
  refine ⟨(owes_cycle hv hx hb).1, ?_, ?_, ?_⟩
  · obtain ⟨rest, hpkts, hrest⟩ := hv.pkts
    show ∃ rest', (if s.wrap.inp.takesHdr (s.inWires e) then l.pkts.tail else l.pkts) = _ ∧
      _ = (if s.wrap.inp.takesHdr (s.inWires e) then s.srcHdrs.tail else s.srcHdrs) ++ new ++ hs
    cases ht : s.wrap.inp.takesHdr (s.inWires e) with
    | false => exact ⟨rest, hpkts, by rw [hrest, List.append_assoc]; rfl⟩
    | true =>
      obtain ⟨-, -, h, -, hsrc, -⟩ := takes_hdr hv ht
      refine ⟨rest.tail, by rw [hpkts]; simp, ?_⟩
      rw [hsrc] at hrest
      rw [List.map_tail, hrest, List.append_assoc]
      rfl
  · show (if s.wrap.inp.takesData (s.inWires e) then l.data.tail else l.data) =
      ((if s.wrap.inp.takesData (s.inWires e) then s.srcData.tail else s.srcData) ++
        lines).map DataLine.read ++ ds
    cases ht : s.wrap.inp.takesData (s.inWires e) with
    | false => simp [hv.data]
    | true =>
      obtain ⟨d, t, hsrc, -, hdata⟩ := takes_data hv ht
      simp [hdata, hsrc]
  · obtain ⟨hh, hd⟩ := hv.given
    simp only [RxTcpWrap.left, cycleWith, hh, hd, and_self]

/-- Nothing comes. -/
theorem inv_next (hv : Inv segs hs ds s l) (hx : ∀ x ∈ segs, x.Framed) (hb : s.NoBubble e) :
    Inv segs hs ds (s.cycle e) (s.wrap.left (s.inWires e) (s.outWires e) l) := by
  have hnone : Inv segs ([] ++ hs) (([] : List DataLine).map DataLine.read ++ ds) s l := hv
  exact inv_cycle hnone hx hb

theorem Inv.given_prefix (hv : Inv segs hs ds s l) (hx : ∀ x ∈ segs, x.Framed) :
    s.hdrs <+: (RxSegment.passed segs).map RxSegment.hdrOut ∧
      s.data <+: (RxSegment.passed segs).flatMap fun x => beats 64 x.payload := by
  have hg := hv.owes.given hx
  rw [hv.given.1, hv.given.2] at hg
  exact hg

/-! ### Progress -/

/-- What the surroundings do in their own time. -/
inductive RxTcpEvent where
  | offerHdr | req | respond | hdrRdy | dataRdy
  deriving DecidableEq

/-- The event happens in this cycle. The engine takes a line that comes from the bus while it is on
it. -/
def Given (e : RxTcpEnv) : RxTcpEvent → Prop
  | .offerHdr => e.offerHdr = true
  | .req => e.reqRdy = true ∧ e.offerData = true
  | .respond => e.respond = true
  | .hdrRdy => e.hdrRdy = true
  | .dataRdy => e.dataRdy = true

/-- The event lets something move. -/
def Awaits (s : RxTcpReceive) : RxTcpEvent → Prop
  | .offerHdr => s.wrap.inp.state = .ready ∧ s.srcHdrs ≠ []
  | .req => s.wrap.inp.state ≠ .ready ∧
      (s.wrap.inp.state = .chksumDataInput → s.srcData ≠ [])
  | .respond => s.wrap.Awaiting
  | .hdrRdy => s.wrap.HasHdr
  | .dataRdy => s.wrap.HasLine

def moved (s : RxTcpReceive) (e : RxTcpEnv) : Nat :=
  s.wrap.moved (s.inWires e) (s.outWires e) e.respond

theorem work_le (hv : Inv segs hs ds s l) (hx : ∀ x ∈ segs, x.Framed) (hb : s.NoBubble e) :
    RxTcpWrap.work segs (s.wrap.next (s.inWires e) (s.outWires e) e.respond)
        (s.wrap.left (s.inWires e) (s.outWires e) l) + s.moved e ≤
      RxTcpWrap.work segs s.wrap l := by
  obtain ⟨ho, hreqs⟩ := owes_cycle hv hx hb
  refine RxTcpWrap.work_le ho hx wired ?_ ?_ hreqs (hv.owes.takes_ne wired)
  · intro ht
    obtain ⟨x, xs, h, hpkts, -⟩ := takes_hdr hv ht
    simp [hpkts]
  · intro ht
    obtain ⟨d, t, -, -, hdata⟩ := takes_data hv ht
    simp [hdata]

/-- Where nothing moves, the same event is awaited. -/
theorem awaits_next {k : RxTcpEvent} (ha : s.Awaits k) (hz : s.moved e = 0) :
    (s.cycleWith e new lines).Awaits k := by
  have hstill := RxTcpWrap.still hz
  have hin : (s.cycleWith e new lines).wrap.inp.state = s.wrap.inp.state := hstill.inp
  have hno : ∀ {b : Prop}, (b → 0 < s.moved e) → ¬ b := fun h hb => by
    have hpos := h hb
    omega
  cases k with
  | offerHdr =>
    have ht : ¬ s.wrap.inp.takesHdr (s.inWires e) = true :=
      hno fun ht => RxTcpWrap.moved_pos (.inl ht)
    refine ⟨hin.trans ha.1, ?_⟩
    simp [cycleWith, ht, ha.2]
  | req =>
    have ht : ¬ s.wrap.inp.takesData (s.inWires e) = true := by
      refine hno fun ht => ?_
      have hpos : 0 < (s.wrap.inp.takesData (s.inWires e)).toNat := by simp [ht]
      simp only [moved, RxTcpWrap.moved]
      omega
    refine ⟨fun h => ha.1 (hin.symm.trans h), fun h => ?_⟩
    have hne := ha.2 (hin.symm.trans h)
    simp [cycleWith, ht, hne]
  | respond =>
    obtain ⟨hne, hval⟩ := ha
    exact ⟨hstill.lines ▸ hne, hstill.valid.trans hval⟩
  | hdrRdy => exact hstill.hasHdr ha
  | dataRdy => exact hstill.hasLine ha

/-- The engine takes a line. -/
theorem sends (hv : Inv segs hs ds s l) (ha : s.Awaits .req) (hg : Given e .req) :
    (s.wrap.inp.sent (s.inWires e)).isSome = true := by
  obtain ⟨hq, ho⟩ : e.reqRdy = true ∧ e.offerData = true := hg
  cases hv.owes.inp with
  | ready hst => exact absurd hst ha.1
  | dataInput rest hst hb =>
    have hst' : s.wrap.inp.state = .chksumDataInput := hst
    simp [RxTcpInput.sent, RxTcpInput.req, inWires, hst', hb, hq]
  | dataLast hst hb =>
    have hst' : s.wrap.inp.state = .chksumDataLast := hst
    simp [RxTcpInput.sent, RxTcpInput.req, inWires, hst', hb, hq]

/-- The engine takes a command while the input controller waits for a header. -/
theorem idle (hv : Inv segs hs ds s l) (hs : s.wrap.inp.state = .ready) :
    s.wrap.chk.cmdRdy = true := by
  have hb := RxTcpWrap.busy_eq hv.owes.inp
  simp [ChksumUnit.cmdRdy, hb, hs]

/-- An event that is awaited lets something move. -/
theorem moves (hv : Inv segs hs ds s l) {k : RxTcpEvent} (ha : s.Awaits k) (hg : Given e k) :
    0 < s.moved e := by
  cases k with
  | offerHdr =>
    obtain ⟨hst, hne⟩ := ha
    have ho : e.offerHdr = true := hg
    refine RxTcpWrap.moved_pos (.inl ?_)
    simp [RxTcpInput.takesHdr, inWires, hst, ho, hne, idle hv hst]
  | req => exact RxTcpWrap.moved_pos (.inr (.inl (sends hv ha hg)))
  | respond =>
    obtain ⟨hne, hval⟩ := ha
    have hr : e.respond = true := hg
    exact RxTcpWrap.moved_pos (by simp [hne, hval, hr])
  | hdrRdy =>
    have hr : (s.outWires e).hdrRdy = true := hg
    exact RxTcpWrap.HasHdr.moves ha hr _
  | dataRdy =>
    have hr : (s.outWires e).dataRdy = true := hg
    exact RxTcpWrap.HasLine.moves ha wired hr _

/-- The path goes on, or it waits for more to come. -/
theorem goes_on (hv : Inv segs hs ds s l) :
    (∃ k, (∀ e, 0 < s.moved e) ∨ s.Awaits k) ∨ s.wrap.Starved ∧
      (s.wrap.inp.state = .ready ∧ s.srcHdrs = [] ∨
        s.wrap.inp.state = .chksumDataInput ∧ s.srcData = []) := by
  rcases hv.owes.waits with hs | ha | hstarved | hl | hh
  · exact .inl ⟨.req, .inl fun e => hs.moves wired _⟩
  · exact .inl ⟨.respond, .inr ha⟩
  · cases hst : s.wrap.inp.state with
    | ready =>
      by_cases hsrc : s.srcHdrs = []
      · exact .inr ⟨hstarved, .inl ⟨rfl, hsrc⟩⟩
      · exact .inl ⟨.offerHdr, .inr ⟨hst, hsrc⟩⟩
    | chksumDataInput =>
      by_cases hsrc : s.srcData = []
      · exact .inr ⟨hstarved, .inr ⟨rfl, hsrc⟩⟩
      · exact .inl ⟨.req, .inr ⟨by simp [hst], fun _ => hsrc⟩⟩
    | chksumDataLast => exact .inl ⟨.req, .inr ⟨by simp [hst], by simp [hst]⟩⟩
  · exact .inl ⟨.dataRdy, .inr hl⟩
  · exact .inl ⟨.hdrRdy, .inr hh⟩

/-- A line of the segment in hand is still to come. -/
theorem data_ne (hv : Inv segs hs ds s l) (hst : s.wrap.inp.state = .chksumDataInput) :
    s.srcData.map DataLine.read ++ ds ≠ [] := by
  have hst' : s.wrap.inp.general.state = .chksumDataInput := hst
  rw [← hv.data]
  cases hv.owes.inp with
  | ready hs => cases hst'.symm.trans hs
  | dataInput rest hs hb hr hd =>
    rw [hd]
    exact fun hnil => beats_ne_nil (by decide) hr (List.append_eq_nil_iff.mp hnil).1
  | dataLast hs => cases hst'.symm.trans hs

/-- The path is starved for good. -/
theorem drained (hv : Inv segs [] [] s l) (hx : ∀ x ∈ segs, x.Framed) (hs : s.wrap.Starved)
    (hst : s.wrap.inp.state = .ready ∧ s.srcHdrs = [] ∨
      s.wrap.inp.state = .chksumDataInput ∧ s.srcData = []) : Delivered segs s := by
  rcases hst with ⟨hst, hsrc⟩ | ⟨hst, hsrc⟩
  · obtain ⟨rest, hpkts, hrest⟩ := hv.pkts
    have hnil : rest = [] := by simpa [hsrc] using hrest
    obtain ⟨hdata, hh, hd⟩ := hv.owes.drained hx hs hst (by rw [hpkts, hnil]; rfl)
    rw [hv.data, List.append_nil, List.map_eq_nil_iff] at hdata
    exact ⟨hsrc, hdata, hv.given.1.symm.trans hh, hv.given.2.symm.trans hd⟩
  · exact absurd (by simp [hsrc]) (data_ne hv hst)

/-! ### Whole runs -/

theorem inv_of_reach (hx : ∀ x ∈ segs, x.Framed) (h : Reach (Init segs) step NoBubble s) :
    ∃ l, Inv segs [] [] s l := by
  refine h.invariant (I := fun s => ∃ l, Inv segs [] [] s l) ?_ ?_
  · rintro s ⟨hf, hh, hd⟩
    refine ⟨_, inv_fresh hx hf (by rw [hh, List.append_nil]) ?_⟩
    rw [hd, List.append_nil, List.map_flatMap]
    exact congrArg (fun f => segs.flatMap f) (funext fun x => x.carried.symm)
  · rintro s e s' ⟨l, hv⟩ hok hstep
    cases hstep
    exact ⟨_, inv_next hv hx hok⟩

/-- The path together with what is owed. -/
def nextOwed (x : RxTcpReceive × RxTcpLists) (e : RxTcpEnv) : RxTcpReceive × RxTcpLists :=
  (x.1.cycle e, x.1.wrap.left (x.1.inWires e) (x.1.outWires e) x.2)

/-- If every event happens again and again, everything is given out. -/
theorem Inv.delivers (hv : Inv segs [] [] s l) (hx : ∀ x ∈ segs, x.Framed)
    {sched : Nat → RxTcpEnv} (hok : ∀ n, NoBubble (exec cycle s sched n) (sched n))
    (hf : Fair Given sched) : ∃ n, Delivered segs (exec cycle s sched n) := by
  have hmap : ∀ n, (exec nextOwed (s, l) sched n).1 = exec cycle s sched n :=
    exec_map (fun _ _ => rfl) _ sched
  have hok' : ∀ n, (exec nextOwed (s, l) sched n).1.NoBubble (sched n) := fun n => by
    rw [hmap n]
    exact hok n
  have hreach : ∃ n, Delivered segs (exec nextOwed (s, l) sched n).1 := by
    apply exec_reaches_moving_of (I := fun x : RxTcpReceive × RxTcpLists => Inv segs [] [] x.1 x.2)
      (G := fun x => Delivered segs x.1) (fun x e => x.1.NoBubble e)
      (fun x => RxTcpWrap.work segs x.1.wrap x.2) (fun x e => x.1.moved e)
      (fun x k => x.1.Awaits k) ?_ ?_ ?_ ?_ ?_ hv hok' hf
    · intro x e hi hb
      exact inv_next hi hx hb
    · intro x e hi hb
      exact work_le hi hx hb
    · intro x hi hn
      rcases goes_on hi with hk | ⟨hstarved, hst⟩
      · exact hk
      · exact absurd (drained hi hx hstarved hst) hn
    · intro x e k hi _ ha hg
      exact moves hi ha hg
    · intro x e k _ _ ha hz
      exact awaits_next ha hz
  obtain ⟨n, hn⟩ := hreach
  exact ⟨n, hmap n ▸ hn⟩

end RxTcpReceive

/-- For all segments and schedules without a bubble the path gives out the headers and payloads of
the segments that are passed on, in order and no others. If every event happens again and again it
gives out all of them. -/
theorem rx_tcp_format_wrap_passes (segs : List RxSegment) (hx : ∀ x ∈ segs, x.Framed)
    {s : RxTcpReceive} (h : Reach (RxTcpReceive.Init segs) RxTcpReceive.step RxTcpReceive.NoBubble s) :
    (s.hdrs <+: (RxSegment.passed segs).map RxSegment.hdrOut ∧
        s.data <+: (RxSegment.passed segs).flatMap fun x => beats 64 x.payload) ∧
      ∀ sched, (∀ n, RxTcpReceive.NoBubble (exec RxTcpReceive.cycle s sched n) (sched n)) →
        Fair RxTcpReceive.Given sched →
          ∃ n, RxTcpReceive.Delivered segs (exec RxTcpReceive.cycle s sched n) := by
  obtain ⟨l, hv⟩ := RxTcpReceive.inv_of_reach hx h
  exact ⟨hv.given_prefix hx, fun sched hok hf => hv.delivers hx hok hf⟩

/-! ### Fixed segments -/

/-- 24 bytes with four bytes of payload and the right checksum. -/
def rightSegment : RxSegment where
  hdr := ⟨1, 2, 24⟩
  bytes := lineBytes (0x0001000200000009000000075018006414800000abcdef01 : BitVec (8 * 24))
  lines :=
    [⟨(0x0001000200000009000000075018006414800000abcdef01 : BitVec 192) ++ (0 : BitVec 320), 40,
      true⟩]
  nonempty := by decide
  carried := by decide +kernel

/-- The same with another checksum. -/
def wrongSegment : RxSegment where
  hdr := ⟨1, 2, 24⟩
  bytes := lineBytes (0x0001000200000009000000075018006400050000abcdef01 : BitVec (8 * 24))
  lines :=
    [⟨(0x0001000200000009000000075018006400050000abcdef01 : BitVec 192) ++ (0 : BitVec 320), 40,
      true⟩]
  nonempty := by decide
  carried := by decide +kernel

namespace RxTcpReceive

def reset (segs : List RxSegment) : RxTcpReceive where
  wrap := ⟨⟨.ready, 0, 0⟩, ⟨false, default, [], [], false⟩,
    ⟨.ready, .waiting, default, default, 0, 0, 0, 0⟩⟩
  srcHdrs := segs.map RxSegment.hdr
  srcData := segs.flatMap RxSegment.lines
  hdrs := []
  data := []

theorem init_reset (segs : List RxSegment) : Init segs (reset segs) :=
  ⟨⟨rfl, ⟨rfl, rfl, rfl, rfl⟩, ⟨rfl, rfl⟩, ⟨rfl, rfl⟩⟩, rfl, rfl⟩

end RxTcpReceive

/-- Everything happens in every cycle. -/
def RxTcpEnv.calm : RxTcpEnv := ⟨true, true, true, true, true, true, default, default, default⟩

/-- The segment behind the bad one is dropped with it. -/
theorem rx_tcp_format_wrap_passes_two :
    ∃ s, Reach (RxTcpReceive.Init [rightSegment, wrongSegment, rightSegment, rightSegment])
        RxTcpReceive.step RxTcpReceive.NoBubble s ∧
      s.hdrs.map (fun h => (h.tcpTotLen, h.tcpHdr.seqNum, h.tcpHdr.chksum)) =
        [(24, 9, 0), (24, 9, 0)] ∧
      s.data.map (fun b => (b.bytes, b.last)) =
        [([0xab, 0xcd, 0xef, 1], true), ([0xab, 0xcd, 0xef, 1], true)] ∧
      s.data <+: (RxSegment.passed [rightSegment, wrongSegment, rightSegment, rightSegment]).flatMap
        fun x => beats 64 x.payload := by
  have hs : ∃ s, Reach (RxTcpReceive.Init [rightSegment, wrongSegment, rightSegment, rightSegment])
      RxTcpReceive.step RxTcpReceive.NoBubble s ∧
        decide (s.hdrs.map (fun h => (h.tcpTotLen, h.tcpHdr.seqNum, h.tcpHdr.chksum)) =
            [(24, 9, 0), (24, 9, 0)] ∧
          s.data.map (fun b => (b.bytes, b.last)) =
            [([0xab, 0xcd, 0xef, 1], true), ([0xab, 0xcd, 0xef, 1], true)]) = true :=
    Reach.exists_of_run (List.replicate 24 .calm) (RxTcpReceive.init_reset _) (by decide +kernel)
  obtain ⟨s, hs, hp⟩ := hs
  obtain ⟨hh, hd⟩ := of_decide_eq_true hp
  exact ⟨s, hs, hh, hd, (rx_tcp_format_wrap_passes _ (by decide +kernel) hs).1.2⟩

end TcpHw
