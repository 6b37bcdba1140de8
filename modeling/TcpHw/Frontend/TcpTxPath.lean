import TcpHw.Frontend.TcpStream
import TcpHw.Frontend.UdpRoundTrip

/-!
# The TCP transmit path keeps packets intact

A request becomes one header with its addresses and its length, and the TCP header with the
checksum filled in, followed by the payload. The frame in the checksum unit has the pseudo header in
front, which the output controller cuts off again.
-/
namespace TcpHw

open Bytes Framing Trace

set_option autoImplicit false

/-! ### Packets -/

/-- Two bytes behind `a` are replaced. -/
theorem setPair_append (a b : List (BitVec 8)) (x y : BitVec 8) (c : BitVec 16) :
    setPair (a ++ (x :: y :: b)) a.length c =
      a ++ (c.extractLsb' 8 8 :: c.extractLsb' 0 8 :: b) := by
  induction a with
  | nil => rfl
  | cons z a ih =>
    have hset : setPair (z :: (a ++ x :: y :: b)) (a.length + 1) c =
        z :: setPair (a ++ x :: y :: b) a.length c := rfl
    rw [List.cons_append, List.length_cons, hset, ih, List.cons_append]

namespace TcpRequest

variable (r : TcpRequest)

/-- `pseudo_hdr_cast` -/
def pseudo : ChksumPseudoHdr := tcpPseudoHdr r.hdr.srcIp r.hdr.dstIp (r.hdr.payloadLen + 20)

/-- The packet without a checksum, as it goes into the unit. -/
def plain : ChkPkt 32 where
  hdr := r.hdr.bits
  body := r.payload
  timestamp := r.hdr.timestamp

/-- `tcp_hdr_input` -/
def bare : TcpPktHdr := { r.hdr.tcpHdr with chksum := 0 }

/-- The TCP header with the checksum over the pseudo header, the TCP header and the payload. -/
def filled : TcpPktHdr := { r.hdr.tcpHdr with chksum := onesChksum r.plain.frame }

/-- What goes into an IP packet. -/
def segment : List (BitVec 8) := lineBytes r.filled.bits ++ r.payload

/-- The packet with its checksum, as it comes out of the unit. -/
def summed : ChkPkt 12 where
  hdr := r.pseudo.bits
  body := r.segment
  timestamp := r.hdr.timestamp

/-- What the header port gives out. -/
def owed : TcpIpHdr where
  srcIp := r.hdr.srcIp
  dstIp := r.hdr.dstIp
  tcpLen := BitVec.ofNat 16 (r.payload.length + 20)
  timestamp := r.hdr.timestamp

theorem length_segment : r.segment.length = 20 + r.payload.length := by
  have hb : (lineBytes r.filled.bits).length = 20 := length_lineBytes _
  rw [segment, List.length_append, hb]

theorem pseudo_length : r.pseudo.length = BitVec.ofNat 16 (r.payload.length + 20) := by
  have hlen : r.hdr.payloadLen = BitVec.ofNat 16 r.payload.length := by
    rw [← r.len, BitVec.ofNat_toNat, BitVec.setWidth_eq]
  show r.hdr.payloadLen + 20 = _
  rw [hlen, BitVec.ofNat_add]
  rfl

/-- The unit fills the checksum in. -/
theorem summed_frame : r.summed.frame = sealed 28 r.plain.frame := by
  have hpseudo : (lineBytes r.pseudo.bits).length = 12 := length_lineBytes _
  have hfront : (lineBytes r.hdr.tcpHdr.front).length = 16 := length_lineBytes _
  have hhdr : lineBytes r.hdr.bits = lineBytes r.pseudo.bits ++ lineBytes r.bare.bits :=
    lineBytes_append (m := 12) (n := 20) r.pseudo.bits r.bare.bits
  have hbare : lineBytes r.bare.bits = lineBytes r.hdr.tcpHdr.front ++
      ([r.bare.chksum.extractLsb' 8 8, r.bare.chksum.extractLsb' 0 8] ++
        lineBytes (n := 2) r.hdr.tcpHdr.urgPointer) := r.bare.lineBytes_bits
  have hfill : lineBytes r.filled.bits = lineBytes r.hdr.tcpHdr.front ++
      ([r.filled.chksum.extractLsb' 8 8, r.filled.chksum.extractLsb' 0 8] ++
        lineBytes (n := 2) r.hdr.tcpHdr.urgPointer) := r.filled.lineBytes_bits
  have hplain : r.plain.frame = (lineBytes r.pseudo.bits ++ lineBytes r.hdr.tcpHdr.front) ++
      (r.bare.chksum.extractLsb' 8 8 :: r.bare.chksum.extractLsb' 0 8 ::
        (lineBytes (n := 2) r.hdr.tcpHdr.urgPointer ++ r.payload)) := by
    show lineBytes r.hdr.bits ++ r.payload = _
    rw [hhdr, hbare]
    simp only [List.append_assoc, List.cons_append, List.nil_append]
  have hset := setPair_append (lineBytes r.pseudo.bits ++ lineBytes r.hdr.tcpHdr.front)
    (lineBytes (n := 2) r.hdr.tcpHdr.urgPointer ++ r.payload) (r.bare.chksum.extractLsb' 8 8)
    (r.bare.chksum.extractLsb' 0 8) (onesChksum r.plain.frame)
  rw [List.length_append, hpseudo, hfront, ← hplain] at hset
  rw [sealed, hset]
  show lineBytes r.pseudo.bits ++ (lineBytes r.filled.bits ++ r.payload) = _
  rw [hfill]
  simp only [List.append_assoc, List.cons_append, List.nil_append]
  rfl

/-- The first line tells the length, and whether it is the only one. -/
theorem passes_summed : tcpTxOutput.Passes r.summed := by
  have hbody : r.summed.body.length = 20 + r.payload.length := r.length_segment
  have hfits := r.fits
  have hhdr : (lineBytes r.summed.hdr).length = 12 := length_lineBytes _
  have hframe : r.summed.frame.length = 32 + r.payload.length := by
    rw [ChkPkt.frame, List.length_append, hhdr, hbody]
    omega
  refine ⟨by omega, fun l t hl ht => ?_⟩
  obtain ⟨hcut, -, -⟩ := OutputCtrl.first_line (by decide) ht hl (by omega)
  have hcast : ChksumPseudoHdr.cast (l.data.extractLsb' (8 * 52) (8 * 12)) = r.pseudo := by
    rw [← ChksumPseudoHdr.cast_bits r.pseudo]
    exact congrArg _ hcut
  have hlast : l.last = decide (r.summed.frame.length ≤ 64) := by
    by_cases hn : 64 < r.summed.frame.length
    · rw [ChkPkt.toks, frameToks_full _ hn] at ht
      obtain rfl := Option.some.inj ht
      rw [hl.last, decide_eq_false (Nat.not_le_of_lt hn)]
    · rw [ChkPkt.toks, frameToks_last _ (by omega) (Nat.le_of_not_lt hn)] at ht
      obtain rfl := Option.some.inj ht
      rw [hl.last, decide_eq_true (Nat.le_of_not_lt hn)]
  have hne : r.summed.body ≠ [] := List.ne_nil_of_length_pos (by omega)
  rw [if_neg hne]
  simp only [tcpTxOutput, hcast, r.pseudo_length, hlast, decide_eq_true_eq, hbody,
    Nat.add_comm 20]

theorem txHdr_summed : tcpTxHdr r.summed.hdr r.summed.timestamp = r.owed := by
  have hcast : ChksumPseudoHdr.cast r.summed.hdr = r.pseudo := ChksumPseudoHdr.cast_bits _
  rw [tcpTxHdr, hcast, r.pseudo_length]
  rfl

end TcpRequest

namespace TcpTxSystem

variable {mask : Line → BitVec 6 → Bool → Line} {reqs : List TcpRequest} {s : TcpTxSystem}
  {e : TcpTxEnv}

/-! ### One cycle -/

def path (s : TcpTxSystem) : ChksumPath 32 12 := ⟨s.inp, s.chk, s.out⟩

theorem path_wired : s.path.Wired (s.inWires e) (s.outWires e) := by
  refine ⟨rfl, fun h => (Bool.and_eq_true_iff.mp h).2, rfl, fun l hl => ?_⟩
  have hresp : s.chk.resp = some l := hl
  simp [outWires, hresp]

theorem tcp_places : ChksumPath.Places tcpChksumCmd 28 := ⟨rfl, by decide, by decide⟩

/-- What the path gives out is what was asked for. -/
structure Inv (reqs : List TcpRequest) (s : TcpTxSystem) (g : PathLists 32 12) : Prop where
  path : s.path.Owes tcpTxOutput tcpChksumCmd 28 g
  pkts : g.pkts = s.srcHdrs.map TcpRequest.plain
  data : g.data = s.srcData.map DataLine.read
  hdrs : s.hdrs ++ g.hdrs.map (fun h => tcpTxHdr h.1 h.2) = reqs.map TcpRequest.owed
  lines : s.data ++ g.lines = reqs.flatMap fun r => beats 64 r.segment

def owedInit (reqs : List TcpRequest) : PathLists 32 12 where
  pkts := reqs.map TcpRequest.plain
  data := reqs.flatMap fun r => beats 64 r.payload
  reqs := (reqs.map TcpRequest.plain).flatMap ChkPkt.toks
  resps := (reqs.map TcpRequest.summed).flatMap ChkPkt.toks
  waiting := reqs.map TcpRequest.summed
  hdrs := reqs.map fun r => r.summed.head
  lines := reqs.flatMap fun r => beats 64 r.segment

theorem inv_init (hi : Init reqs s) : Inv reqs s (owedInit reqs) := by
  have hseal := ChksumPath.sealAll_toks TcpRequest.plain TcpRequest.summed reqs (j := 28)
    (by decide) (by decide) (fun _ => rfl) TcpRequest.summed_frame
  have hsrc : s.srcData.map DataLine.read = reqs.flatMap fun r => beats 64 r.payload := by
    rw [hi.src.2, List.map_flatMap]
    exact congrArg (fun f => reqs.flatMap f) (funext TcpRequest.carried)
  have hpass : ∀ p ∈ reqs.map TcpRequest.summed, tcpTxOutput.Passes p := by
    simp only [List.mem_map]
    rintro p ⟨r, -, rfl⟩
    exact r.passes_summed
  have hplain : (reqs.map TcpRequest.plain).flatMap ChkPkt.lines =
      reqs.flatMap fun r => beats 64 r.payload := by
    rw [List.flatMap_map]
    rfl
  have hsum : (reqs.map TcpRequest.summed).flatMap ChkPkt.lines =
      reqs.flatMap fun r => beats 64 r.segment := by
    rw [List.flatMap_map]
    rfl
  refine ⟨⟨.ready hi.inp hi.chk.1 hplain.symm rfl, ?_, ?_⟩, ?_, hsrc.symm, ?_, ?_⟩
  · show ChksumUnit.Holds _ _ _ _ ((reqs.map TcpRequest.summed).flatMap ChkPkt.toks)
    rw [← hseal]
    exact ChksumUnit.holds_reset hi.chk
  · exact .ready hpass hi.out.1 hi.out.2 rfl (by simp [owedInit]) hsum.symm
  · rw [hi.src.1]
    rfl
  · rw [hi.empty.1, List.nil_append]
    show (reqs.map fun r => r.summed.head).map _ = _
    rw [List.map_map]
    exact congrArg (fun f => reqs.map f) (funext TcpRequest.txHdr_summed)
  · rw [hi.empty.2]
    rfl

variable {g : PathLists 32 12}

/-- A header that is taken is that of the next request. -/
theorem takes_hdr (hv : Inv reqs s g) (ht : s.path.inp.takesHdr (s.inWires e) = true) :
    ∃ q ps, g.pkts = q :: ps ∧ (s.inWires e).hdr = q.hdr ∧
      (s.inWires e).timestamp = q.timestamp ∧ ((s.inWires e).hdrOnly = true ↔ q.body = []) := by
  have hval := (Bool.and_eq_true_iff.mp ht).1
  obtain ⟨ho, hne⟩ := Bool.and_eq_true_iff.mp hval
  cases hs : s.srcHdrs with
  | nil => simp [hs] at hne
  | cons r rs =>
    refine ⟨r.plain, rs.map TcpRequest.plain, by rw [hv.pkts, hs, List.map_cons], ?_, ?_, ?_⟩
    · simp [inWires, tcpTxInput, ho, hs, TcpRequest.plain]
    · simp [inWires, tcpTxInput, ho, hs, TcpRequest.plain]
    · have hiff : r.hdr.payloadLen = 0 ↔ r.payload = [] := by
        rw [← BitVec.toNat_inj, r.len, ← List.length_eq_zero_iff]
        rfl
      simpa [inWires, tcpTxInput, ho, hs, TcpRequest.plain] using hiff

theorem takes_data (hv : Inv reqs s g) (ht : s.path.inp.takesData (s.inWires e) = true) :
    ∃ d ds, g.data = d :: ds ∧ (s.inWires e).line.read = d := by
  have hval := (Bool.and_eq_true_iff.mp ht).1
  obtain ⟨ho, hne⟩ := Bool.and_eq_true_iff.mp hval
  cases hs : s.srcData with
  | nil => simp [hs] at hne
  | cons d ds =>
    exact ⟨d.read, ds.map DataLine.read, by rw [hv.data, hs, List.map_cons],
      by simp [inWires, tcpTxInput, ho, hs]⟩

theorem path_moves (hv : Inv reqs s g) : ChksumPath.Moves tcpTxOutput tcpChksumCmd s.path
    (s.inWires e) (s.outWires e) 28 g e.respond :=
  hv.path.moves tcp_places path_wired (by decide) (by decide) (by decide) (by decide) _
    (takes_hdr hv) (takes_data hv)

theorem inv_cycle (hv : Inv reqs s g) (hmask : UdpSystem.Keeps mask) :
    Inv reqs (s.cycle mask e) (s.path.left (s.inWires e) (s.outWires e) g) := by
  have hm := path_moves (e := e) hv
  refine ⟨hm.owes, ?_, ?_, ?_, ?_⟩
  · show (if s.inp.takesHdr (s.inWires e) then g.pkts.tail else g.pkts) = _
    rw [hv.pkts, map_tail_if]
    rfl
  · show (if s.inp.takesData (s.inWires e) then g.data.tail else g.data) = _
    rw [hv.data, map_tail_if]
    rfl
  · show (if s.out.givesHdr (s.outWires e) then s.hdrs ++ [s.dstHdr e] else s.hdrs) ++
      (if s.out.givesHdr (s.outWires e) then g.hdrs.tail else g.hdrs).map _ = _
    rw [← hv.hdrs]
    split_ifs with hg
    · obtain ⟨hst, hs, hhs⟩ := hm.hdr (Bool.and_eq_true_iff.mp hg).1
      have hst' : s.out.state ≠ .ready := hst
      have hdst : s.dstHdr e = tcpTxHdr s.out.hdr s.out.timestamp := by
        rw [dstHdr, OutputCtrl.hdrNext, OutputCtrl.timestampNext, if_neg fun h => hst' h.1,
          if_neg hst']
      simp [hhs, hdst, TcpTxSystem.path]
    · rfl
  · show (if s.out.gives (s.outWires e) then s.data ++ [(s.dstLine mask e).read] else s.data) ++
      (if s.out.gives (s.outWires e) then g.lines.tail else g.lines) = _
    rw [← hv.lines]
    split_ifs with hg
    · obtain ⟨ds, hds⟩ := hm.data hg
      have hread : (s.dstLine mask e).read = (s.out.dataOut (s.outWires e)).read := hmask ..
      simp [hds, hread, TcpTxSystem.path]
    · rfl

/-! ### Progress -/

/-- What the surroundings do in their own time. -/
inductive TcpTxEvent where
  | offerHdr | req | respond | hdrRdy | dataRdy
  deriving DecidableEq

/-- The event happens in this cycle. The unit takes a line that comes from the bus while it is on
it. -/
def Given (e : TcpTxEnv) : TcpTxEvent → Prop
  | .offerHdr => e.offerHdr = true
  | .req => e.reqRdy = true ∧ e.offerData = true
  | .respond => e.respond = true
  | .hdrRdy => e.hdrRdy = true
  | .dataRdy => e.dataRdy = true

/-- Every request has come out. -/
structure Delivered (reqs : List TcpRequest) (s : TcpTxSystem) : Prop where
  srcHdrs : s.srcHdrs = []
  srcData : s.srcData = []
  hdrs : s.hdrs = reqs.map TcpRequest.owed
  data : s.data = reqs.flatMap fun r => beats 64 r.segment

/-- The event lets something move. -/
def Awaits (s : TcpTxSystem) : TcpTxEvent → Prop
  | .offerHdr => s.inp.state = .ready ∧ s.srcHdrs ≠ []
  | .req => s.inp.state ≠ .ready
  | .respond => s.path.Awaiting
  | .hdrRdy => s.out.hdrState = .output
  | .dataRdy => s.path.HasLine

def moved (s : TcpTxSystem) (e : TcpTxEnv) : Nat :=
  s.path.moved (s.inWires e) (s.outWires e) e.respond

theorem work_le (hv : Inv reqs s g) : (s.cycle mask e).path.work
    (s.path.left (s.inWires e) (s.outWires e) g) + s.moved e ≤ s.path.work g := by
  apply (path_moves hv).work_le path_wired
  · intro h
    obtain ⟨q, ps, hq, -⟩ := takes_hdr hv h
    simp [hq]
  · intro h
    obtain ⟨d, ds, hd, -⟩ := takes_data hv h
    simp [hd]

/-- Where nothing moves, the same event is awaited. -/
theorem awaits_next (hv : Inv reqs s g) {k : TcpTxEvent} (ha : s.Awaits k) (hz : s.moved e = 0) :
    (s.cycle mask e).Awaits k := by
  have hstill : ChksumPath.Still s.path (s.cycle mask e).path :=
    ChksumPath.still hz hv.path.not_drain
  have hin : (s.cycle mask e).inp.state = s.inp.state := hstill.inp
  have hhdr : (s.cycle mask e).out.hdrState = s.out.hdrState := hstill.hdr
  cases k with
  | offerHdr =>
    have hkeep : (s.cycle mask e).srcHdrs = s.srcHdrs := by
      have hno : ¬ s.inp.takesHdr (s.inWires e) = true := by
        intro ht
        have hpos : 0 < s.moved e := ChksumPath.moved_pos (.inl ht)
        omega
      exact if_neg hno
    simpa [Awaits, hin, hkeep] using ha
  | req => simpa [Awaits, hin] using ha
  | respond => simpa [Awaits, ChksumPath.Awaiting, hstill.lines, hstill.valid] using ha
  | hdrRdy => simpa [Awaits, hhdr] using ha
  | dataRdy => simpa [Awaits, ChksumPath.HasLine, hstill.out, hstill.valid] using ha

/-- The unit takes a line. -/
theorem sends (hv : Inv reqs s g) (ha : s.Awaits .req) (hg : Given e .req) :
    (s.inp.sent (s.inWires e)).isSome = true := by
  obtain ⟨hq, ho⟩ : e.reqRdy = true ∧ e.offerData = true := hg
  cases hv.path.inp with
  | ready hst => exact absurd hst ha
  | dataInput rest hst hb hr hd =>
    have hst' : s.inp.state = .chksumDataInput := hst
    have hb' : s.chk.transferIn = true := hb
    have hne : s.srcData ≠ [] := by
      intro hnil
      rw [hv.data, hnil] at hd
      exact beats_ne_nil (by decide) hr (List.append_eq_nil_iff.mp hd.symm).1
    simp [InputCtrl.sent, InputCtrl.req, inWires, tcpTxInput, hst', hb', hq, ho, hne]
  | dataLast hst hb =>
    have hst' : s.inp.state = .chksumDataLast := hst
    have hb' : s.chk.transferIn = true := hb
    simp [InputCtrl.sent, InputCtrl.req, inWires, tcpTxInput, hst', hb', hq]

/-- The unit takes a command while the input controller waits for a header. -/
theorem idle (hv : Inv reqs s g) (hs : s.inp.state = .ready) : s.chk.cmdRdy = true := by
  cases hv.path.inp with
  | ready hst hb =>
    have hb' : s.chk.transferIn = false := hb
    simp [ChksumUnit.cmdRdy, hb']
  | dataInput rest hst => cases hs.symm.trans hst
  | dataLast hst => cases hs.symm.trans hst

/-- An event that is awaited lets something move. -/
theorem moves (hv : Inv reqs s g) {k : TcpTxEvent} (ha : s.Awaits k) (hg : Given e k) :
    0 < s.moved e := by
  apply ChksumPath.moved_pos
  cases k with
  | offerHdr =>
    obtain ⟨hst, hne⟩ := ha
    have ho : e.offerHdr = true := hg
    have ht : s.path.inp.takesHdr (s.inWires e) = true := by
      simp [InputCtrl.takesHdr, InputCtrl.hdrRdy, path, inWires, tcpTxInput, hst, ho, hne,
        idle hv hst]
    simp [ht]
  | req =>
    have ht : (s.path.inp.sent (s.inWires e)).isSome = true := sends hv ha hg
    exact .inr (.inl ht)
  | respond =>
    obtain ⟨hne, hval⟩ := ha
    have hr : e.respond = true := hg
    simp [hne, hval, hr]
  | hdrRdy =>
    have hs : s.out.hdrState = .output := ha
    have hr : e.hdrRdy = true := hg
    have ht : s.path.out.givesHdr (s.outWires e) = true := by
      simp [OutputCtrl.givesHdr, OutputCtrl.hdrVal, path, hs, outWires, hr]
    simp [ht]
  | dataRdy =>
    have hr : e.dataRdy = true := hg
    have hw : s.path.Wired (s.inWires e) (s.outWires e) := path_wired
    have hval := ChksumPath.HasLine.dataVal ha hw
    have ht : s.path.out.gives (s.outWires e) = true := Bool.and_eq_true_iff.mpr ⟨hval, hr⟩
    simp [ht]

/-- As long as something is missing, something moves or an event is awaited. -/
theorem goes_on (hv : Inv reqs s g) (hn : ¬ Delivered reqs s) :
    ∃ k, (∀ e, 0 < s.moved e) ∨ s.Awaits k := by
  rcases hv.path.waits with hs | ha | hstarved | hl | ⟨-, hs⟩
  · exact ⟨.req, .inl fun e => hs.moves path_wired _⟩
  · exact ⟨.respond, .inr ha⟩
  · by_cases hst : s.inp.state = .ready
    · by_cases hsrc : s.srcHdrs = []
      · obtain ⟨hd, hh, hl⟩ := hv.path.drained hstarved hst (by rw [hv.pkts, hsrc]; rfl) (by decide)
        rw [hv.data, List.map_eq_nil_iff] at hd
        refine absurd ⟨hsrc, hd, ?_, ?_⟩ hn
        · simpa [hh] using hv.hdrs
        · simpa [hl] using hv.lines
      · exact ⟨.offerHdr, .inr ⟨hst, hsrc⟩⟩
    · exact ⟨.req, .inr hst⟩
  · exact ⟨.dataRdy, .inr hl⟩
  · exact ⟨.hdrRdy, .inr hs⟩

/-! ### Whole runs -/

theorem inv_of_reach (hmask : UdpSystem.Keeps mask) (h : Reach (Init reqs) (step mask) Free s) :
    ∃ g, Inv reqs s g := by
  refine h.invariant (I := fun s => ∃ g, Inv reqs s g) (fun _ hi => ⟨_, inv_init hi⟩) ?_
  rintro s e s' ⟨g, hv⟩ - hstep
  cases hstep
  exact ⟨_, inv_cycle hv hmask⟩

/-- The system together with what is owed. -/
def nextOwed (mask : Line → BitVec 6 → Bool → Line) (x : TcpTxSystem × PathLists 32 12)
    (e : TcpTxEnv) : TcpTxSystem × PathLists 32 12 :=
  (x.1.cycle mask e, x.1.path.left (x.1.inWires e) (x.1.outWires e) x.2)

/-- If every event happens again and again, everything is given out. -/
theorem Inv.delivers (hv : Inv reqs s g) (hmask : UdpSystem.Keeps mask) {sched : Nat → TcpTxEnv}
    (hf : Fair Given sched) : ∃ n, Delivered reqs (exec (cycle mask) s sched n) := by
  have hmap : ∀ n, (exec (nextOwed mask) (s, g) sched n).1 = exec (cycle mask) s sched n :=
    exec_map (fun _ _ => rfl) _ sched
  have hreach : ∃ n, Delivered reqs (exec (nextOwed mask) (s, g) sched n).1 := by
    apply exec_reaches_moving (I := fun x : TcpTxSystem × PathLists 32 12 => Inv reqs x.1 x.2)
      (G := fun x => Delivered reqs x.1) (fun x => x.1.path.work x.2) (fun x e => x.1.moved e)
      (fun x k => x.1.Awaits k) ?_ ?_ ?_ ?_ ?_ hv hf
    · intro x e hx
      exact inv_cycle hx hmask
    · intro x e hx
      exact work_le hx
    · intro x hx hn
      exact goes_on hx hn
    · intro x e k hx ha hg
      exact moves hx ha hg
    · intro x e k hx ha hz
      exact awaits_next hx ha hz
  obtain ⟨n, hn⟩ := hreach
  exact ⟨n, hmap n ▸ hn⟩

end TcpTxSystem

/-- For all requests and schedules the path gives out one header for each request, with its own
addresses and length, and the segments with the checksum filled in, in order. If every event happens
again and again it gives out all of them. -/
theorem tcp_tx_path_intact {mask : Line → BitVec 6 → Bool → Line} (hmask : UdpSystem.Keeps mask)
    (reqs : List TcpRequest) {s : TcpTxSystem}
    (h : Reach (TcpTxSystem.Init reqs) (TcpTxSystem.step mask) Free s) :
    (s.hdrs <+: reqs.map TcpRequest.owed ∧ s.data <+: reqs.flatMap fun r => beats 64 r.segment) ∧
      ∀ sched, Fair TcpTxSystem.Given sched →
        ∃ n, TcpTxSystem.Delivered reqs (exec (TcpTxSystem.cycle mask) s sched n) := by
  obtain ⟨g, hv⟩ := TcpTxSystem.inv_of_reach hmask h
  exact ⟨⟨⟨_, hv.hdrs⟩, ⟨_, hv.lines⟩⟩, fun sched hf => hv.delivers hmask hf⟩

/-! ### Fixed requests -/

/-- A segment without payload. -/
def ackRequest : TcpRequest where
  hdr := ⟨1, 2, 0, 6, { (default : TcpPktHdr) with ackNum := 7, rawDataOffset := 5, flags := tcpAck }⟩
  payload := []
  lines := []
  len := by decide
  fits := by decide
  carried := emptyRequest.carried

/-- 50 bytes of payload, which do not fit in one line with the headers. -/
def pushRequest : TcpRequest where
  hdr := ⟨1, 2, 50, 7, { (default : TcpPktHdr) with seqNum := 9, rawDataOffset := 5, flags := tcpPsh }⟩
  payload := (lineBytes (BitVec.ofNat (8 * 64) (0x1234 * 2 ^ 400))).take 50
  lines := [⟨BitVec.ofNat 512 (0x1234 * 2 ^ 400), 14, true⟩]
  len := by decide +kernel
  fits := by decide +kernel
  carried := spillRequest.carried

namespace TcpTxSystem

def reset (reqs : List TcpRequest) : TcpTxSystem where
  inp := ⟨.ready, 0, 0, 0⟩
  chk := ⟨false, default, [], [], false⟩
  out := ⟨.ready, .waiting, 0, 0, 0, 0⟩
  srcHdrs := reqs
  srcData := reqs.flatMap TcpRequest.lines
  hdrs := []
  data := []

theorem init_reset (reqs : List TcpRequest) : Init reqs (reset reqs) :=
  ⟨rfl, ⟨rfl, rfl, rfl, rfl⟩, ⟨rfl, rfl⟩, ⟨rfl, rfl⟩, ⟨rfl, rfl⟩⟩

end TcpTxSystem

/-- Everything happens in every cycle. -/
def TcpTxEnv.calm : TcpTxEnv where
  offerHdr := true
  offerData := true
  reqRdy := true
  respond := true
  hdrRdy := true
  dataRdy := true
  hdrBus := default
  lineBus := default
  respBus := default

/-- The two requests have come out after some cycles: 20 bytes in one line, and 70 bytes in two. -/
theorem tcp_tx_path_intact_two :
    ∃ s, Reach (TcpTxSystem.Init [ackRequest, pushRequest]) (TcpTxSystem.step clearPadding) Free s ∧
      s.hdrs.map TcpIpHdr.tcpLen = [20, 70] ∧
      s.data.map (fun b => (b.last, b.padbytes)) = [(true, 44), (false, 0), (true, 58)] ∧
      (∃ n, TcpTxSystem.Delivered [ackRequest, pushRequest]
        (exec (TcpTxSystem.cycle clearPadding) s (fun _ => .calm) n)) := by
  have hs : ∃ s, Reach (TcpTxSystem.Init [ackRequest, pushRequest])
      (TcpTxSystem.step clearPadding) Free s ∧
        decide (s.hdrs.map TcpIpHdr.tcpLen = [20, 70] ∧
          s.data.map (fun b => (b.last, b.padbytes)) = [(true, 44), (false, 0), (true, 58)]) =
            true :=
    Reach.exists_of_run (List.replicate 20 .calm) (TcpTxSystem.init_reset _) (by decide +kernel)
  obtain ⟨s, hs, hp⟩ := hs
  obtain ⟨hh, hd⟩ := of_decide_eq_true hp
  have hfair : Fair TcpTxSystem.Given fun _ => TcpTxEnv.calm :=
    fun k n => ⟨n, Nat.le_refl n, by cases k <;> simp [TcpTxSystem.Given, TcpTxEnv.calm]⟩
  exact ⟨s, hs, hh, hd, (tcp_tx_path_intact keeps_clearPadding _ hs).2 _ hfair⟩

end TcpHw
