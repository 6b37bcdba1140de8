import TcpHw.Frontend.RxTcpReceive
import TcpHw.Frontend.TcpTxPath

/-!
# TCP segments come back as they were sent

The transmit path and the receive path with a queue between them. The checksum that the transmit path
fills in is the one that the receive path looks for, so the headers and payloads of the requests come
out at the other end.
-/
namespace TcpHw

open Bytes Framing Trace

set_option autoImplicit false

/-! ### Segments of requests -/

namespace TcpRequest

variable (r : TcpRequest)

/-- What the receive path gives out for the request. -/
def returned : RxTcpHdr where
  srcIp := r.hdr.srcIp
  dstIp := r.hdr.dstIp
  tcpTotLen := BitVec.ofNat 16 (r.payload.length + 20)
  tcpHdr := r.bare

/-- The header of the segment on its way to the receive path. -/
def segHdr : RxSegHdr := ⟨r.owed.srcIp, r.owed.dstIp, r.owed.tcpLen⟩

/-- The header with a checksum. -/
theorem lineBytes_hdr (h : TcpPktHdr) (c : BitVec 16) :
    setPair (lineBytes h.bits ++ r.payload) 16 c =
      lineBytes { h with chksum := c }.bits ++ r.payload := by
  have hfront : (lineBytes h.front).length = 16 := length_lineBytes _
  have hset := setPair_append (lineBytes h.front) (lineBytes (n := 2) h.urgPointer ++ r.payload)
    (h.chksum.extractLsb' 8 8) (h.chksum.extractLsb' 0 8) c
  rw [hfront] at hset
  rw [h.lineBytes_bits, TcpPktHdr.lineBytes_bits { h with chksum := c }]
  simp only [List.append_assoc, List.cons_append, List.nil_append]
  exact hset

/-- The checksum field of the packet is zero before the unit. -/
theorem plain_field : r.plain.frame[2 * 14]? = some 0#8 ∧ r.plain.frame[2 * 14 + 1]? = some 0#8 := by
  have hpseudo : (lineBytes r.pseudo.bits).length = 12 := length_lineBytes _
  have hfront : (lineBytes r.bare.front).length = 16 := length_lineBytes _
  have hhdr : lineBytes r.hdr.bits = lineBytes r.pseudo.bits ++ lineBytes r.bare.bits :=
    lineBytes_append (m := 12) (n := 20) r.pseudo.bits r.bare.bits
  have hzero : r.bare.chksum = 0 := rfl
  have hplain : r.plain.frame = (lineBytes r.pseudo.bits ++ lineBytes r.bare.front) ++
      (0#8 :: 0#8 :: (lineBytes (n := 2) r.bare.urgPointer ++ r.payload)) := by
    show lineBytes r.hdr.bits ++ r.payload = _
    rw [hhdr, r.bare.lineBytes_bits, hzero]
    simp only [List.append_assoc, List.cons_append, List.nil_append]
    rfl
  rw [hplain]
  constructor
  · rw [List.getElem?_append_right (by simp)]
    simp [hpseudo, hfront]
  · rw [List.getElem?_append_right (by simp)]
    simp [hpseudo, hfront]

/-- The checksum that was filled in is the right one. -/
theorem onesChksum_summed : onesChksum r.summed.frame = 0 := by
  obtain ⟨h0, h1⟩ := r.plain_field
  rw [r.summed_frame]
  exact onesChksum_setPair r.plain.frame 14 h0 h1

end TcpRequest

/-- The segment of a request. -/
structure RxSegment.Carries (x : RxSegment) (r : TcpRequest) : Prop where
  hdr : x.hdr = r.segHdr
  bytes : x.bytes = r.segment

namespace RxSegment

variable {x : RxSegment} {r : TcpRequest}

theorem Carries.pkt_frame (h : x.Carries r) : x.pkt.frame = r.summed.frame := by
  have hpseudo : tcpPseudoHdr x.hdr.srcIp x.hdr.dstIp x.hdr.tcpLen = r.pseudo := by
    rw [h.hdr]
    show tcpPseudoHdr r.hdr.srcIp r.hdr.dstIp (BitVec.ofNat 16 (r.payload.length + 20)) = _
    rw [← r.pseudo_length]
    rfl
  show lineBytes (tcpPseudoHdr x.hdr.srcIp x.hdr.dstIp x.hdr.tcpLen).bits ++ x.bytes =
    lineBytes r.pseudo.bits ++ r.segment
  rw [hpseudo, h.bytes]

theorem Carries.chksum_eq (h : x.Carries r) : x.chksum = 0 := by
  rw [chksum, h.pkt_frame, r.onesChksum_summed]

theorem Carries.verifies (h : x.Carries r) : x.verifies = true := by
  rw [RxSegment.verifies, h.chksum_eq]
  rfl

theorem Carries.summed_eq (h : x.Carries r) :
    x.summed = lineBytes r.bare.bits ++ r.payload := by
  have hzero : ({ r.filled with chksum := 0 } : TcpPktHdr) = r.bare := rfl
  have hset := r.lineBytes_hdr r.filled 0
  rw [hzero] at hset
  rw [summed, h.bytes, h.chksum_eq, TcpRequest.segment, hset]

theorem Carries.tcpHdr_eq (h : x.Carries r) : x.tcpHdr = r.bare := by
  have hlen : (lineBytes r.bare.bits).length = 20 := length_lineBytes _
  have hbits : (lineOf 20 fun i => x.summed.getD i 0) = r.bare.bits := by
    apply lineBytes_inj
    rw [h.summed_eq, lineBytes_lineOf (by rw [List.length_append, hlen]; omega),
      List.take_left' hlen]
  rw [RxSegment.tcpHdr, hbits, TcpPktHdr.cast_bits]

theorem Carries.hdrLen_eq (h : x.Carries r) (hoff : r.hdr.tcpHdr.rawDataOffset = 5) :
    x.hdrLen = 20 := by
  rw [hdrLen, h.tcpHdr_eq]
  show 4 * r.hdr.tcpHdr.rawDataOffset.toNat = 20
  rw [hoff]
  rfl

theorem Carries.payload_eq (h : x.Carries r) (hoff : r.hdr.tcpHdr.rawDataOffset = 5) :
    x.payload = r.payload := by
  have hlen : (lineBytes r.bare.bits).length = 20 := length_lineBytes _
  rw [RxSegment.payload, h.hdrLen_eq hoff, h.summed_eq, List.drop_left' hlen]

theorem Carries.hdrOut_eq (h : x.Carries r) : x.hdrOut = r.returned := by
  rw [hdrOut, h.hdr, h.tcpHdr_eq]
  rfl

theorem Carries.framed (h : x.Carries r) (hoff : r.hdr.tcpHdr.rawDataOffset = 5) : x.Framed := by
  have hlen := r.length_segment
  have hfits := r.fits
  have htcp : x.hdr.tcpLen.toNat = r.payload.length + 20 := by
    rw [h.hdr]
    show (BitVec.ofNat 16 (r.payload.length + 20)).toNat = _
    rw [BitVec.toNat_ofNat, Nat.mod_eq_of_lt hfits]
  refine ⟨?_, ?_, fun _ => ?_⟩
  · rw [htcp, h.bytes, hlen, Nat.add_comm]
  · rw [h.bytes, hlen]
    omega
  · rw [h.hdrLen_eq hoff, h.bytes, hlen]
    omega

/-- Some segment carries the request. -/
theorem exists_lines (bs : List (BitVec 8)) :
    ∃ ls : List DataLine, ls.map DataLine.read = beats 64 bs := by
  generalize hl : bs.length = m
  induction m using Nat.strongRecOn generalizing bs with
  | _ m ih =>
    rcases Nat.eq_zero_or_pos bs.length with h0 | h0
    · rw [List.eq_nil_of_length_eq_zero h0, beats_nil]
      exact ⟨[], rfl⟩
    · by_cases hn : 64 < bs.length
      · obtain ⟨ls, hls⟩ := ih (bs.drop 64).length (by rw [List.length_drop]; omega) _ rfl
        obtain ⟨l, hl⟩ := AxisLine.exists_shows 0 false (show 0 < (bs.take 64).length by simp; omega)
          (by simp)
        have hbytes : (lineBytes l.data).take 64 = bs.take 64 := by
          have hb := hl.bytes
          have hfull : (bs.take 64).length = 64 := by simp; omega
          simpa [hfull] using hb
        rw [List.take_of_length_le (by simp)] at hbytes
        refine ⟨⟨l.data, 0, false⟩ :: ls, ?_⟩
        rw [List.map_cons, hls, beats_full (by decide) hn, DataLine.read, readBeat,
          if_neg (by simp), hbytes]
      · have hle := Nat.le_of_not_lt hn
        obtain ⟨l, hl⟩ := AxisLine.exists_shows 0 true h0 hle
        have hpad : (BitVec.ofNat 6 (64 - bs.length)).toNat = 64 - bs.length := by
          rw [BitVec.toNat_ofNat, Nat.mod_eq_of_lt (by omega)]
        have hk : 64 - (64 - bs.length) = bs.length := by omega
        refine ⟨[⟨l.data, BitVec.ofNat 6 (64 - bs.length), true⟩], ?_⟩
        rw [List.map_cons, List.map_nil, beats_last h0 hle, DataLine.read, readBeat, if_pos rfl]
        show [Beat.mk ((lineBytes l.data).take (64 - (BitVec.ofNat 6 (64 - bs.length)).toNat)) true
          (BitVec.ofNat 6 (64 - bs.length)).toNat] = _
        rw [hpad, hk, hl.last_bytes hle]

theorem exists_carries (reqs : List TcpRequest) :
    ∃ segs : List RxSegment, List.Forall₂ Carries segs reqs := by
  induction reqs with
  | nil => exact ⟨[], .nil⟩
  | cons r reqs ih =>
    obtain ⟨segs, hsegs⟩ := ih
    obtain ⟨ls, hls⟩ := exists_lines r.segment
    have hne : r.segment ≠ [] := List.ne_nil_of_length_pos (by rw [r.length_segment]; omega)
    exact ⟨⟨r.segHdr, r.segment, ls, hne, hls⟩ :: segs, .cons ⟨rfl, rfl⟩ hsegs⟩

/-- All segments of requests are passed on, with their headers and payloads. -/
theorem passed_carries {segs : List RxSegment} {reqs : List TcpRequest}
    (h : List.Forall₂ Carries segs reqs) (hoff : ∀ r ∈ reqs, r.hdr.tcpHdr.rawDataOffset = 5) :
    (∀ x ∈ segs, x.Framed) ∧ (passed segs).map hdrOut = reqs.map TcpRequest.returned ∧
      ((passed segs).flatMap fun x => beats 64 x.payload) =
        reqs.flatMap fun r => beats 64 r.payload := by
  induction h with
  | nil => exact ⟨by simp, rfl, rfl⟩
  | @cons x r segs reqs hx _ ih =>
    obtain ⟨hf, hh, hd⟩ := ih fun r hr => hoff r (List.mem_cons_of_mem _ hr)
    have hfive := hoff r (by simp)
    have hpass : passed (x :: segs) = x :: passed segs := by
      rw [passed_alone (by rw [hx.verifies]; rfl), hx.verifies]
      rfl
    rw [hpass]
    refine ⟨?_, ?_, ?_⟩
    · intro y hy
      rcases List.mem_cons.mp hy with rfl | hy
      · exact hx.framed hfive
      · exact hf y hy
    · rw [List.map_cons, hx.hdrOut_eq, hh, List.map_cons]
    · rw [List.flatMap_cons, hx.payload_eq hfive, hd, List.flatMap_cons]

end RxSegment

/-! ### The two paths -/

/-- What the surroundings of the two paths do in one cycle. -/
structure TcpLoopEnv where
  tx : TcpTxEnv
  rx : RxTcpEnv

/-- The headers and lines that the transmit path gives out wait in front of the receive path. -/
structure TcpLoop where
  tx : TcpTxSystem
  rx : RxTcpReceive

namespace TcpLoop

variable (mask : Line → BitVec 6 → Bool → Line) (s : TcpLoop) (e : TcpLoopEnv)

/-- The header that goes into the queue. -/
def linkHdrs : List RxSegHdr :=
  if s.tx.out.givesHdr (s.tx.outWires e.tx) then
    [⟨(s.tx.dstHdr e.tx).srcIp, (s.tx.dstHdr e.tx).dstIp, (s.tx.dstHdr e.tx).tcpLen⟩]
  else []

/-- The line that goes into the queue. -/
def linkLines : List DataLine :=
  if s.tx.out.gives (s.tx.outWires e.tx) then [s.tx.dstLine mask e.tx] else []

/-- One clock cycle. -/
def cycle : TcpLoop where
  tx := s.tx.cycle mask e.tx
  rx := s.rx.cycleWith e.rx (s.linkHdrs e) (s.linkLines mask e)

def step : Option TcpLoop := some (s.cycle mask e)

/-- No line is missing while the receiving engine is ready for it. -/
def NoBubble : Prop := s.rx.NoBubble e.rx

instance : Decidable (s.NoBubble e) := inferInstanceAs (Decidable (s.rx.NoBubble e.rx))

/-- After reset, with the requests to come. -/
structure Init (reqs : List TcpRequest) (s : TcpLoop) : Prop where
  tx : TcpTxSystem.Init reqs s.tx
  rx : s.rx.Fresh
  link : s.rx.srcHdrs = [] ∧ s.rx.srcData = []

/-- Every request has come back. -/
structure Delivered (reqs : List TcpRequest) (s : TcpLoop) : Prop where
  tx : TcpTxSystem.Delivered reqs s.tx
  link : s.rx.srcHdrs = [] ∧ s.rx.srcData = []
  hdrs : s.rx.hdrs = reqs.map TcpRequest.returned
  data : s.rx.data = reqs.flatMap fun r => beats 64 r.payload

variable {mask : Line → BitVec 6 → Bool → Line} {s : TcpLoop} {e : TcpLoopEnv}
  {reqs : List TcpRequest} {segs : List RxSegment} {g : PathLists 32 12} {l : RxTcpLists}

/-- A header on the transmit port, as the receive path sees it. -/
def seen (h : BitVec (8 * 12) × Timestamp) : RxSegHdr :=
  ⟨(tcpTxHdr h.1 h.2).srcIp, (tcpTxHdr h.1 h.2).dstIp, (tcpTxHdr h.1 h.2).tcpLen⟩

/-- What the transmit path owes has not come to the receive path yet. -/
structure Inv (reqs : List TcpRequest) (segs : List RxSegment) (s : TcpLoop) (g : PathLists 32 12)
    (l : RxTcpLists) : Prop where
  tx : TcpTxSystem.Inv reqs s.tx g
  rx : RxTcpReceive.Inv segs (g.hdrs.map seen) g.lines s.rx l

theorem inv_init (hsegs : List.Forall₂ RxSegment.Carries segs reqs) (hx : ∀ x ∈ segs, x.Framed)
    (hi : Init reqs s) : Inv reqs segs s (TcpTxSystem.owedInit reqs) (RxTcpWrap.resetLists segs) := by
  refine ⟨TcpTxSystem.inv_init hi.tx, RxTcpReceive.inv_fresh hx hi.rx ?_ ?_⟩
  · rw [hi.link.1, List.nil_append]
    show segs.map RxSegment.hdr = (reqs.map fun r => r.summed.head).map seen
    rw [List.map_map]
    clear hx hi
    induction hsegs with
    | nil => rfl
    | @cons x r segs reqs hx _ ih =>
      have hseen : seen r.summed.head = r.segHdr := by
        have howed := r.txHdr_summed
        rw [seen, ChkPkt.head, howed]
        rfl
      rw [List.map_cons, List.map_cons, ih, hx.hdr, Function.comp_apply, hseen]
  · rw [hi.link.2, List.map_nil, List.nil_append]
    show _ = reqs.flatMap fun r => beats 64 r.segment
    clear hx hi
    induction hsegs with
    | nil => rfl
    | cons hx _ ih => rw [List.flatMap_cons, List.flatMap_cons, ih, hx.bytes]

/-- What goes into the queue is what the transmit path owed. -/
theorem link_owed (hv : TcpTxSystem.Inv reqs s.tx g) (hmask : UdpSystem.Keeps mask) :
    g.hdrs.map seen = s.linkHdrs e ++
        (s.tx.path.left (s.tx.inWires e.tx) (s.tx.outWires e.tx) g).hdrs.map seen ∧
      g.lines = (s.linkLines mask e).map DataLine.read ++
        (s.tx.path.left (s.tx.inWires e.tx) (s.tx.outWires e.tx) g).lines := by
  have hm := TcpTxSystem.path_moves (e := e.tx) hv
  constructor
  · show _ = (if s.tx.out.givesHdr (s.tx.outWires e.tx) then _ else []) ++
      (if s.tx.out.givesHdr (s.tx.outWires e.tx) then g.hdrs.tail else g.hdrs).map seen
    split_ifs with hg
    · obtain ⟨hst, hs, hhs⟩ := hm.hdr (Bool.and_eq_true_iff.mp hg).1
      have hst' : s.tx.out.state ≠ .ready := hst
      have hdst : s.tx.dstHdr e.tx = tcpTxHdr s.tx.out.hdr s.tx.out.timestamp := by
        rw [TcpTxSystem.dstHdr, OutputCtrl.hdrNext, OutputCtrl.timestampNext,
          if_neg fun h => hst' h.1, if_neg hst']
      rw [hhs, hdst]
      rfl
    · rfl
  · show _ = (if s.tx.out.gives (s.tx.outWires e.tx) then _ else []).map DataLine.read ++
      (if s.tx.out.gives (s.tx.outWires e.tx) then g.lines.tail else g.lines)
    split_ifs with hg
    · obtain ⟨ds, hds⟩ := hm.data hg
      have hread : (s.tx.dstLine mask e.tx).read = (s.tx.out.dataOut (s.tx.outWires e.tx)).read :=
        hmask ..
      rw [hds, List.map_cons, hread]
      rfl
    · rfl

theorem inv_cycle (hv : Inv reqs segs s g l) (hmask : UdpSystem.Keeps mask)
    (hx : ∀ x ∈ segs, x.Framed) (hb : s.NoBubble e) : Inv reqs segs (s.cycle mask e)
      (s.tx.path.left (s.tx.inWires e.tx) (s.tx.outWires e.tx) g)
      (s.rx.wrap.left (s.rx.inWires e.rx) (s.rx.outWires e.rx) l) := by
  obtain ⟨hh, hd⟩ := link_owed (e := e) hv.tx hmask
  have hrx := hv.rx
  rw [hh, hd] at hrx
  exact ⟨TcpTxSystem.inv_cycle hv.tx hmask, RxTcpReceive.inv_cycle hrx hx hb⟩

/-! ### Progress -/

/-- What the surroundings of one of the paths do in their own time. -/
abbrev TcpLoopEvent := TcpTxSystem.TcpTxEvent ⊕ RxTcpReceive.RxTcpEvent

def Given (e : TcpLoopEnv) : TcpLoopEvent → Prop
  | .inl k => TcpTxSystem.Given e.tx k
  | .inr k => RxTcpReceive.Given e.rx k

def Awaits (s : TcpLoop) : TcpLoopEvent → Prop
  | .inl k => s.tx.Awaits k
  | .inr k => s.rx.Awaits k

def moved (s : TcpLoop) (e : TcpLoopEnv) : Nat := s.tx.moved e.tx + s.rx.moved e.rx

def work (segs : List RxSegment) (s : TcpLoop) (g : PathLists 32 12) (l : RxTcpLists) : Nat :=
  s.tx.path.work g + RxTcpWrap.work segs s.rx.wrap l

/-- A receive path that is starved while nothing is to come has given out everything. -/
theorem goes_on (hv : Inv reqs segs s g l) (hx : ∀ x ∈ segs, x.Framed)
    (hpass : (RxSegment.passed segs).map RxSegment.hdrOut = reqs.map TcpRequest.returned ∧
      ((RxSegment.passed segs).flatMap fun x => beats 64 x.payload) =
        reqs.flatMap fun r => beats 64 r.payload)
    (hn : ¬ Delivered reqs s) : ∃ k, (∀ e, 0 < s.moved e) ∨ s.Awaits k := by
  by_cases htx : TcpTxSystem.Delivered reqs s.tx
  · rcases RxTcpReceive.goes_on hv.rx with ⟨k, hall | ha⟩ | ⟨hstarved, hst⟩
    · exact ⟨.inr k, .inl fun e => Nat.add_pos_right _ (hall e.rx)⟩
    · exact ⟨.inr k, .inr ha⟩
    · have hh : g.hdrs = [] := by simpa [htx.hdrs] using hv.tx.hdrs
      have hl : g.lines = [] := by simpa [htx.data] using hv.tx.lines
      have hrx := hv.rx
      rw [hh, hl] at hrx
      have hd := RxTcpReceive.drained hrx hx hstarved hst
      exact absurd ⟨htx, ⟨hd.srcHdrs, hd.srcData⟩, hd.hdrs.trans hpass.1, hd.data.trans hpass.2⟩ hn
  · obtain ⟨k, hall | ha⟩ := TcpTxSystem.goes_on hv.tx htx
    · exact ⟨.inl k, .inl fun e => Nat.add_pos_left (hall e.tx) _⟩
    · exact ⟨.inl k, .inr ha⟩

theorem work_le (hv : Inv reqs segs s g l) (hx : ∀ x ∈ segs, x.Framed) (hb : s.NoBubble e) :
    work segs (s.cycle mask e) (s.tx.path.left (s.tx.inWires e.tx) (s.tx.outWires e.tx) g)
        (s.rx.wrap.left (s.rx.inWires e.rx) (s.rx.outWires e.rx) l) + s.moved e ≤
      work segs s g l := by
  have htx : (s.tx.cycle mask e.tx).path.work
      (s.tx.path.left (s.tx.inWires e.tx) (s.tx.outWires e.tx) g) + s.tx.moved e.tx ≤
        s.tx.path.work g := TcpTxSystem.work_le hv.tx
  have hrx := RxTcpReceive.work_le hv.rx hx hb
  simp only [work, moved]
  show (s.tx.cycle mask e.tx).path.work _ + RxTcpWrap.work segs (s.rx.wrap.next _ _ _) _ + _ ≤ _
  omega

/-! ### Whole runs -/

/-- The two paths together with what is owed. -/
def nextOwed (mask : Line → BitVec 6 → Bool → Line) (x : TcpLoop × PathLists 32 12 × RxTcpLists)
    (e : TcpLoopEnv) : TcpLoop × PathLists 32 12 × RxTcpLists :=
  (x.1.cycle mask e, x.1.tx.path.left (x.1.tx.inWires e.tx) (x.1.tx.outWires e.tx) x.2.1,
    x.1.rx.wrap.left (x.1.rx.inWires e.rx) (x.1.rx.outWires e.rx) x.2.2)

/-- If every event happens again and again, every request comes back. -/
theorem Inv.delivers (hv : Inv reqs segs s g l) (hmask : UdpSystem.Keeps mask)
    (hx : ∀ x ∈ segs, x.Framed)
    (hpass : (RxSegment.passed segs).map RxSegment.hdrOut = reqs.map TcpRequest.returned ∧
      ((RxSegment.passed segs).flatMap fun x => beats 64 x.payload) =
        reqs.flatMap fun r => beats 64 r.payload)
    {sched : Nat → TcpLoopEnv} (hok : ∀ n, NoBubble (exec (cycle mask) s sched n) (sched n))
    (hf : Fair Given sched) : ∃ n, Delivered reqs (exec (cycle mask) s sched n) := by
  have hmap : ∀ n, (exec (nextOwed mask) (s, g, l) sched n).1 = exec (cycle mask) s sched n :=
    exec_map (fun _ _ => rfl) _ sched
  have hok' : ∀ n, (exec (nextOwed mask) (s, g, l) sched n).1.NoBubble (sched n) := fun n => by
    rw [hmap n]
    exact hok n
  have hreach : ∃ n, Delivered reqs (exec (nextOwed mask) (s, g, l) sched n).1 := by
    apply exec_reaches_moving_of
      (I := fun x : TcpLoop × PathLists 32 12 × RxTcpLists => Inv reqs segs x.1 x.2.1 x.2.2)
      (G := fun x => Delivered reqs x.1) (fun x e => x.1.NoBubble e)
      (fun x => work segs x.1 x.2.1 x.2.2) (fun x e => x.1.moved e) (fun x k => x.1.Awaits k)
      ?_ ?_ ?_ ?_ ?_ hv hok' hf
    · intro x e hi hb
      exact inv_cycle hi hmask hx hb
    · intro x e hi hb
      exact work_le hi hx hb
    · intro x hi hn
      exact goes_on hi hx hpass hn
    · rintro x e (k | k) hi _ ha hg
      · exact Nat.add_pos_left (TcpTxSystem.moves hi.tx ha hg) _
      · exact Nat.add_pos_right _ (RxTcpReceive.moves hi.rx ha hg)
    · rintro x e (k | k) hi _ ha hz
      · exact TcpTxSystem.awaits_next hi.tx ha (Nat.add_eq_zero_iff.mp hz).1
      · exact RxTcpReceive.awaits_next ha (Nat.add_eq_zero_iff.mp hz).2
  obtain ⟨n, hn⟩ := hreach
  exact ⟨n, hmap n ▸ hn⟩

end TcpLoop

/-- For all requests with a header of 20 bytes and all schedules without a bubble, the receive path
gives out the addresses, headers and payloads of the requests in order and nothing else. If every
event happens again and again it gives out all of them. -/
theorem tcp_round_trip {mask : Line → BitVec 6 → Bool → Line} (hmask : UdpSystem.Keeps mask)
    (reqs : List TcpRequest) (hoff : ∀ r ∈ reqs, r.hdr.tcpHdr.rawDataOffset = 5) {s : TcpLoop}
    (h : Reach (TcpLoop.Init reqs) (TcpLoop.step mask) TcpLoop.NoBubble s) :
    (s.rx.hdrs <+: reqs.map TcpRequest.returned ∧
        s.rx.data <+: reqs.flatMap fun r => beats 64 r.payload) ∧
      ∀ sched, (∀ n, TcpLoop.NoBubble (exec (TcpLoop.cycle mask) s sched n) (sched n)) →
        Fair TcpLoop.Given sched →
          ∃ n, TcpLoop.Delivered reqs (exec (TcpLoop.cycle mask) s sched n) := by
  obtain ⟨segs, hsegs⟩ := RxSegment.exists_carries reqs
  obtain ⟨hx, hpass⟩ := RxSegment.passed_carries hsegs hoff
  have hinv : ∃ g l, TcpLoop.Inv reqs segs s g l := by
    refine h.invariant (I := fun s => ∃ g l, TcpLoop.Inv reqs segs s g l)
      (fun _ hi => ⟨_, _, TcpLoop.inv_init hsegs hx hi⟩) ?_
    rintro s e s' ⟨g, l, hv⟩ hok hstep
    cases hstep
    exact ⟨_, _, TcpLoop.inv_cycle hv hmask hx hok⟩
  obtain ⟨g, l, hv⟩ := hinv
  have hgiven := hv.rx.given_prefix hx
  rw [hpass.1, hpass.2] at hgiven
  exact ⟨hgiven, fun sched hok hf => hv.delivers hmask hx hpass hok hf⟩

/-! ### Fixed requests -/

namespace TcpLoop

def reset (reqs : List TcpRequest) : TcpLoop where
  tx := TcpTxSystem.reset reqs
  rx := RxTcpReceive.reset []

theorem init_reset (reqs : List TcpRequest) : Init reqs (reset reqs) :=
  ⟨TcpTxSystem.init_reset reqs, (RxTcpReceive.init_reset []).1, rfl, rfl⟩

end TcpLoop

/-- The receive path waits, or everything happens. -/
def TcpLoopEnv.waiting : TcpLoopEnv := ⟨.calm, { RxTcpEnv.calm with offerHdr := false }⟩

def TcpLoopEnv.calm : TcpLoopEnv := ⟨.calm, .calm⟩

/-- A segment without payload and one with 50 bytes come back. -/
theorem tcp_round_trip_two :
    ∃ s, Reach (TcpLoop.Init [ackRequest, pushRequest]) (TcpLoop.step clearPadding)
        TcpLoop.NoBubble s ∧
      s.rx.hdrs.map (fun h => (h.tcpTotLen, h.tcpHdr.seqNum, h.tcpHdr.ackNum)) =
        [(20, 0, 7), (70, 9, 0)] ∧
      s.rx.data = [⟨pushRequest.payload, true, 14⟩] ∧
      s.rx.hdrs <+: [ackRequest, pushRequest].map TcpRequest.returned := by
  have hs : ∃ s, Reach (TcpLoop.Init [ackRequest, pushRequest]) (TcpLoop.step clearPadding)
      TcpLoop.NoBubble s ∧
        decide (s.rx.hdrs.map (fun h => (h.tcpTotLen, h.tcpHdr.seqNum, h.tcpHdr.ackNum)) =
            [(20, 0, 7), (70, 9, 0)] ∧
          s.rx.data = [⟨pushRequest.payload, true, 14⟩]) = true :=
    Reach.exists_of_run (List.replicate 20 .waiting ++ List.replicate 20 .calm)
      (TcpLoop.init_reset _) (by decide +kernel)
  obtain ⟨s, hs, hp⟩ := hs
  obtain ⟨hh, hd⟩ := of_decide_eq_true hp
  exact ⟨s, hs, hh, hd, (tcp_round_trip keeps_clearPadding _ (by decide +kernel) hs).1.1⟩

end TcpHw
