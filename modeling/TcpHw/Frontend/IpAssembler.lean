import TcpHw.Frontend.ChksumInput

/-!
# `ip_hdr_assembler_pipe`

A request becomes an IP header that goes through a checksum unit of its own, while the lines of its
payload go through a FIFO. `ip_hdr_assembler_pipe_in` takes the next request once the header is with
the unit and the last line is in the FIFO. `ip_hdr_assembler_pipe_out` connects the unit and the
FIFO to the output ports.
-/
namespace TcpHw

open Bytes Framing

set_option autoImplicit false

/-! ### Headers -/

namespace IpPktHdr

def bits (h : IpPktHdr) : BitVec (8 * 20) :=
  h.ipVersion ++ h.ipHdrLen ++ h.tos ++ h.totLen ++ h.id ++ h.fragOffset ++ h.ttl ++ h.protocolNo ++
    h.chksum ++ h.sourceAddr ++ h.destAddr

def cast (x : BitVec (8 * 20)) : IpPktHdr where
  ipVersion := x.extractLsb' 156 4
  ipHdrLen := x.extractLsb' 152 4
  tos := x.extractLsb' 144 8
  totLen := x.extractLsb' 128 16
  id := x.extractLsb' 112 16
  fragOffset := x.extractLsb' 96 16
  ttl := x.extractLsb' 88 8
  protocolNo := x.extractLsb' 80 8
  chksum := x.extractLsb' 64 16
  sourceAddr := x.extractLsb' 32 32
  destAddr := x.extractLsb' 0 32

theorem cast_bits (h : IpPktHdr) : cast h.bits = h := by
  obtain ⟨v, l, t, n, i, f, tt, p, c, s, d⟩ := h
  simp only [cast, bits, mk.injEq]
  refine ⟨?_, ?_, ?_, ?_, ?_, ?_, ?_, ?_, ?_, ?_, ?_⟩ <;>
    · refine BitVec.eq_of_getLsbD_eq fun j hj => ?_
      simp only [BitVec.getLsbD_extractLsb', BitVec.getLsbD_append, hj]
      grind

end IpPktHdr

/-- The header on top of a line. -/
theorem ipHdrCast_eq (x : Line) :
    ipHdrCast x = IpPktHdr.cast (x.extractLsb' (8 * 44) (8 * 20)) := by
  simp only [ipHdrCast, IpPktHdr.cast, IpPktHdr.mk.injEq]
  refine ⟨?_, ?_, ?_, ?_, ?_, ?_, ?_, ?_, ?_, ?_, ?_⟩ <;>
    · refine BitVec.eq_of_getLsbD_eq fun j hj => ?_
      simp only [BitVec.getLsbD_extractLsb', hj]
      grind

/-! ### `ip_hdr_assembler_pipe_in` -/

/-- The request port. -/
structure IpReqHdr where
  srcIpAddr : BitVec 32
  dstIpAddr : BitVec 32
  dataPayloadLen : BitVec 16
  protocol : BitVec 8
  timestamp : Timestamp
  deriving DecidableEq, Inhabited

/-- `ip_hdr_next` while `store_ip_hdr` is high. -/
def IpReqHdr.ipHdr (h : IpReqHdr) : IpPktHdr where
  ipVersion := 4
  ipHdrLen := 5
  tos := 0
  totLen := 20 + h.dataPayloadLen
  id := 0
  fragOffset := 0x4000
  ttl := 64
  protocolNo := h.protocol
  chksum := 0
  sourceAddr := h.srcIpAddr
  destAddr := h.dstIpAddr

namespace HdrAssembler

/-- `chksum_state_e` -/
inductive ChksumState where
  | ready | ipHdrIn | waitData
  deriving DecidableEq, Inhabited

/-- `data_state_e` -/
inductive DataState where
  | waiting | dataOut
  deriving DecidableEq, Inhabited

end HdrAssembler

/-- The registers of `ip_hdr_assembler_pipe_in`. -/
structure HdrAssembler where
  chksumState : HdrAssembler.ChksumState
  dataState : HdrAssembler.DataState
  ipHdr : IpPktHdr
  timestamp : Timestamp

structure AssemblerWires where
  reqVal : Bool
  req : IpReqHdr
  dataVal : Bool
  line : DataLine
  cmdRdy : Bool
  reqRdy : Bool
  fifoFull : Bool

/-- `in_chksum_cmd_offset`: 12 bytes before the end of the line the checksum begins. -/
def ipChksumCmd : ChksumCmd where
  enable := true
  offset := 52

namespace HdrAssembler

variable (r : HdrAssembler) (i : AssemblerWires)

/-- `data_out`; the request is taken. -/
def dataOut : Bool := r.chksumState == .ready && i.reqVal && i.cmdRdy

/-- Lines are accepted, from the cycle of the request on. -/
def dataRdy : Bool := (r.dataState == .dataOut || r.dataOut i) && !i.fifoFull

/-- `in_data_fifo_wr_req` -/
def takesData : Bool := i.dataVal && r.dataRdy i

def dataNext : DataState :=
  if r.takesData i then (if i.line.last then .waiting else .dataOut)
  else if r.dataOut i then .dataOut else r.dataState

/-- The line for the checksum unit. -/
def req : Option AxisLine :=
  if r.chksumState = .ipHdrIn then
    some
      { data := fill r.ipHdr.bits (0 : Line)
        keep := BitVec.allOnes 64 <<< 44
        last := true
        user := r.timestamp }
  else none

/-- The line the unit takes. -/
def sent : Option AxisLine := if i.reqRdy then r.req else none

def chksumNext : ChksumState :=
  let finished : ChksumState := if r.dataNext i = .waiting then .ready else .waitData
  match r.chksumState with
  | .ready => if r.dataOut i then .ipHdrIn else .ready
  | .ipHdrIn => if i.reqRdy then finished else .ipHdrIn
  | .waitData => finished

/-- One clock edge. -/
def next : HdrAssembler where
  chksumState := r.chksumNext i
  dataState := r.dataNext i
  ipHdr := if r.chksumState = .ready then i.req.ipHdr else r.ipHdr
  timestamp := if r.chksumState = .ready then i.req.timestamp else r.timestamp

end HdrAssembler

/-! ### Requests -/

/-- The lines carry the bytes of a packet. -/
def Carries (ls : List DataLine) (bs : List (BitVec 8)) : Prop :=
  0 < bs.length ∧ ls.map DataLine.read = beats 64 bs

/-- The first line of a packet is the only one, or more follow. -/
theorem Carries.cons {l : DataLine} {t : List DataLine} {bs : List (BitVec 8)}
    (h : Carries (l :: t) bs) :
    (bs.length ≤ 64 ∧ t = [] ∧ l.last = true ∧ l.padbytes.toNat = 64 - bs.length ∧
        (lineBytes l.data).take bs.length = bs) ∨
      (64 < bs.length ∧ Carries t (bs.drop 64) ∧ l.last = false ∧ lineBytes l.data = bs.take 64) := by
  obtain ⟨h0, hl⟩ := h
  by_cases hn : 64 < bs.length
  · rw [beats_full (by decide) hn, List.map_cons, List.cons.injEq] at hl
    obtain ⟨hlast, hbytes⟩ := InputCtrl.read_full hl.1
    exact .inr ⟨hn, ⟨by rw [List.length_drop]; omega, hl.2⟩, hlast, hbytes⟩
  · have hle := Nat.le_of_not_lt hn
    rw [beats_last h0 hle, List.map_cons, List.cons.injEq, List.map_eq_nil_iff] at hl
    obtain ⟨hlast, hpad, hbytes⟩ := InputCtrl.read_last hl.1
    have hk : 64 - (64 - bs.length) = bs.length := by omega
    rw [hk] at hbytes
    exact .inl ⟨hle, hl.2, hlast, hpad, hbytes⟩

theorem Carries.ne_nil {ls : List DataLine} {bs : List (BitVec 8)} (h : Carries ls bs) :
    ls ≠ [] := by
  rintro rfl
  exact beats_ne_nil (by decide) h.1 h.2.symm

/-- A transmit request. The lengths a header can tell leave room for 65515 bytes. -/
structure IpRequest where
  hdr : IpReqHdr
  payload : List (BitVec 8)
  lines : List DataLine
  len : hdr.dataPayloadLen.toNat = payload.length
  fits : payload.length ≤ 65515
  carried : Carries lines payload

/-- What the unit is given for a request. -/
def IpRequest.toks (r : IpRequest) : List ChkTok :=
  frameToks r.hdr.timestamp (lineBytes r.hdr.ipHdr.bits)

/-! ### What the assembler owes -/

namespace HdrAssembler

variable {r : HdrAssembler} {i : AssemblerWires} {busy : Bool} {ps : List IpRequest}
  {ds : List DataLine} {ts : List ChkTok}

/-- The lines that are still to come of the packet in hand. -/
def Missing (d : DataState) (rem : List DataLine) : Prop :=
  d = .waiting ∧ rem = [] ∨ d = .dataOut ∧ ∃ bs, Carries rem bs

/-- The requests `ps` and the lines `ds` are still to come, and the lines `ts` are owed to the unit,
which is `busy` in a frame. -/
inductive Owes (r : HdrAssembler) (busy : Bool) (ps : List IpRequest) (ds : List DataLine)
    (ts : List ChkTok) : Prop
  | ready (hs : r.chksumState = .ready) (hm : r.dataState = .waiting) (hb : busy = false)
      (hd : ds = ps.flatMap IpRequest.lines) (ht : ts = ps.flatMap IpRequest.toks)
  | hdrIn (rem : List DataLine) (hs : r.chksumState = .ipHdrIn) (hm : Missing r.dataState rem)
      (hb : busy = true) (hd : ds = rem ++ ps.flatMap IpRequest.lines)
      (ht : ts = frameToks r.timestamp (lineBytes r.ipHdr.bits) ++ ps.flatMap IpRequest.toks)
  | waitData (rem : List DataLine) (hs : r.chksumState = .waitData) (hm : r.dataState = .dataOut)
      (hr : ∃ bs, Carries rem bs) (hb : busy = false)
      (hd : ds = rem ++ ps.flatMap IpRequest.lines) (ht : ts = ps.flatMap IpRequest.toks)

/-- One cycle of the assembler does this to what is to come and what is owed. -/
structure Moves (r : HdrAssembler) (i : AssemblerWires) (busy : Bool) (ps : List IpRequest)
    (ds : List DataLine) (ts : List ChkTok) : Prop where
  owes : Owes (r.next i) (r.dataOut i || (busy && !(r.sent i).any AxisLine.last))
    (if r.dataOut i then ps.tail else ps) (if r.takesData i then ds.tail else ds)
    (if (r.sent i).isSome then ts.tail else ts)
  sent : ∀ l ∈ r.sent i, ∃ t ts', ts = t :: ts' ∧ l.Shows t

/-- The lines of the packet in hand are accepted as they come. -/
theorem missing_next {rem : List DataLine} (hm : Missing r.dataState rem)
    (hs : r.dataOut i = false) (hd : ds = rem ++ ps.flatMap IpRequest.lines)
    (hread : r.takesData i = true → ∃ t, ds = i.line :: t) :
    ∃ rem', Missing (r.dataNext i) rem' ∧
      (if r.takesData i then ds.tail else ds) = rem' ++ ps.flatMap IpRequest.lines := by
  cases ht : r.takesData i with
  | false => exact ⟨rem, by simpa [dataNext, ht, hs] using hm, by simpa using hd⟩
  | true =>
    rcases hm with ⟨hw, -⟩ | ⟨-, bs, hc⟩
    · simp [takesData, dataRdy, hw, hs] at ht
    · obtain ⟨t, hdt⟩ := hread ht
      obtain ⟨l, tl, rfl⟩ := List.exists_cons_of_ne_nil hc.ne_nil
      rw [hd, List.cons_append, List.cons.injEq] at hdt
      refine ⟨tl, ?_, by simp [hd]⟩
      rcases hc.cons with ⟨-, htl, hlast, -⟩ | ⟨-, hc', hlast, -⟩
      · exact .inl ⟨by simp [dataNext, ht, ← hdt.1, hlast], htl⟩
      · exact .inr ⟨by simp [dataNext, ht, ← hdt.1, hlast], _, hc'⟩

/-- The header line shows the header. -/
theorem shows_hdr (h : IpPktHdr) (user : Timestamp) :
    AxisLine.Shows ⟨fill h.bits (0 : Line), BitVec.allOnes 64 <<< 44, true, user⟩
      (⟨lineBytes h.bits, true, 44⟩, user) := by
  have hlen : (lineBytes h.bits).length = 20 := length_lineBytes _
  have hpad : 44 < 64 := by decide
  refine ⟨hpad, rfl, rfl, ?_, rfl⟩
  show (lineBytes (fill h.bits (0 : Line))).take 20 = _
  rw [lineBytes_fill h.bits (0 : Line) (by decide), List.take_append_of_le_length (by omega),
    List.take_of_length_le (by omega)]

theorem toks_hdr (h : IpPktHdr) (user : Timestamp) :
    frameToks user (lineBytes h.bits) = [(⟨lineBytes h.bits, true, 44⟩, user)] := by
  have hlen : (lineBytes h.bits).length = 20 := length_lineBytes _
  rw [frameToks_last user (by omega) (by omega), hlen]

/-- The assembler waits for a request, or takes one with or without its first line. -/
theorem ready_moves (hs : r.chksumState = .ready) (hm : r.dataState = .waiting)
    (hd : ds = ps.flatMap IpRequest.lines) (ht : ts = ps.flatMap IpRequest.toks)
    (hreq : r.dataOut i = true → ∃ p ps', ps = p :: ps' ∧ i.req = p.hdr)
    (hread : r.takesData i = true → ∃ t, ds = i.line :: t) : Moves r i false ps ds ts := by
  have hsent : r.sent i = none := by simp [sent, req, hs]
  refine ⟨?_, by simp [hsent]⟩
  rw [hsent]
  cases ho : r.dataOut i with
  | false =>
    have htake : r.takesData i = false := by simp [takesData, dataRdy, hm, ho]
    rw [htake]
    refine .ready ?_ ?_ rfl (by simpa using hd) (by simpa using ht)
    · simp [next, chksumNext, hs, ho]
    · simp [next, dataNext, htake, ho, hm]
  | true =>
    obtain ⟨p, ps', rfl, hp⟩ := hreq ho
    have hregs : (r.next i).ipHdr = p.hdr.ipHdr ∧ (r.next i).timestamp = p.hdr.timestamp := by
      simp [next, hs, hp]
    obtain ⟨rem', hm', hd'⟩ : ∃ rem', Missing (r.dataNext i) rem' ∧
        (if r.takesData i then ds.tail else ds) = rem' ++ ps'.flatMap IpRequest.lines := by
      cases htake : r.takesData i with
      | false =>
        exact ⟨p.lines, .inr ⟨by simp [dataNext, htake, ho], _, p.carried⟩, by simp [hd]⟩
      | true =>
        obtain ⟨t, hdt⟩ := hread htake
        obtain ⟨l, tl, hl⟩ := List.exists_cons_of_ne_nil p.carried.ne_nil
        have hc := p.carried
        rw [hl] at hc
        rw [hd, List.flatMap_cons, hl, List.cons_append, List.cons.injEq] at hdt
        refine ⟨tl, ?_, by simp [hd, hl]⟩
        rcases hc.cons with ⟨-, htl, hlast, -⟩ | ⟨-, hc', hlast, -⟩
        · exact .inl ⟨by simp [dataNext, htake, ← hdt.1, hlast], htl⟩
        · exact .inr ⟨by simp [dataNext, htake, ← hdt.1, hlast], _, hc'⟩
    refine .hdrIn rem' ?_ hm' rfl hd' ?_
    · simp [next, chksumNext, hs, ho]
    · rw [hregs.1, hregs.2, ht]
      rfl

/-- The header goes to the unit. -/
theorem hdrIn_moves {rem : List DataLine} (hs : r.chksumState = .ipHdrIn)
    (hm : Missing r.dataState rem) (hd : ds = rem ++ ps.flatMap IpRequest.lines)
    (ht : ts = frameToks r.timestamp (lineBytes r.ipHdr.bits) ++ ps.flatMap IpRequest.toks)
    (hread : r.takesData i = true → ∃ t, ds = i.line :: t) : Moves r i true ps ds ts := by
  have ho : r.dataOut i = false := by simp [dataOut, hs]
  have hregs : (r.next i).ipHdr = r.ipHdr ∧ (r.next i).timestamp = r.timestamp := by
    simp [next, hs]
  obtain ⟨rem', hm', hd'⟩ := missing_next hm ho hd hread
  cases hq : i.reqRdy with
  | false =>
    have hsent : r.sent i = none := by simp [sent, hq]
    refine ⟨?_, by simp [hsent]⟩
    rw [hsent, ho]
    refine .hdrIn rem' ?_ hm' rfl hd' ?_
    · simp [next, chksumNext, hs, hq]
    · rw [hregs.1, hregs.2]
      exact ht
  | true =>
    have hsent : r.sent i = some ⟨fill r.ipHdr.bits (0 : Line), BitVec.allOnes 64 <<< 44, true,
        r.timestamp⟩ := by simp [sent, hq, req, hs]
    rw [toks_hdr, List.cons_append, List.nil_append] at ht
    refine ⟨?_, ?_⟩
    · rw [hsent, ho]
      rcases hm' with ⟨hw, hnil⟩ | ⟨hw, hc⟩
      · refine .ready ?_ hw rfl (by rw [hd', hnil]; rfl) (by simp [ht])
        simp [next, chksumNext, hs, hq, hw]
      · refine .waitData rem' ?_ hw hc rfl hd' (by simp [ht])
        simp [next, chksumNext, hs, hq, hw]
    · intro l hl
      rw [hsent, Option.mem_some_iff] at hl
      subst hl
      exact ⟨_, _, ht, shows_hdr _ _⟩

/-- The last lines of the packet are still to come. -/
theorem wait_moves {rem : List DataLine} (hs : r.chksumState = .waitData)
    (hm : r.dataState = .dataOut) (hr : ∃ bs, Carries rem bs)
    (hd : ds = rem ++ ps.flatMap IpRequest.lines) (ht : ts = ps.flatMap IpRequest.toks)
    (hread : r.takesData i = true → ∃ t, ds = i.line :: t) : Moves r i false ps ds ts := by
  have ho : r.dataOut i = false := by simp [dataOut, hs]
  have hsent : r.sent i = none := by simp [sent, req, hs]
  obtain ⟨rem', hm', hd'⟩ := missing_next (.inr ⟨hm, hr⟩) ho hd hread
  refine ⟨?_, by simp [hsent]⟩
  rw [hsent, ho]
  rcases hm' with ⟨hw, hnil⟩ | ⟨hw, hc⟩
  · refine .ready ?_ hw rfl (by rw [hd', hnil]; rfl) (by simpa using ht)
    simp [next, chksumNext, hs, hw]
  · refine .waitData rem' ?_ hw hc rfl hd' (by simpa using ht)
    simp [next, chksumNext, hs, hw]

/-- One cycle of the assembler. -/
theorem Owes.moves (ho : Owes r busy ps ds ts)
    (hreq : r.dataOut i = true → ∃ p ps', ps = p :: ps' ∧ i.req = p.hdr)
    (hread : r.takesData i = true → ∃ t, ds = i.line :: t) : Moves r i busy ps ds ts := by
  cases ho with
  | ready hs hm hb hd ht =>
    subst hb
    exact ready_moves hs hm hd ht hreq hread
  | hdrIn rem hs hm hb hd ht =>
    subst hb
    exact hdrIn_moves hs hm hd ht hread
  | waitData rem hs hm hr hb hd ht =>
    subst hb
    exact wait_moves hs hm hr hd ht hread

/-- Where nothing moves, the assembler stays in its states. -/
theorem Owes.still (ho : Owes r busy ps ds ts) (hreq : r.dataOut i = false)
    (htake : r.takesData i = false) (hsent : r.sent i = none) :
    (r.next i).chksumState = r.chksumState ∧ (r.next i).dataState = r.dataState := by
  have hdata : r.dataNext i = r.dataState := by simp [dataNext, htake, hreq]
  refine ⟨?_, hdata⟩
  cases ho with
  | ready hs => simp [next, chksumNext, hs, hreq]
  | hdrIn rem hs =>
    have hq : i.reqRdy = false := by
      cases hq : i.reqRdy with
      | false => rfl
      | true => simp [sent, hq, req, hs] at hsent
    simp [next, chksumNext, hs, hq]
  | waitData rem hs hm => simp [next, chksumNext, hs, hdata, hm]

/-- Lines of the packet in hand are missing while the data machine waits for them. -/
theorem Owes.missing (ho : Owes r busy ps ds ts) (hd : r.dataState = .dataOut) :
    ∃ rem, rem ≠ [] ∧ ds = rem ++ ps.flatMap IpRequest.lines := by
  cases ho with
  | ready hs hm =>
    rw [hd] at hm
    cases hm
  | hdrIn rem hs hm hb hds =>
    rcases hm with ⟨hw, -⟩ | ⟨-, bs, hc⟩
    · rw [hd] at hw
      cases hw
    · exact ⟨rem, hc.ne_nil, hds⟩
  | waitData rem hs hm hr hb hds =>
    obtain ⟨bs, hc⟩ := hr
    exact ⟨rem, hc.ne_nil, hds⟩

/-- No line of a packet in hand is missing while the data machine does not wait for one. -/
theorem Owes.whole (ho : Owes r busy ps ds ts) (hd : r.dataState = .waiting) :
    ds = ps.flatMap IpRequest.lines := by
  cases ho with
  | ready hs hm hb hds => exact hds
  | hdrIn rem hs hm hb hds =>
    rcases hm with ⟨-, hnil⟩ | ⟨hw, -⟩
    · simpa [hnil] using hds
    · rw [hd] at hw
      cases hw
  | waitData rem hs hm =>
    rw [hd] at hm
    cases hm

/-- Between two headers the unit is idle, and it is owed those of the requests to come. -/
theorem Owes.between (ho : Owes r busy ps ds ts) (hs : r.chksumState ≠ .ipHdrIn) :
    busy = false ∧ ts = ps.flatMap IpRequest.toks := by
  cases ho with
  | ready hs' hm hb hd ht => exact ⟨hb, ht⟩
  | hdrIn rem hs' => exact absurd hs' hs
  | waitData rem hs' hm hr hb hd ht => exact ⟨hb, ht⟩

end HdrAssembler

end TcpHw
