import TcpHw.Frontend.ChksumUnit

/-!
# Controllers in front of the checksum unit

An input controller puts a header of `h` bytes in front of the lines of a packet and gives them to
the checksum unit; every line carries over its last `h` bytes. The UDP and TCP controllers differ
in `h`, in the header, and in when a packet has no lines.
-/
namespace TcpHw

open Bytes Framing

set_option autoImplicit false

/-- One line of data with its marks. -/
structure DataLine where
  data : Line
  padbytes : BitVec 6
  last : Bool
  deriving DecidableEq, Inhabited

/-- The line as its receiver reads it. -/
def DataLine.read (l : DataLine) : Beat (BitVec 8) := readBeat l.data l.last l.padbytes

/-! ### Input controllers -/

/-- `state_e` of an input controller. -/
inductive InputState where
  | ready | chksumDataInput | chksumDataLast
  deriving DecidableEq, Inhabited

/-- The registers of an input controller. -/
structure InputCtrl (h : Nat) where
  state : InputState
  hold : BitVec (8 * h)
  padbytes : BitVec 6
  timestamp : Timestamp

/-- `hdr` are the bytes that go in front, and `hdrOnly` says that no lines follow. -/
structure InputWires (h : Nat) where
  hdrVal : Bool
  hdr : BitVec (8 * h)
  hdrOnly : Bool
  timestamp : Timestamp
  dataVal : Bool
  line : DataLine
  cmdRdy : Bool
  reqRdy : Bool

namespace InputCtrl

variable {h : Nat} (r : InputCtrl h) (i : InputWires h)

/-- The ready signal for headers. -/
def hdrRdy (cmdRdy : Bool) : Bool := r.state == .ready && cmdRdy

def takesHdr : Bool := i.hdrVal && r.hdrRdy i.cmdRdy

/-- The ready signal for lines. -/
def dataRdy (reqRdy : Bool) : Bool := r.state == .chksumDataInput && reqRdy

def takesData : Bool := i.dataVal && r.dataRdy i.reqRdy

/-- `padbytes < HOLD_BYTES` -/
def spills : Bool := decide (i.line.padbytes.toNat < h)

/-- `padbytes_output`, from the padding of a last line: `USE_BYTES` is added in six bits. -/
def keepShift (padbytes : BitVec 6) : BitVec 6 := padbytes + BitVec.ofNat 6 (64 - h)

/-- `req_tlast` and the mask in `CHKSUM_DATA_INPUT` -/
def endsInput : Bool := r.takesData i && i.line.last && !spills i

/-- The line for the checksum unit, if one is valid. -/
def req : Option AxisLine :=
  match r.state with
  | .ready => none
  | .chksumDataInput =>
    if i.dataVal then
      some
        { data := fill r.hold i.line.data
          keep :=
            if r.endsInput i then
              BitVec.allOnes 64 <<< (keepShift (h := h) i.line.padbytes).toNat
            else BitVec.allOnes 64
          last := r.endsInput i
          user := r.timestamp }
    else none
  | .chksumDataLast =>
    some
      { data := fill r.hold i.line.data
        keep := BitVec.allOnes 64 <<< (keepShift (h := h) r.padbytes).toNat
        last := true
        user := r.timestamp }

/-- The line the unit takes. -/
def sent : Option AxisLine := if i.reqRdy then r.req i else none

def stateNext : InputState :=
  match r.state with
  | .ready =>
    if r.takesHdr i then (if i.hdrOnly then .chksumDataLast else .chksumDataInput) else .ready
  | .chksumDataInput =>
    if r.takesData i && i.line.last then (if spills i then .chksumDataLast else .ready)
    else .chksumDataInput
  | .chksumDataLast => if i.reqRdy then .ready else .chksumDataLast

/-- One clock edge. -/
def next : InputCtrl h where
  state := r.stateNext i
  hold :=
    if r.takesHdr i then i.hdr
    else if r.takesData i && !r.endsInput i then i.line.data.setWidth (8 * h)
    else r.hold
  padbytes :=
    if r.takesHdr i && i.hdrOnly then 0
    else if r.takesData i && i.line.last && spills i then i.line.padbytes
    else r.padbytes
  timestamp := if r.state = .ready then i.timestamp else r.timestamp

end InputCtrl

/-! ### Packets -/

/-- A packet as the checksum unit sees it: a header of `n` bytes, the bytes after it, and the
timestamp that travels along. -/
structure ChkPkt (n : Nat) where
  hdr : BitVec (8 * n)
  body : List (BitVec 8)
  timestamp : Timestamp

namespace ChkPkt

variable {n : Nat}

def frame (p : ChkPkt n) : List (BitVec 8) := lineBytes p.hdr ++ p.body

def toks (p : ChkPkt n) : List ChkTok := frameToks p.timestamp p.frame

/-- What travels on a header port. -/
def head (p : ChkPkt n) : BitVec (8 * n) × Timestamp := (p.hdr, p.timestamp)

def lines (p : ChkPkt n) : List (Beat (BitVec 8)) := beats 64 p.body

end ChkPkt

namespace InputCtrl

variable {h : Nat} {r : InputCtrl h} {i : InputWires h} {busy : Bool} {ps : List (ChkPkt h)}
  {ds : List (Beat (BitVec 8))} {ts : List ChkTok}

/-- The packets `ps` and the lines `ds` are still to come, and the lines `ts` are owed to the unit,
which is `busy` in a frame. -/
inductive Owes (r : InputCtrl h) (busy : Bool) (ps : List (ChkPkt h)) (ds : List (Beat (BitVec 8)))
    (ts : List ChkTok) : Prop
  | ready (hs : r.state = .ready) (hb : busy = false) (hd : ds = ps.flatMap ChkPkt.lines)
      (ht : ts = ps.flatMap ChkPkt.toks)
  | dataInput (rest : List (BitVec 8)) (hs : r.state = .chksumDataInput) (hb : busy = true)
      (hr : 0 < rest.length) (hd : ds = beats 64 rest ++ ps.flatMap ChkPkt.lines)
      (ht : ts = frameToks r.timestamp (lineBytes r.hold ++ rest) ++ ps.flatMap ChkPkt.toks)
  | dataLast (hs : r.state = .chksumDataLast) (hb : busy = true) (hp : r.padbytes.toNat < h)
      (hd : ds = ps.flatMap ChkPkt.lines)
      (ht : ts = frameToks r.timestamp ((lineBytes r.hold).take (h - r.padbytes.toNat)) ++
        ps.flatMap ChkPkt.toks)

/-- A line as its receiver reads it. -/
theorem read_last {l : DataLine} {bs : List (BitVec 8)} {pad : Nat} (h : l.read = ⟨bs, true, pad⟩) :
    l.last = true ∧ l.padbytes.toNat = pad ∧ (lineBytes l.data).take (64 - pad) = bs := by
  unfold DataLine.read readBeat at h
  split_ifs at h with hl
  · simp only [Beat.mk.injEq, true_and] at h
    refine ⟨hl, h.2, ?_⟩
    rw [← h.2]
    exact h.1
  · simp at h

theorem read_full {l : DataLine} {bs : List (BitVec 8)} {pad : Nat} (h : l.read = ⟨bs, false, pad⟩) :
    l.last = false ∧ lineBytes l.data = bs := by
  unfold DataLine.read readBeat at h
  split_ifs at h with hl
  · simp at h
  · simp only [Beat.mk.injEq, true_and] at h
    exact ⟨by simpa using hl, h.1⟩

/-- The bytes that are held and as many of the next line as fit. -/
theorem take_fill {x : Line} {k : Nat} (hold : BitVec (8 * h)) (hh : h ≤ 64) (hk : k ≤ 64) :
    (lineBytes (fill hold x)).take k =
      (lineBytes hold).take k ++ (lineBytes x).take (k - h) := by
  rw [lineBytes_fill hold x hh, List.take_append, length_lineBytes, List.take_take,
    Nat.min_eq_left (by omega)]

/-- One cycle of an input controller does this to what is to come and what is owed. -/
structure Moves (r : InputCtrl h) (i : InputWires h) (busy : Bool) (ps : List (ChkPkt h))
    (ds : List (Beat (BitVec 8))) (ts : List ChkTok) : Prop where
  owes : Owes (r.next i) (r.takesHdr i || (busy && !(r.sent i).any AxisLine.last))
    (if r.takesHdr i then ps.tail else ps) (if r.takesData i then ds.tail else ds)
    (if (r.sent i).isSome then ts.tail else ts)
  sent : ∀ l ∈ r.sent i, ∃ t ts', ts = t :: ts' ∧ l.Shows t

theorem ready_moves (hs : r.state = .ready) (hd : ds = ps.flatMap ChkPkt.lines)
    (ht : ts = ps.flatMap ChkPkt.toks)
    (hhdr : r.takesHdr i = true → ∃ p ps', ps = p :: ps' ∧ i.hdr = p.hdr ∧
      i.timestamp = p.timestamp ∧ (i.hdrOnly = true ↔ p.body = [])) (h0 : 0 < h) :
    Moves r i false ps ds ts := by
  have hsent : r.sent i = none := by simp [sent, req, hs]
  have hdata : r.takesData i = false := by simp [takesData, dataRdy, hs]
  refine ⟨?_, by simp [hsent]⟩
  rw [hsent, hdata]
  cases hh : r.takesHdr i with
  | false =>
    refine .ready ?_ rfl (by simpa using hd) (by simpa using ht)
    simp [next, stateNext, hs, hh]
  | true =>
    obtain ⟨p, ps', rfl, hhdr, htime, honly⟩ := hhdr hh
    have hhold : (r.next i).hold = p.hdr := by simp [next, hh, hhdr]
    have htime' : (r.next i).timestamp = p.timestamp := by simp [next, hs, htime]
    subst hd ht
    cases ho : i.hdrOnly with
    | true =>
      have hbody := honly.mp ho
      have hpad : (r.next i).padbytes = 0 := by simp [next, hh, ho]
      refine .dataLast (by simp [next, stateNext, hs, hh, ho]) rfl (by rw [hpad]; exact h0) ?_ ?_
      · simp [ChkPkt.lines, hbody]
      · have hlen : (lineBytes p.hdr).length = h := length_lineBytes _
        simp [ChkPkt.toks, ChkPkt.frame, hbody, hhold, htime', hpad, List.take_of_length_le,
          hlen]
    | false =>
      have hbody : 0 < p.body.length := by
        refine List.length_pos_of_ne_nil fun hnil => ?_
        rw [honly.mpr hnil] at ho
        cases ho
      refine .dataInput p.body (by simp [next, stateNext, hs, hh, ho]) rfl hbody ?_ ?_
      · simp [ChkPkt.lines]
      · simp [ChkPkt.toks, ChkPkt.frame, hhold, htime']

/-- The last line of the packet goes to the unit. -/
theorem last_moves (hs : r.state = .chksumDataLast) (hp : r.padbytes.toNat < h)
    (hd : ds = ps.flatMap ChkPkt.lines)
    (ht : ts = frameToks r.timestamp ((lineBytes r.hold).take (h - r.padbytes.toNat)) ++
      ps.flatMap ChkPkt.toks) (h1 : h < 64) : Moves r i true ps ds ts := by
  have hhdr : r.takesHdr i = false := by simp [takesHdr, hdrRdy, hs]
  have hdata : r.takesData i = false := by simp [takesData, dataRdy, hs]
  cases hq : i.reqRdy with
  | false =>
    have hsent : r.sent i = none := by simp [sent, hq]
    refine ⟨?_, by simp [hsent]⟩
    rw [hsent, hhdr, hdata]
    refine .dataLast ?_ rfl ?_ (by simpa using hd) ?_
    · simp [next, stateNext, hs, hq]
    · simpa [next, hhdr, hdata] using hp
    · simpa [next, hhdr, hdata, hs] using ht
  | true =>
    have hlen : ((lineBytes r.hold).take (h - r.padbytes.toNat)).length =
        h - r.padbytes.toNat := by
      rw [List.length_take, length_lineBytes]
      omega
    have hshift : (keepShift (h := h) r.padbytes).toNat = 64 - (h - r.padbytes.toNat) := by
      simp only [keepShift, BitVec.toNat_add, BitVec.toNat_ofNat]
      omega
    have hsent : r.sent i = some ⟨fill r.hold i.line.data,
        BitVec.allOnes 64 <<< (64 - (h - r.padbytes.toNat)), true, r.timestamp⟩ := by
      simp [sent, hq, req, hs, hshift]
    rw [frameToks_last r.timestamp (by rw [hlen]; omega) (by rw [hlen]; omega), hlen] at ht
    refine ⟨?_, ?_⟩
    · rw [hsent, hhdr, hdata]
      refine .ready ?_ rfl (by simpa using hd) (by simp [ht])
      simp [next, stateNext, hs, hq]
    · intro l hl
      rw [hsent, Option.mem_some_iff] at hl
      subst hl
      refine ⟨_, _, ht, ?_, rfl, rfl, ?_, rfl⟩
      · show 64 - (h - r.padbytes.toNat) < 64
        omega
      · show (lineBytes (fill r.hold i.line.data)).take (64 - (64 - (h - r.padbytes.toNat))) = _
        rw [take_fill r.hold (by omega) (by omega)]
        have hz : 64 - (64 - (h - r.padbytes.toNat)) - h = 0 := by omega
        have hk : 64 - (64 - (h - r.padbytes.toNat)) = h - r.padbytes.toNat := by omega
        rw [hz, hk, List.take_zero, List.append_nil]

/-- A line before the last one is passed on. -/
theorem full_moves {rest : List (BitVec 8)} (hs : r.state = .chksumDataInput)
    (hr : 64 < rest.length) (hd : ds = beats 64 rest ++ ps.flatMap ChkPkt.lines)
    (ht : ts = frameToks r.timestamp (lineBytes r.hold ++ rest) ++ ps.flatMap ChkPkt.toks)
    (htake : r.takesData i = true) (hread : ∃ d ds', ds = d :: ds' ∧ i.line.read = d)
    (h1 : h < 64) : Moves r i true ps ds ts := by
  have hhdr : r.takesHdr i = false := by simp [takesHdr, hdrRdy, hs]
  obtain ⟨hval, hrdy⟩ := Bool.and_eq_true_iff.mp htake
  have hq : i.reqRdy = true := (Bool.and_eq_true_iff.mp hrdy).2
  obtain ⟨d, ds', hds, hline⟩ := hread
  rw [beats_full (by decide) hr, List.cons_append] at hd
  rw [hd, List.cons.injEq] at hds
  obtain ⟨rfl, hds'⟩ := hds
  obtain ⟨hlast, hbytes⟩ := read_full hline
  have hends : r.endsInput i = false := by simp [endsInput, hlast]
  have hhold : (lineBytes r.hold).length = h := length_lineBytes _
  have hsent : r.sent i = some ⟨fill r.hold i.line.data, BitVec.allOnes 64, false,
      r.timestamp⟩ := by simp [sent, hq, req, hs, hval, hends]
  have hshift := beats_shift (lineBytes r.hold) (by decide) (by omega) hr
  rw [hhold] at hshift
  have hts : ts = (⟨lineBytes r.hold ++ rest.take (64 - h), false, 0⟩, r.timestamp) ::
      (frameToks r.timestamp ((rest.take 64).drop (64 - h) ++ rest.drop 64) ++
        ps.flatMap ChkPkt.toks) := by
    rw [ht, frameToks, hshift]
    rfl
  refine ⟨?_, ?_⟩
  · rw [hsent, hhdr, htake]
    refine .dataInput (rest.drop 64) ?_ rfl (by rw [List.length_drop]; omega) (by simp [hd]) ?_
    · simp [next, stateNext, hs, hlast]
    · have hnext : lineBytes (r.next i).hold = (rest.take 64).drop (64 - h) := by
        have hcut := lineBytes_setWidth i.line.data (Nat.le_of_lt h1)
        rw [hbytes] at hcut
        rw [← hcut]
        simp [next, hhdr, htake, hends]
      have htime : (r.next i).timestamp = r.timestamp := by simp [next, hs]
      rw [hts, hnext, htime]
      rfl
  · intro l hl
    rw [hsent, Option.mem_some_iff] at hl
    subst hl
    refine ⟨_, _, hts, Nat.zero_lt_succ 63, rfl, rfl, ?_, rfl⟩
    show (lineBytes (fill r.hold i.line.data)).take 64 = _
    rw [take_fill r.hold (Nat.le_of_lt h1) (Nat.le_refl _), hbytes, List.take_take,
      Nat.min_eq_left (by omega), List.take_of_length_le (by omega)]

/-- The last line of the packet is passed on, and its last bytes are held if they do not fit. -/
theorem end_moves {rest : List (BitVec 8)} (hs : r.state = .chksumDataInput)
    (h0 : 0 < rest.length) (hr : rest.length ≤ 64)
    (hd : ds = beats 64 rest ++ ps.flatMap ChkPkt.lines)
    (ht : ts = frameToks r.timestamp (lineBytes r.hold ++ rest) ++ ps.flatMap ChkPkt.toks)
    (htake : r.takesData i = true) (hread : ∃ d ds', ds = d :: ds' ∧ i.line.read = d)
    (h1 : h < 64) : Moves r i true ps ds ts := by
  have hhdr : r.takesHdr i = false := by simp [takesHdr, hdrRdy, hs]
  obtain ⟨hval, hrdy⟩ := Bool.and_eq_true_iff.mp htake
  have hq : i.reqRdy = true := (Bool.and_eq_true_iff.mp hrdy).2
  obtain ⟨d, ds', hds, hline⟩ := hread
  rw [beats_last h0 hr, List.cons_append] at hd
  rw [hd, List.cons.injEq] at hds
  obtain ⟨rfl, hds'⟩ := hds
  obtain ⟨hlast, hpad, hbytes⟩ := read_last hline
  have hkeep : 64 - (64 - rest.length) = rest.length := by omega
  rw [hkeep] at hbytes
  have hhold : (lineBytes r.hold).length = h := length_lineBytes _
  cases hspill : spills i with
  | true =>
    have hlt : 64 < h + rest.length := by
      have hlt := of_decide_eq_true hspill
      omega
    have hends : r.endsInput i = false := by simp [endsInput, hspill]
    have hsent : r.sent i = some ⟨fill r.hold i.line.data, BitVec.allOnes 64, false,
        r.timestamp⟩ := by simp [sent, hq, req, hs, hval, hends]
    have hshift := beats_shift_spills (lineBytes r.hold) (n := 64) (by omega) hr (by omega)
    rw [hhold] at hshift
    have hts : ts = (⟨lineBytes r.hold ++ rest.take (64 - h), false, 0⟩, r.timestamp) ::
        (frameToks r.timestamp (rest.drop (64 - h)) ++ ps.flatMap ChkPkt.toks) := by
      rw [ht, frameToks, hshift, frameToks_last r.timestamp (by rw [List.length_drop]; omega)
        (by rw [List.length_drop]; omega), List.length_drop]
      rfl
    refine ⟨?_, ?_⟩
    · rw [hsent, hhdr, htake]
      have hpad' : (r.next i).padbytes.toNat = 64 - rest.length := by
        simp [next, hhdr, htake, hlast, hspill, hpad]
      have hnext : lineBytes (r.next i).hold = (lineBytes i.line.data).drop (64 - h) := by
        rw [← lineBytes_setWidth i.line.data (Nat.le_of_lt h1)]
        simp [next, hhdr, htake, hends]
      have htime : (r.next i).timestamp = r.timestamp := by simp [next, hs]
      refine .dataLast ?_ rfl (by rw [hpad']; omega) (by simp [hd]) ?_
      · simp [next, stateNext, hs, htake, hlast, hspill]
      · have hk : h - (64 - rest.length) = rest.length - (64 - h) := by omega
        rw [hts, hnext, htime, hpad', hk, ← List.drop_take, hbytes]
        rfl
    · intro l hl
      rw [hsent, Option.mem_some_iff] at hl
      subst hl
      refine ⟨_, _, hts, Nat.zero_lt_succ 63, rfl, rfl, ?_, rfl⟩
      show (lineBytes (fill r.hold i.line.data)).take 64 = _
      rw [take_fill r.hold (Nat.le_of_lt h1) (Nat.le_refl _), List.take_of_length_le (by omega),
        ← hbytes, List.take_take, Nat.min_eq_left (by omega)]
  | false =>
    have hle : h + rest.length ≤ 64 := by
      have hge := of_decide_eq_false hspill
      omega
    have hends : r.endsInput i = true := by simp [endsInput, htake, hlast, hspill]
    have hshiftPad : (keepShift (h := h) i.line.padbytes).toNat = 64 - (h + rest.length) := by
      simp only [keepShift, BitVec.toNat_add, BitVec.toNat_ofNat, hpad]
      omega
    have hsent : r.sent i = some ⟨fill r.hold i.line.data,
        BitVec.allOnes 64 <<< (64 - (h + rest.length)), true, r.timestamp⟩ := by
      simp [sent, hq, req, hs, hval, hends, hshiftPad]
    have hshift := beats_shift_fits (lineBytes r.hold) (n := 64) h0 (by omega)
    rw [hhold] at hshift
    have hts : ts = (⟨lineBytes r.hold ++ rest, true, 64 - (h + rest.length)⟩, r.timestamp) ::
        ps.flatMap ChkPkt.toks := by
      rw [ht, frameToks, hshift]
      rfl
    refine ⟨?_, ?_⟩
    · rw [hsent, hhdr, htake]
      refine .ready ?_ rfl (by simp [hd]) (by simp [hts])
      simp [next, stateNext, hs, htake, hlast, hspill]
    · intro l hl
      rw [hsent, Option.mem_some_iff] at hl
      subst hl
      refine ⟨_, _, hts, ?_, rfl, rfl, ?_, rfl⟩
      · show 64 - (h + rest.length) < 64
        omega
      · show (lineBytes (fill r.hold i.line.data)).take (64 - (64 - (h + rest.length))) = _
        have hk : 64 - (64 - (h + rest.length)) = h + rest.length := by omega
        rw [hk, take_fill r.hold (Nat.le_of_lt h1) hle, List.take_of_length_le (by omega),
          Nat.add_sub_cancel_left, hbytes]

/-- One cycle of an input controller. -/
theorem Owes.moves (ho : Owes r busy ps ds ts) (h0 : 0 < h) (h1 : h < 64)
    (hhdr : r.takesHdr i = true → ∃ p ps', ps = p :: ps' ∧ i.hdr = p.hdr ∧
      i.timestamp = p.timestamp ∧ (i.hdrOnly = true ↔ p.body = []))
    (hread : r.takesData i = true → ∃ d ds', ds = d :: ds' ∧ i.line.read = d) :
    Moves r i busy ps ds ts := by
  cases ho with
  | ready hs hb hd ht =>
    subst hb
    exact ready_moves hs hd ht hhdr h0
  | dataLast hs hb hp hd ht =>
    subst hb
    exact last_moves hs hp hd ht h1
  | dataInput rest hs hb hr hd ht =>
    subst hb
    cases htake : r.takesData i with
    | true =>
      by_cases hn : 64 < rest.length
      · exact full_moves hs hn hd ht htake (hread htake) h1
      · exact end_moves hs hr (Nat.le_of_not_lt hn) hd ht htake (hread htake) h1
    | false =>
      have hhdr : r.takesHdr i = false := by simp [takesHdr, hdrRdy, hs]
      have hsent : r.sent i = none := by
        cases hq : i.reqRdy with
        | false => simp [sent, hq]
        | true =>
          have hval : i.dataVal = false := by
            simpa [takesData, dataRdy, hs, hq] using htake
          simp [sent, req, hs, hval]
      refine ⟨?_, by simp [hsent]⟩
      rw [hsent, hhdr, htake]
      refine .dataInput rest ?_ rfl hr (by simpa using hd) ?_
      · simp [next, stateNext, hs, htake]
      · simpa [next, hhdr, htake, hs] using ht

end InputCtrl

end TcpHw
