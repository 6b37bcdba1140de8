import TcpHw.Frontend.ChksumInput

/-!
# Controllers behind the checksum unit

An output controller takes the lines of a frame from the checksum unit, cuts off its first `u`
bytes and gives out a header on one port and the other bytes, moved to the top, on another. The two
ports finish a packet together. The UDP and TCP controllers differ in `u` and in what they read
off the first line of a frame.
-/
namespace TcpHw

open Bytes Framing

set_option autoImplicit false

/-- The state of the data port. -/
inductive OutputState where
  | ready | output | outputLast | waitTxFin | drain
  deriving DecidableEq, Inhabited

/-- `hdr_state_e` -/
inductive OutputHdrState where
  | waiting | output | waitTxFin
  deriving DecidableEq, Inhabited

/-- The registers of an output controller; `hdr` are the first `u` bytes of the frame. -/
structure OutputCtrl (u : Nat) where
  state : OutputState
  hdrState : OutputHdrState
  hdr : BitVec (8 * u)
  hold : BitVec (8 * (64 - u))
  bytesLeft : BitVec 16
  timestamp : Timestamp

/-- `resp` is on the bus, also while `respVal` is low. -/
structure OutputWires where
  respVal : Bool
  resp : AxisLine
  hdrRdy : Bool
  dataRdy : Bool

/-- What the surroundings of a controller do in one cycle; `bus` is what the unit drives when no line
is valid. -/
structure OutputEnv where
  offer : Bool
  hdrRdy : Bool
  dataRdy : Bool
  bus : AxisLine

namespace OutputEnv

/-- The unit has the lines `src`. -/
def wires (e : OutputEnv) (src : List AxisLine) : OutputWires where
  respVal := e.offer && !src.isEmpty
  resp := if e.offer then src.headD e.bus else e.bus
  hdrRdy := e.hdrRdy
  dataRdy := e.dataRdy

/-- Everything happens in every cycle. -/
def calm : OutputEnv := ⟨true, true, true, default⟩

end OutputEnv

/-- A line comes, a line comes while the data port is ready, or the header port is ready. -/
inductive OutputEvent where
  | line | data | hdr
  deriving DecidableEq

def OutputEnv.Given (e : OutputEnv) : OutputEvent → Prop
  | .line => e.offer = true
  | .data => e.offer = true ∧ e.dataRdy = true
  | .hdr => e.hdrRdy = true

theorem OutputEnv.resp_of_val {e : OutputEnv} {src : List AxisLine}
    (hv : (e.wires src).respVal = true) : ∃ t, src = (e.wires src).resp :: t := by
  obtain ⟨ho, hne⟩ := Bool.and_eq_true_iff.mp hv
  cases src with
  | nil => simp at hne
  | cons l t => exact ⟨t, by simp [wires, ho]⟩

theorem OutputEnv.val_of_offer {e : OutputEnv} {src : List AxisLine} (ho : e.offer = true)
    (hne : src ≠ []) : (e.wires src).respVal = true := by
  simp [wires, ho, hne]

/-- What a controller makes of the first line of a frame: `bytes_left` and the next state, or
nothing if the frame is to be drained. `storesIdle` says that the header register is written
in every cycle of `READY`. -/
structure OutputCfg where
  first : AxisLine → Option (BitVec 16 × OutputState)
  storesIdle : Bool

namespace OutputCtrl

variable {u : Nat} (cfg : OutputCfg) (r : OutputCtrl u) (i : OutputWires)

/-- A frame begins. -/
def begins : Bool := r.state == .ready && i.respVal

/-- `resp_trdy` -/
def respRdy : Bool :=
  match r.state with
  | .ready | .drain => true
  | .output => i.dataRdy
  | .outputLast | .waitTxFin => false

/-- The line of the unit is taken. -/
def takes : Bool := i.respVal && r.respRdy i

def dataVal : Bool :=
  match r.state with
  | .output => i.respVal
  | .outputLast => true
  | .ready | .waitTxFin | .drain => false

/-- A line is given out. -/
def gives : Bool := r.dataVal i && i.dataRdy

/-- The last bytes come with this line. -/
def fits : Bool := decide (r.bytesLeft.toNat ≤ 64)

def dataLast : Bool :=
  match r.state with
  | .output => r.gives i && i.resp.last && r.fits
  | .outputLast => true
  | .ready | .waitTxFin | .drain => false

/-- The data port. -/
def dataOut : DataLine where
  data := fill r.hold i.resp.data
  padbytes := if r.dataLast i then (64 - r.bytesLeft).setWidth 6 else 0
  last := r.dataLast i

def hdrVal : Bool := r.hdrState == .output

/-- The header is given out. -/
def givesHdr : Bool := r.hdrVal && i.hdrRdy

def stateNext : OutputState :=
  match r.state with
  | .ready => if i.respVal then (cfg.first i.resp).elim .drain Prod.snd else .ready
  | .output =>
    if r.gives i && i.resp.last then (if r.fits then .waitTxFin else .outputLast) else .output
  | .outputLast => if i.dataRdy then .waitTxFin else .outputLast
  | .drain => if i.respVal && i.resp.last then .waitTxFin else .drain
  | .waitTxFin => if r.hdrState = .waitTxFin then .ready else .waitTxFin

def hdrStateNext : OutputHdrState :=
  match r.hdrState with
  | .waiting =>
    if r.begins i then (if (cfg.first i.resp).isSome then .output else .waitTxFin) else .waiting
  | .output => if i.hdrRdy then .waitTxFin else .output
  | .waitTxFin => if r.state = .waitTxFin then .waiting else .waitTxFin

def hdrNext : BitVec (8 * u) :=
  if r.state = .ready ∧ (cfg.storesIdle = true ∨ i.respVal = true ∧ (cfg.first i.resp).isSome = true)
    then i.resp.data.extractLsb' (8 * (64 - u)) (8 * u)
  else r.hdr

def timestampNext : Timestamp := if r.state = .ready then i.resp.user else r.timestamp

/-- `store_hold`: with the first line of a frame and with every line that is given out. -/
def storesHold : Bool :=
  match r.state with
  | .ready => i.respVal && (cfg.first i.resp).isSome
  | .output => r.gives i
  | .outputLast | .waitTxFin | .drain => false

/-- One clock edge. -/
def next : OutputCtrl u where
  state := r.stateNext cfg i
  hdrState := r.hdrStateNext cfg i
  hdr := r.hdrNext cfg i
  hold := if r.storesHold cfg i then i.resp.data.setWidth (8 * (64 - u)) else r.hold
  bytesLeft :=
    match r.state with
    | .ready => if i.respVal then ((cfg.first i.resp).map Prod.fst).getD r.bytesLeft else r.bytesLeft
    | .output =>
      if r.gives i && !(i.resp.last && r.fits) then r.bytesLeft - 64 else r.bytesLeft
    | .outputLast | .waitTxFin | .drain => r.bytesLeft
  timestamp := r.timestampNext i

end OutputCtrl

/-! ### Frames that are passed on -/

/-- The controller passes the packet on: its length is what the first line says. -/
def OutputCfg.Passes {u : Nat} (cfg : OutputCfg) (p : ChkPkt u) : Prop :=
  p.body.length < 2 ^ 16 ∧ ∀ l ts, AxisLine.Shows l ts → ts ∈ p.toks.head? →
    cfg.first l = some (BitVec.ofNat 16 p.body.length,
      if p.body = [] then .waitTxFin else if p.frame.length ≤ 64 then .outputLast else .output)

namespace OutputCtrl

variable {u : Nat} {cfg : OutputCfg} {r : OutputCtrl u} {i : OutputWires}
  {ts : List ChkTok} {hs : List (BitVec (8 * u) × Timestamp)} {ds : List (Beat (BitVec 8))}
  {ps : List (ChkPkt u)}

/-- The header of the packet in hand is still owed, or was given out. -/
def HdrOwes (r : OutputCtrl u) (h : List (BitVec (8 * u) × Timestamp)) : Prop :=
  r.hdrState = .output ∧ h = [(r.hdr, r.timestamp)] ∨ r.hdrState = .waitTxFin ∧ h = []

/-- The packets `ps` are not begun, the lines `ts` are still to come, and the headers `hs` and the
lines `ds` are owed. -/
inductive Owes (cfg : OutputCfg) (r : OutputCtrl u) (ps : List (ChkPkt u)) (ts : List ChkTok)
    (hs : List (BitVec (8 * u) × Timestamp)) (ds : List (Beat (BitVec 8))) : Prop
  | ready (hps : ∀ p ∈ ps, cfg.Passes p) (hst : r.state = .ready) (hh : r.hdrState = .waiting)
      (ht : ts = ps.flatMap ChkPkt.toks) (hhs : hs = ps.map ChkPkt.head)
      (hd : ds = ps.flatMap ChkPkt.lines)
  | output (hps : ∀ p ∈ ps, cfg.Passes p) (h : List (BitVec (8 * u) × Timestamp))
      (user : Timestamp) (rest : List (BitVec 8)) (hst : r.state = .output) (hh : HdrOwes r h)
      (hr : 0 < rest.length) (hb : r.bytesLeft.toNat = 64 - u + rest.length)
      (ht : ts = frameToks user rest ++ ps.flatMap ChkPkt.toks)
      (hhs : hs = h ++ ps.map ChkPkt.head)
      (hd : ds = beats 64 (lineBytes r.hold ++ rest) ++ ps.flatMap ChkPkt.lines)
  | outputLast (hps : ∀ p ∈ ps, cfg.Passes p) (h : List (BitVec (8 * u) × Timestamp))
      (hst : r.state = .outputLast) (hh : HdrOwes r h) (h0 : 0 < r.bytesLeft.toNat)
      (hb : r.bytesLeft.toNat ≤ 64 - u) (ht : ts = ps.flatMap ChkPkt.toks)
      (hhs : hs = h ++ ps.map ChkPkt.head)
      (hd : ds = beats 64 ((lineBytes r.hold).take r.bytesLeft.toNat) ++
        ps.flatMap ChkPkt.lines)
  | waitTxFin (hps : ∀ p ∈ ps, cfg.Passes p) (h : List (BitVec (8 * u) × Timestamp))
      (hst : r.state = .waitTxFin) (hh : HdrOwes r h) (ht : ts = ps.flatMap ChkPkt.toks)
      (hhs : hs = h ++ ps.map ChkPkt.head) (hd : ds = ps.flatMap ChkPkt.lines)

/-- The two ports have finished the packet. -/
def finishes (r : OutputCtrl u) : Bool := r.state == .waitTxFin && r.hdrState == .waitTxFin

/-- One cycle of an output controller does this to what is to come and what is owed. -/
structure Moves (cfg : OutputCfg) (r : OutputCtrl u) (i : OutputWires) (ps : List (ChkPkt u))
    (ts : List ChkTok) (hs : List (BitVec (8 * u) × Timestamp)) (ds : List (Beat (BitVec 8))) :
    Prop where
  owes : Owes cfg (r.next cfg i) (if r.begins i then ps.tail else ps)
    (if r.takes i then ts.tail else ts) (if r.givesHdr i then hs.tail else hs)
    (if r.gives i then ds.tail else ds)
  hdr : r.hdrVal = true → r.state ≠ .ready ∧ ∃ hs', hs = (r.hdr, r.timestamp) :: hs'
  data : r.gives i = true → ∃ ds', ds = (r.dataOut i).read :: ds'

/-- The header machine after the first line of a frame, unless it finishes. -/
theorem HdrOwes.step {h : List (BitVec (8 * u) × Timestamp)} (hh : HdrOwes r h) (cfg : OutputCfg)
    (i : OutputWires) (hst : r.state ≠ .ready) (hfin : r.finishes = false) :
    HdrOwes (r.next cfg i) (if r.givesHdr i then h.tail else h) := by
  have hregs : (r.next cfg i).hdr = r.hdr ∧ (r.next cfg i).timestamp = r.timestamp := by
    simp [next, hdrNext, timestampNext, hst]
  rcases hh with ⟨hs, rfl⟩ | ⟨hs, rfl⟩
  · cases hr : i.hdrRdy with
    | true => exact .inr ⟨by simp [next, hdrStateNext, hs, hr], by simp [givesHdr, hdrVal, hs, hr]⟩
    | false =>
      exact .inl ⟨by simp [next, hdrStateNext, hs, hr], by simp [givesHdr, hr, hregs]⟩
  · have hne : r.state ≠ .waitTxFin := by simpa [finishes, hs] using hfin
    exact .inr ⟨by simp [next, hdrStateNext, hs, hne], by simp⟩

theorem HdrOwes.head {h hs' : List (BitVec (8 * u) × Timestamp)} (hh : HdrOwes r h)
    (hv : r.hdrVal = true) : ∃ t, h ++ hs' = (r.hdr, r.timestamp) :: t := by
  rcases hh with ⟨-, rfl⟩ | ⟨hs, -⟩
  · exact ⟨hs', rfl⟩
  · simp [hdrVal, hs] at hv

/-- Taking the first of the headers that are owed. -/
theorem HdrOwes.tail_append {h hs' : List (BitVec (8 * u) × Timestamp)} (hh : HdrOwes r h) :
    (if r.givesHdr i then (h ++ hs').tail else h ++ hs') =
      (if r.givesHdr i then h.tail else h) ++ hs' := by
  rcases hh with ⟨-, rfl⟩ | ⟨hs, rfl⟩
  · cases r.givesHdr i <;> rfl
  · simp [givesHdr, hdrVal, hs]

/-- The controller waits for the first line of a frame. -/
theorem idle_moves (hps : ∀ p ∈ ps, cfg.Passes p) (hst : r.state = .ready)
    (hh : r.hdrState = .waiting) (hv : i.respVal = false) :
    Moves cfg r i ps (ps.flatMap ChkPkt.toks) (ps.map ChkPkt.head)
      (ps.flatMap ChkPkt.lines) := by
  have htakes : r.takes i = false := by simp [takes, hv]
  have hgives : r.gives i = false := by simp [gives, dataVal, hst]
  have hghdr : r.givesHdr i = false := by simp [givesHdr, hdrVal, hh]
  have hbeg : r.begins i = false := by simp [begins, hv]
  refine ⟨?_, by simp [hdrVal, hh], by simp [hgives]⟩
  rw [htakes, hgives, hghdr, hbeg]
  exact .ready hps (by simp [next, stateNext, hst, hv])
    (by simp [next, hdrStateNext, hh, hbeg]) rfl rfl rfl

/-- The first line of a frame tells the header and the rest. -/
theorem first_line {p : ChkPkt u} {l : AxisLine} {t : ChkTok} (hu : u ≤ 64)
    (ht : p.toks.head? = some t) (hl : l.Shows t) (hb : 0 < p.frame.length) :
    l.data.extractLsb' (8 * (64 - u)) (8 * u) = p.hdr ∧ l.user = p.timestamp ∧
      (lineBytes l.data).take p.frame.length = p.frame.take 64 := by
  have hhdr : (lineBytes p.hdr).length = u := length_lineBytes _
  have hlen : p.frame.length = u + p.body.length := by
    rw [ChkPkt.frame, List.length_append, hhdr]
  have hdata : (lineBytes l.data).length = 64 := length_lineBytes _
  have hall : l.user = p.timestamp ∧
      (lineBytes l.data).take p.frame.length = p.frame.take 64 := by
    by_cases hn : 64 < p.frame.length
    · rw [ChkPkt.toks, frameToks_full _ hn] at ht
      obtain rfl := Option.some.inj ht
      refine ⟨hl.user, ?_⟩
      have hbytes : (lineBytes l.data).take 64 = p.frame.take 64 := hl.bytes
      rw [← hbytes, List.take_of_length_le (by omega), List.take_of_length_le (by omega)]
    · have hle := Nat.le_of_not_lt hn
      rw [ChkPkt.toks, frameToks_last _ hb hle] at ht
      obtain rfl := Option.some.inj ht
      refine ⟨hl.user, ?_⟩
      have hk : 64 - (64 - p.frame.length) = p.frame.length := by omega
      have hbytes := hl.bytes
      rw [hk] at hbytes
      rw [List.take_of_length_le hle, hbytes]
  refine ⟨?_, hall⟩
  apply lineBytes_inj
  have htop : (lineBytes l.data).take u = (p.frame.take 64).take u := by
    rw [← hall.2, List.take_take, Nat.min_eq_left (by omega)]
  rw [lineBytes_extract l.data hu, htop, List.take_take, Nat.min_eq_left hu, ChkPkt.frame,
    List.take_append_of_le_length (by omega), List.take_of_length_le (by omega)]

/-- What is kept of a line are its last bytes. -/
theorem lineBytes_hold (hu : u ≤ 64) (hs : r.storesHold cfg i = true) :
    lineBytes (r.next cfg i).hold = (lineBytes i.resp.data).drop u := by
  have hcut := lineBytes_setWidth i.resp.data (Nat.sub_le 64 u)
  have hk : 64 - (64 - u) = u := by omega
  rw [hk] at hcut
  rw [← hcut]
  simp [next, hs]

/-- The first line of a frame is taken. -/
theorem begin_moves {p : ChkPkt u} (hps : ∀ q ∈ p :: ps, cfg.Passes q) (hst : r.state = .ready)
    (hh : r.hdrState = .waiting) (hv : i.respVal = true)
    (hresp : ∃ t ts', (p :: ps).flatMap ChkPkt.toks = t :: ts' ∧ i.resp.Shows t) (h0 : 0 < u)
    (hu : u < 64) :
    Moves cfg r i (p :: ps) ((p :: ps).flatMap ChkPkt.toks) ((p :: ps).map ChkPkt.head)
      ((p :: ps).flatMap ChkPkt.lines) := by
  have htakes : r.takes i = true := by simp [takes, respRdy, hst, hv]
  have hgives : r.gives i = false := by simp [gives, dataVal, hst]
  have hghdr : r.givesHdr i = false := by simp [givesHdr, hdrVal, hh]
  have hbeg : r.begins i = true := by simp [begins, hst, hv]
  have hhdr : (lineBytes p.hdr).length = u := length_lineBytes _
  have hlen : p.frame.length = u + p.body.length := by
    rw [ChkPkt.frame, List.length_append, hhdr]
  have hdrop : p.frame.drop u = p.body := by
    rw [ChkPkt.frame, List.drop_append_of_le_length (by omega), List.drop_of_length_le (by omega),
      List.nil_append]
  obtain ⟨t, tl, htoks⟩ : ∃ t tl, p.toks = t :: tl := by
    by_cases hn : 64 < p.frame.length
    · exact ⟨_, _, frameToks_full _ hn⟩
    · exact ⟨_, _, frameToks_last _ (by omega) (Nat.le_of_not_lt hn)⟩
  have hshow : i.resp.Shows t := by
    obtain ⟨t', ts', hts, hl⟩ := hresp
    rw [List.flatMap_cons, htoks, List.cons_append, List.cons.injEq] at hts
    rw [hts.1]
    exact hl
  obtain ⟨hpass, hfirst⟩ := hps p List.mem_cons_self
  have hfirst := hfirst i.resp t hshow (by rw [htoks]; rfl)
  have hps' : ∀ q ∈ ps, cfg.Passes q := fun q hq => hps q (List.mem_cons_of_mem _ hq)
  obtain ⟨hhdr', huser, hdata⟩ := first_line (Nat.le_of_lt hu) (by rw [htoks]; rfl) hshow (by omega)
  have howes : HdrOwes (r.next cfg i) [p.head] := by
    refine .inl ⟨by simp [next, hdrStateNext, hh, begins, hst, hv, hfirst], ?_⟩
    simp [next, hdrNext, timestampNext, hst, hv, hfirst, hhdr', huser, ChkPkt.head]
  have hbytes : (r.next cfg i).bytesLeft.toNat = p.body.length := by
    simp only [next, hst, hv, hfirst, if_true, Option.map_some, Option.getD_some,
      BitVec.toNat_ofNat]
    exact Nat.mod_eq_of_lt hpass
  have hhold : lineBytes (r.next cfg i).hold = (lineBytes i.resp.data).drop u :=
    lineBytes_hold (Nat.le_of_lt hu) (by simp [storesHold, hst, hv, hfirst])
  refine ⟨?_, by simp [hdrVal, hh], by simp [hgives]⟩
  rw [htakes, hgives, hghdr, hbeg, List.flatMap_cons, htoks]
  by_cases hempty : p.body = []
  · have htl : tl = [] := by
      rw [ChkPkt.toks, frameToks_last _ (by omega) (by rw [hlen, hempty]; simp; omega),
        List.cons.injEq] at htoks
      exact htoks.2.symm
    refine .waitTxFin hps' [p.head] ?_ howes ?_ rfl ?_
    · simp [next, stateNext, hst, hv, hfirst, hempty]
    · simp [htl]
    · simp [ChkPkt.lines, hempty]
  · have hpos : 0 < p.body.length := List.length_pos_of_ne_nil hempty
    by_cases hn : 64 < p.frame.length
    · rw [ChkPkt.toks, frameToks_full _ hn, List.cons.injEq] at htoks
      obtain ⟨rfl, rfl⟩ := htoks
      have hline : lineBytes i.resp.data = p.frame.take 64 := by
        rw [← hdata, List.take_of_length_le]
        rw [length_lineBytes]
        omega
      refine .output hps' [p.head] p.timestamp (p.frame.drop 64) ?_ howes
        (by rw [List.length_drop]; omega) (by rw [hbytes, List.length_drop]; omega) rfl rfl ?_
      · have hle : ¬ p.frame.length ≤ 64 := by omega
        simp [next, stateNext, hst, hv, hfirst, hempty, hle]
      · have hcat : (p.frame.take 64).drop u ++ p.frame.drop 64 = p.body := by
          have hle : u ≤ (p.frame.take 64).length := by
            rw [List.length_take]
            omega
          rw [← List.drop_append_of_le_length hle, List.take_append_drop, hdrop]
        rw [hhold, hline, hcat]
        rfl
    · have hle := Nat.le_of_not_lt hn
      rw [ChkPkt.toks, frameToks_last _ (by omega) hle, List.cons.injEq] at htoks
      obtain ⟨rfl, rfl⟩ := htoks
      refine .outputLast hps' [p.head] ?_ howes (by omega) (by omega) rfl rfl ?_
      · simp [next, stateNext, hst, hv, hfirst, hempty, hle]
      · have hcut : ((lineBytes i.resp.data).drop u).take p.body.length = p.body := by
          have hk : p.body.length = p.frame.length - u := by omega
          rw [hk, ← List.drop_take, hdata, List.take_of_length_le hle, hdrop]
        rw [hhold, hbytes, hcut]
        rfl

/-- The bytes that were kept stand in front of those of the next line. -/
theorem lineBytes_shifted (hu : u ≤ 64) : lineBytes (fill r.hold i.resp.data) =
    lineBytes r.hold ++ (lineBytes i.resp.data).take u := by
  have hk : 64 - (64 - u) = u := by omega
  rw [lineBytes_fill r.hold i.resp.data (Nat.sub_le 64 u), hk]

/-- A line in the middle of a frame is taken and one is given out. -/
theorem given_moves {h : List (BitVec (8 * u) × Timestamp)} {t : ChkTok} {ts' : List ChkTok}
    {ds' : List (Beat (BitVec 8))} (hst : r.state = .output) (hh : HdrOwes r h)
    (hgives : r.gives i = true) (hts : ts = t :: ts') (hds : ds = (r.dataOut i).read :: ds')
    (hnext : ∀ h', HdrOwes (r.next cfg i) h' →
      Owes cfg (r.next cfg i) ps ts' (h' ++ ps.map ChkPkt.head) ds') :
    Moves cfg r i ps ts (h ++ ps.map ChkPkt.head) ds := by
  have hne : r.state ≠ .ready := by simp [hst]
  have hbeg : r.begins i = false := by simp [begins, hst]
  have hfin : r.finishes = false := by simp [finishes, hst]
  obtain ⟨hval, hrdy⟩ := Bool.and_eq_true_iff.mp hgives
  have hv : i.respVal = true := by simpa [dataVal, hst] using hval
  have htakes : r.takes i = true := by simp [takes, respRdy, hst, hv, hrdy]
  refine ⟨?_, fun h' => ⟨hne, hh.head h'⟩, fun _ => ⟨_, hds⟩⟩
  rw [htakes, hgives, hbeg, hh.tail_append, hts, hds]
  exact hnext _ (hh.step cfg i hne hfin)

section output

variable {h : List (BitVec (8 * u) × Timestamp)} {user : Timestamp} {rest : List (BitVec 8)}

/-- More lines of the frame follow. -/
theorem full_moves (hps : ∀ p ∈ ps, cfg.Passes p) (hst : r.state = .output) (hh : HdrOwes r h)
    (hn : 64 < rest.length) (hb : r.bytesLeft.toNat = 64 - u + rest.length)
    (hts : ts = frameToks user rest ++ ps.flatMap ChkPkt.toks)
    (hds : ds = beats 64 (lineBytes r.hold ++ rest) ++ ps.flatMap ChkPkt.lines)
    (hgives : r.gives i = true) (hresp : ∃ t ts', ts = t :: ts' ∧ i.resp.Shows t) (hu : u < 64) :
    Moves cfg r i ps ts (h ++ ps.map ChkPkt.head) ds := by
  have hold : (lineBytes r.hold).length = 64 - u := length_lineBytes _
  have hk : 64 - (64 - u) = u := by omega
  have hdata : (lineBytes i.resp.data).length = 64 := length_lineBytes _
  have hbit := r.bytesLeft.isLt
  rw [frameToks_full user hn, List.cons_append] at hts
  obtain ⟨t, ts', ht, hl⟩ := hresp
  rw [hts, List.cons.injEq] at ht
  obtain ⟨rfl, -⟩ := ht
  have hlast : i.resp.last = false := hl.last
  have hdl : r.dataLast i = false := by simp [dataLast, hst, hlast]
  have hline : lineBytes i.resp.data = rest.take 64 := by
    rw [← List.take_of_length_le (Nat.le_of_eq hdata)]
    exact hl.bytes
  have hread : (r.dataOut i).read = ⟨lineBytes r.hold ++ rest.take u, false, 0⟩ := by
    rw [DataLine.read, dataOut, hdl, readBeat, if_neg (by simp),
      lineBytes_shifted (Nat.le_of_lt hu), hline, List.take_take, Nat.min_eq_left (Nat.le_of_lt hu)]
  rw [beats_shift (lineBytes r.hold) (by decide) (by omega) hn, hold, hk, List.cons_append,
    ← hread] at hds
  refine given_moves hst hh hgives hts hds fun h' hh' => ?_
  refine .output hps h' user (rest.drop 64) ?_ hh' (by rw [List.length_drop]; omega) ?_ rfl rfl ?_
  · simp [next, stateNext, hst, hlast]
  · have hsub : (r.bytesLeft - 64).toNat = r.bytesLeft.toNat - 64 := by bv_omega
    simp only [next, hst, hgives, hlast, Bool.false_and, Bool.not_false, Bool.and_true, if_true,
      hsub, hb, List.length_drop]
    omega
  · rw [lineBytes_hold (Nat.le_of_lt hu) (by simp [storesHold, hst, hgives]), hline]

/-- The last bytes of the frame fit into the line that is given out. -/
theorem fits_moves (hps : ∀ p ∈ ps, cfg.Passes p) (hst : r.state = .output) (hh : HdrOwes r h)
    (hr : 0 < rest.length) (hru : rest.length ≤ u)
    (hb : r.bytesLeft.toNat = 64 - u + rest.length)
    (hts : ts = frameToks user rest ++ ps.flatMap ChkPkt.toks)
    (hds : ds = beats 64 (lineBytes r.hold ++ rest) ++ ps.flatMap ChkPkt.lines)
    (hgives : r.gives i = true) (hresp : ∃ t ts', ts = t :: ts' ∧ i.resp.Shows t) (hu : u < 64) :
    Moves cfg r i ps ts (h ++ ps.map ChkPkt.head) ds := by
  have hold : (lineBytes r.hold).length = 64 - u := length_lineBytes _
  rw [frameToks_last user hr (by omega), List.cons_append] at hts
  obtain ⟨t, ts', ht, hl⟩ := hresp
  rw [hts, List.cons.injEq] at ht
  obtain ⟨rfl, -⟩ := ht
  have hlast : i.resp.last = true := hl.last
  have hline := hl.last_bytes (by omega)
  have hfits : r.fits = true := decide_eq_true (by omega)
  have hdl : r.dataLast i = true := by simp [dataLast, hst, hgives, hlast, hfits]
  have hread : (r.dataOut i).read =
      ⟨lineBytes r.hold ++ rest, true, 64 - (64 - u + rest.length)⟩ := by
    have hpad : ((64 - r.bytesLeft).setWidth 6).toNat = 64 - (64 - u + rest.length) := by
      have hsub : (64 - r.bytesLeft).toNat = 64 - r.bytesLeft.toNat := by bv_omega
      rw [BitVec.toNat_setWidth, hsub, hb]
      omega
    have htk : 64 - (64 - (64 - u + rest.length)) = 64 - u + rest.length := by omega
    rw [DataLine.read, dataOut, hdl, readBeat, if_pos rfl, if_pos rfl, hpad,
      lineBytes_shifted (Nat.le_of_lt hu), htk, List.take_append, List.take_of_length_le (by omega),
      hold, Nat.add_sub_cancel_left, List.take_take, Nat.min_eq_left hru, hline]
  rw [beats_shift_fits (lineBytes r.hold) hr (by omega), hold, List.cons_append, ← hread] at hds
  refine given_moves hst hh hgives hts hds fun h' hh' => ?_
  refine .waitTxFin hps h' ?_ hh' rfl rfl rfl
  simp [next, stateNext, hst, hgives, hlast, hfits]

/-- The last bytes of the frame need one more line. -/
theorem spills_moves (hps : ∀ p ∈ ps, cfg.Passes p) (hst : r.state = .output) (hh : HdrOwes r h)
    (hru : u < rest.length) (hle : rest.length ≤ 64)
    (hb : r.bytesLeft.toNat = 64 - u + rest.length)
    (hts : ts = frameToks user rest ++ ps.flatMap ChkPkt.toks)
    (hds : ds = beats 64 (lineBytes r.hold ++ rest) ++ ps.flatMap ChkPkt.lines)
    (hgives : r.gives i = true) (hresp : ∃ t ts', ts = t :: ts' ∧ i.resp.Shows t) (hu : u < 64) :
    Moves cfg r i ps ts (h ++ ps.map ChkPkt.head) ds := by
  have hold : (lineBytes r.hold).length = 64 - u := length_lineBytes _
  have hk : 64 - (64 - u) = u := by omega
  have hbit := r.bytesLeft.isLt
  rw [frameToks_last user (by omega) hle, List.cons_append] at hts
  obtain ⟨t, ts', ht, hl⟩ := hresp
  rw [hts, List.cons.injEq] at ht
  obtain ⟨rfl, -⟩ := ht
  have hlast : i.resp.last = true := hl.last
  have hline := hl.last_bytes hle
  have hfits : r.fits = false := decide_eq_false (by omega)
  have hdl : r.dataLast i = false := by simp [dataLast, hst, hfits]
  have hleft : (r.next cfg i).bytesLeft.toNat = rest.length - u := by
    have hsub : (r.bytesLeft - 64).toNat = r.bytesLeft.toNat - 64 := by bv_omega
    simp only [next, hst, hgives, hlast, hfits, Bool.true_and, Bool.not_false, if_true, hsub, hb]
    omega
  have hread : (r.dataOut i).read = ⟨lineBytes r.hold ++ rest.take u, false, 0⟩ := by
    rw [DataLine.read, dataOut, hdl, readBeat, if_neg (by simp),
      lineBytes_shifted (Nat.le_of_lt hu), ← hline, List.take_take,
      Nat.min_eq_left (Nat.le_of_lt hru)]
  rw [beats_shift_spills (lineBytes r.hold) (by omega) hle (by omega), hold, hk, List.cons_append,
    ← hread] at hds
  refine given_moves hst hh hgives hts hds fun h' hh' => ?_
  refine .outputLast hps h' ?_ hh' (by omega) (by omega) rfl rfl ?_
  · simp [next, stateNext, hst, hgives, hlast, hfits]
  · have hcut : ((lineBytes i.resp.data).drop u).take (rest.length - u) = rest.drop u := by
      rw [← List.drop_take, hline]
    rw [lineBytes_hold (Nat.le_of_lt hu) (by simp [storesHold, hst, hgives]), hleft, hcut,
      beats_last (by rw [List.length_drop]; omega) (by rw [List.length_drop]; omega),
      List.length_drop]

end output

/-- The last bytes of a frame are given out. -/
theorem last_moves {h : List (BitVec (8 * u) × Timestamp)} (hps : ∀ p ∈ ps, cfg.Passes p)
    (hst : r.state = .outputLast) (hh : HdrOwes r h) (hb0 : 0 < r.bytesLeft.toNat)
    (hb : r.bytesLeft.toNat ≤ 64 - u)
    (hds : ds = beats 64 ((lineBytes r.hold).take r.bytesLeft.toNat) ++
      ps.flatMap ChkPkt.lines) :
    Moves cfg r i ps (ps.flatMap ChkPkt.toks) (h ++ ps.map ChkPkt.head) ds := by
  have hne : r.state ≠ .ready := by simp [hst]
  have hbeg : r.begins i = false := by simp [begins, hst]
  have hfin : r.finishes = false := by simp [finishes, hst]
  have htakes : r.takes i = false := by simp [takes, respRdy, hst]
  have hgives : r.gives i = i.dataRdy := by simp [gives, dataVal, hst]
  have hold : (lineBytes r.hold).length = 64 - u := length_lineBytes _
  have hlen : ((lineBytes r.hold).take r.bytesLeft.toNat).length = r.bytesLeft.toNat := by
    rw [List.length_take]
    omega
  have hhdr := hh.step cfg i hne hfin
  rw [beats_last (by omega) (by omega), hlen, List.cons_append] at hds
  have hread : (r.dataOut i).read =
      ⟨(lineBytes r.hold).take r.bytesLeft.toNat, true, 64 - r.bytesLeft.toNat⟩ := by
    have hpad : ((64 - r.bytesLeft).setWidth 6).toNat = 64 - r.bytesLeft.toNat := by
      have hsub : (64 - r.bytesLeft).toNat = 64 - r.bytesLeft.toNat := by bv_omega
      rw [BitVec.toNat_setWidth, hsub]
      omega
    have hdl : r.dataLast i = true := by simp [dataLast, hst]
    have htk : 64 - (64 - r.bytesLeft.toNat) = r.bytesLeft.toNat := by omega
    rw [DataLine.read, dataOut, hdl, readBeat, if_pos rfl, if_pos rfl, hpad, htk,
      lineBytes_fill r.hold i.resp.data (Nat.sub_le 64 u),
      List.take_append_of_le_length (by omega)]
  refine ⟨?_, fun hv => ⟨hne, hh.head hv⟩, fun _ => ⟨_, hread ▸ hds⟩⟩
  rw [htakes, hgives, hbeg, hh.tail_append, hds]
  cases hr : i.dataRdy with
  | false =>
    have hkeep : (r.next cfg i).hold = r.hold ∧ (r.next cfg i).bytesLeft = r.bytesLeft := by
      simp [next, storesHold, hst]
    refine .outputLast hps _ ?_ hhdr (by rw [hkeep.2]; exact hb0)
      (by rw [hkeep.2]; exact hb) rfl rfl ?_
    · simp [next, stateNext, hst, hr]
    · rw [hkeep.1, hkeep.2, beats_last (by omega) (by omega), hlen]
      rfl
  | true =>
    refine .waitTxFin hps _ ?_ hhdr rfl rfl rfl
    simp [next, stateNext, hst, hr]

/-- The data port waits for the header port. -/
theorem fin_moves {h : List (BitVec (8 * u) × Timestamp)} (hps : ∀ p ∈ ps, cfg.Passes p)
    (hst : r.state = .waitTxFin) (hh : HdrOwes r h) :
    Moves cfg r i ps (ps.flatMap ChkPkt.toks) (h ++ ps.map ChkPkt.head)
      (ps.flatMap ChkPkt.lines) := by
  have hne : r.state ≠ .ready := by simp [hst]
  have htakes : r.takes i = false := by simp [takes, respRdy, hst]
  have hgives : r.gives i = false := by simp [gives, dataVal, hst]
  have hbeg : r.begins i = false := by simp [begins, hst]
  refine ⟨?_, fun hv => ⟨hne, hh.head hv⟩, by simp [hgives]⟩
  rw [htakes, hgives, hbeg, hh.tail_append]
  cases hfin : r.finishes with
  | false =>
    have hhdr := hh.step cfg i hne hfin
    have hhs : r.hdrState ≠ .waitTxFin := by simpa [finishes, hst] using hfin
    refine .waitTxFin hps _ ?_ hhdr rfl rfl rfl
    simp [next, stateNext, hst, hhs]
  | true =>
    have hhs : r.hdrState = .waitTxFin := by simpa [finishes, hst] using hfin
    have hnil : h = [] := by
      rcases hh with ⟨ho, -⟩ | ⟨-, hnil⟩
      · rw [hhs] at ho
        cases ho
      · exact hnil
    refine .ready hps ?_ ?_ rfl ?_ rfl
    · simp [next, stateNext, hst, hhs]
    · simp [next, hdrStateNext, hst, hhs]
    · simp [hnil]

/-- One cycle of an output controller. -/
theorem Owes.moves (ho : Owes cfg r ps ts hs ds) (h0 : 0 < u) (hu : u < 64)
    (hresp : i.respVal = true → ∃ t ts', ts = t :: ts' ∧ i.resp.Shows t) :
    Moves cfg r i ps ts hs ds := by
  cases ho with
  | ready hps hst hh ht hhs hd =>
    subst ht hhs hd
    cases hv : i.respVal with
    | false => exact idle_moves hps hst hh hv
    | true =>
      have hresp := hresp hv
      cases ps with
      | nil => simp at hresp
      | cons p ps => exact begin_moves hps hst hh hv hresp h0 hu
  | output hps h user rest hst hh hr hb ht hhs hd =>
    subst hhs
    cases hg : r.gives i with
    | true =>
      have hv : i.respVal = true := by
        have hval := (Bool.and_eq_true_iff.mp hg).1
        simpa [dataVal, hst] using hval
      by_cases hn : 64 < rest.length
      · exact full_moves hps hst hh hn hb ht hd hg (hresp hv) hu
      · by_cases hru : rest.length ≤ u
        · exact fits_moves hps hst hh hr hru hb ht hd hg (hresp hv) hu
        · exact spills_moves hps hst hh (by omega) (by omega) hb ht hd hg (hresp hv) hu
    | false =>
      have htakes : r.takes i = false := by
        have hg' : (i.respVal && i.dataRdy) = false := by simpa [gives, dataVal, hst] using hg
        simpa [takes, respRdy, hst] using hg'
      have hne : r.state ≠ .ready := by simp [hst]
      have hbeg : r.begins i = false := by simp [begins, hst]
      have hfin : r.finishes = false := by simp [finishes, hst]
      refine ⟨?_, fun hv => ⟨hne, hh.head hv⟩, by simp [hg]⟩
      rw [htakes, hg, hbeg, hh.tail_append]
      refine .output hps _ user rest ?_ (hh.step cfg i hne hfin) hr ?_ ht rfl ?_
      · simp [next, stateNext, hst, hg]
      · simpa [next, hst, hg] using hb
      · simpa [next, storesHold, hst, hg] using hd
  | outputLast hps h hst hh hb0 hb ht hhs hd =>
    subst ht hhs
    exact last_moves hps hst hh hb0 hb hd
  | waitTxFin hps h hst hh ht hhs hd =>
    subst ht hhs hd
    exact fin_moves hps hst hh

end OutputCtrl

end TcpHw
