import TcpHw.Frontend.ChksumOutput

/-!
# A path through the checksum unit

An input controller, a checksum unit and an output controller follow each other. The lines the input
controller owes are those the unit waits for, and the lines the unit owes are those the output
controller waits for. Everything that moves in a cycle lowers what is left to do, and a path in
which nothing moves keeps its states.
-/
namespace TcpHw

open Bytes Framing

set_option autoImplicit false

/-- The registers of the three stages. -/
structure ChksumPath (h u : Nat) where
  inp : InputCtrl h
  chk : ChksumUnit
  out : OutputCtrl u

/-- What is still to come to each of the stages, and what is owed. -/
structure PathLists (h u : Nat) where
  pkts : List (ChkPkt h)
  data : List (Beat (BitVec 8))
  reqs : List ChkTok
  resps : List ChkTok
  waiting : List (ChkPkt u)
  hdrs : List (BitVec (8 * u) × Timestamp)
  lines : List (Beat (BitVec 8))

namespace ChksumPath

variable {h u : Nat} (cfg : OutputCfg) (k : ChksumCmd) (p : ChksumPath h u) (i : InputWires h)
  (o : OutputWires)

/-- The controllers are wired to the unit. -/
structure Wired : Prop where
  cmd : i.cmdRdy = p.chk.cmdRdy
  req : i.reqRdy = true → p.chk.transferIn = true
  val : o.respVal = p.chk.valid
  resp : ∀ l, p.chk.resp = some l → o.resp = l

/-- One clock edge. -/
def next (respond : Bool) : ChksumPath h u where
  inp := p.inp.next i
  chk := p.chk.step (if p.inp.takesHdr i then some k else none) (p.inp.sent i) (p.out.takes o) respond
  out := p.out.next cfg o

/-- What is left after a cycle. -/
def left (l : PathLists h u) : PathLists h u where
  pkts := if p.inp.takesHdr i then l.pkts.tail else l.pkts
  data := if p.inp.takesData i then l.data.tail else l.data
  reqs := if (p.inp.sent i).isSome then l.reqs.tail else l.reqs
  resps := if p.out.takes o then l.resps.tail else l.resps
  waiting := if p.out.begins o then l.waiting.tail else l.waiting
  hdrs := if p.out.givesHdr o then l.hdrs.tail else l.hdrs
  lines := if p.out.gives o then l.lines.tail else l.lines

/-- The checksum goes into the bytes `n` and `n + 1` of a frame. -/
structure Owes (n : Nat) (l : PathLists h u) : Prop where
  inp : p.inp.Owes p.chk.transferIn l.pkts l.data l.reqs
  chk : p.chk.Holds n k l.reqs l.resps
  out : p.out.Owes cfg l.waiting l.resps l.hdrs l.lines

/-- The command fits the place of the checksum. -/
structure Places (n : Nat) : Prop where
  enable : k.enable = true
  offset : k.offset.toNat + 2 ≤ 64
  place : n = 62 - k.offset.toNat

/-- What one cycle does to a path. -/
structure Moves (n : Nat) (l : PathLists h u) (respond : Bool) : Prop where
  owes : (p.next cfg k i o respond).Owes cfg k n (p.left i o l)
  reqs : (p.inp.sent i).isSome = true → l.reqs ≠ []
  resps : p.out.takes o = true → l.resps ≠ []
  hdr : p.out.hdrVal = true → p.out.state ≠ .ready ∧ ∃ hs, l.hdrs = (p.out.hdr, p.out.timestamp) :: hs
  data : p.out.gives o = true → ∃ ds, l.lines = (p.out.dataOut o).read :: ds

variable {cfg k p i o}

theorem takesHdr_idle (hw : Wired p i o) (ht : p.inp.takesHdr i = true) :
    p.chk.transferIn = false := by
  have hrdy := (Bool.and_eq_true_iff.mp ht).2
  have hcmd : i.cmdRdy = true := (Bool.and_eq_true_iff.mp hrdy).2
  rw [hw.cmd] at hcmd
  simpa [ChksumUnit.cmdRdy] using hcmd

theorem sent_busy (hw : Wired p i o) {l : AxisLine} (hl : l ∈ p.inp.sent i) :
    p.chk.transferIn = true := by
  refine hw.req ?_
  cases hq : i.reqRdy with
  | true => rfl
  | false => simp [InputCtrl.sent, hq] at hl

/-- One cycle of a path. -/
theorem Owes.moves {n : Nat} {l : PathLists h u} (ho : p.Owes cfg k n l) (hk : Places k n)
    (hw : Wired p i o) (h0 : 0 < h) (h1 : h < 64) (u0 : 0 < u) (u1 : u < 64) (respond : Bool)
    (hhdr : p.inp.takesHdr i = true → ∃ q ps, l.pkts = q :: ps ∧ i.hdr = q.hdr ∧
      i.timestamp = q.timestamp ∧ (i.hdrOnly = true ↔ q.body = []))
    (hread : p.inp.takesData i = true → ∃ d ds, l.data = d :: ds ∧ i.line.read = d) :
    Moves cfg k p i o n l respond := by
  have hresp : o.respVal = true → ∃ t ts, l.resps = t :: ts ∧ o.resp.Shows t := by
    intro hv
    rw [hw.val] at hv
    obtain ⟨x, xs, hx⟩ := List.exists_cons_of_ne_nil (ho.chk.valid hv)
    have hr : p.chk.resp = some x := by simp [ChksumUnit.resp, hv, hx]
    rw [hw.resp x hr]
    exact (ho.chk.resp hr).2
  have hin := ho.inp.moves h0 h1 hhdr hread
  have hout := ho.out.moves u0 u1 hresp
  have htakes : p.out.takes o = true → o.respVal = true := fun ht => (Bool.and_eq_true_iff.mp ht).1
  have hcmd : ∀ x ∈ (if p.inp.takesHdr i then some k else none), x = k ∧ p.chk.transferIn = false := by
    intro x hx
    split_ifs at hx with ht
    · exact ⟨(Option.mem_some_iff.mp hx).symm, takesHdr_idle hw ht⟩
    · cases hx
  have hchk := ho.chk.step hk.enable hk.offset hk.place respond hcmd
    (fun x hx => ⟨sent_busy hw hx, hin.sent x hx⟩) (fun ht => hw.val ▸ htakes ht)
  have hbusy : (p.next cfg k i o respond).chk.transferIn =
      (p.inp.takesHdr i || (p.chk.transferIn && !(p.inp.sent i).any AxisLine.last)) := by
    simp only [next, ChksumUnit.step]
    split_ifs with ht <;> simp [ht]
  refine ⟨⟨?_, hchk, hout.owes⟩, ?_, ?_, hout.hdr, hout.data⟩
  · rw [hbusy]
    exact hin.owes
  · intro hs
    obtain ⟨x, hx⟩ := Option.isSome_iff_exists.mp hs
    obtain ⟨t, ts, ht, -⟩ := hin.sent x hx
    simp [ht]
  · intro ht
    obtain ⟨t, ts, hts, -⟩ := hresp (htakes ht)
    simp [hts]

/-- The header of the packet in hand is owed before those of the packets not begun. -/
theorem Owes.length_hdrs {n : Nat} {l : PathLists h u} (ho : p.Owes cfg k n l) :
    l.hdrs.length = l.waiting.length + p.out.hdrVal.toNat := by
  have howes : ∀ hd, OutputCtrl.HdrOwes p.out hd → hd.length = p.out.hdrVal.toNat := by
    rintro hd (⟨hs, rfl⟩ | ⟨hs, rfl⟩)
    · have hv : p.out.hdrVal = true := by simp [OutputCtrl.hdrVal, hs]
      simp [hv]
    · have hv : p.out.hdrVal = false := by simp [OutputCtrl.hdrVal, hs]
      simp [hv]
  cases ho.out with
  | ready hps hst hh ht hhs =>
    have hv : p.out.hdrVal = false := by simp [OutputCtrl.hdrVal, hh]
    simp [hhs, hv]
  | output hps hd user rest hst hh hr hb ht hhs => simp [hhs, howes hd hh, Nat.add_comm]
  | outputLast hps hd hst hh h0 hb ht hhs => simp [hhs, howes hd hh, Nat.add_comm]
  | waitTxFin hps hd hst hh ht hhs => simp [hhs, howes hd hh, Nat.add_comm]

/-- All frames are sealed one after the other. -/
theorem sealAll_toks {α : Type} {m n j : Nat} (f : α → ChkPkt m) (g : α → ChkPkt n) (xs : List α)
    (hj : j + 1 < 64) (hm : 0 < m) (ht : ∀ x, (g x).timestamp = (f x).timestamp)
    (hf : ∀ x, (g x).frame = sealed j (f x).frame) :
    sealAll j [] ((xs.map f).flatMap ChkPkt.toks) = (xs.map g).flatMap ChkPkt.toks := by
  induction xs with
  | nil => rfl
  | cons x xs ih =>
    have hlen : 0 < (f x).frame.length := by
      rw [ChkPkt.frame, List.length_append, length_lineBytes]
      omega
    rw [List.map_cons, List.flatMap_cons, ChkPkt.toks, sealAll_frame _ _ _ _ hlen, List.nil_append,
      sealToks_frame _ hj hlen, ih, List.map_cons, List.flatMap_cons, ChkPkt.toks, ht x, hf x]

/-! ### Progress -/

/-- A packet that was begun has to be finished. -/
def unfinished (r : OutputCtrl u) : Nat := if r.state = .ready then 0 else 1

/-- What is left to do in a path. A line of the unit is first presented and then taken, and may
begin a packet that has to be finished. -/
def work (p : ChksumPath h u) (l : PathLists h u) : Nat :=
  l.pkts.length + l.data.length + l.reqs.length + 3 * l.resps.length + l.hdrs.length +
    l.lines.length + (!p.chk.valid).toNat + unfinished p.out

/-- How much moves in a cycle: headers and lines into the path, lines into and out of the unit,
headers and lines out of the path. The unit may present a line and the output controller may finish
a packet. -/
def moved (p : ChksumPath h u) (i : InputWires h) (o : OutputWires) (respond : Bool) : Nat :=
  (p.inp.takesHdr i).toNat + (p.inp.takesData i).toNat + (p.inp.sent i).isSome.toNat +
    (p.out.takes o).toNat + (p.out.givesHdr o).toNat + (p.out.gives o).toNat +
    (!p.chk.valid && (respond && !p.chk.out.isEmpty)).toNat + p.out.finishes.toNat

/-- The output controller begins a packet, or finishes one. -/
theorem unfinished_step (r : OutputCtrl u) (cfg : OutputCfg) (o : OutputWires) :
    unfinished (r.next cfg o) + r.finishes.toNat ≤ unfinished r + (r.begins o).toNat := by
  have hle : unfinished (r.next cfg o) ≤ 1 := by
    unfold unfinished
    split_ifs <;> omega
  by_cases hst : r.state = .ready
  · have hfin : r.finishes = false := by simp [OutputCtrl.finishes, hst]
    cases hv : o.respVal with
    | true =>
      have hbeg : r.begins o = true := by simp [OutputCtrl.begins, hst, hv]
      simpa [unfinished, hfin, hbeg, hst] using hle
    | false => simp [unfinished, hfin, OutputCtrl.next, OutputCtrl.stateNext, hst, hv]
  · cases hfin : r.finishes with
    | false =>
      simp only [unfinished, if_neg hst, Bool.toNat_false] at hle ⊢
      omega
    | true =>
      obtain ⟨hw, hh⟩ := Bool.and_eq_true_iff.mp hfin
      have hnext : (r.next cfg o).state = .ready := by
        simp [OutputCtrl.next, OutputCtrl.stateNext, eq_of_beq hw, eq_of_beq hh]
      simp [unfinished, hnext, hst]

theorem begins_takes {r : OutputCtrl u} {o : OutputWires} :
    (r.begins o).toNat ≤ (r.takes o).toNat := by
  cases hb : r.begins o with
  | false => simp
  | true =>
    obtain ⟨hst, hv⟩ := Bool.and_eq_true_iff.mp hb
    have htake : r.takes o = true := by
      simp [OutputCtrl.takes, OutputCtrl.respRdy, eq_of_beq hst, hv]
    simp [htake]

/-- Everything that moves lowers the work. -/
theorem Moves.work_le {n : Nat} {l : PathLists h u} {respond : Bool}
    (hm : Moves cfg k p i o n l respond) (hw : Wired p i o)
    (hpkts : p.inp.takesHdr i = true → l.pkts ≠ [])
    (hdata : p.inp.takesData i = true → l.data ≠ []) :
    (p.next cfg k i o respond).work (p.left i o l) + p.moved i o respond ≤ p.work l := by
  have hhdr : p.out.givesHdr o = true → l.hdrs ≠ [] := by
    intro hg
    obtain ⟨-, hs, hhs⟩ := hm.hdr (Bool.and_eq_true_iff.mp hg).1
    simp [hhs]
  have hlines : p.out.gives o = true → l.lines ≠ [] := by
    intro hg
    obtain ⟨ds, hds⟩ := hm.data hg
    simp [hds]
  have h1 := length_tail_if hpkts
  have h2 := length_tail_if hdata
  have h3 := length_tail_if hm.reqs
  have h4 := length_tail_if hm.resps
  have h5 := length_tail_if hhdr
  have h6 := length_tail_if hlines
  have h7 := ChksumUnit.valid_step (c := p.chk) (if p.inp.takesHdr i then some k else none) (p.inp.sent i)
    respond (fun ht : p.out.takes o = true => hw.val ▸ (Bool.and_eq_true_iff.mp ht).1)
  have h8 := unfinished_step p.out cfg o
  have h9 := begins_takes (r := p.out) (o := o)
  simp only [work, moved, left, next]
  omega

/-- Where nothing moves, every stage stays in its state. -/
structure Still (p q : ChksumPath h u) : Prop where
  inp : q.inp.state = p.inp.state
  out : q.out.state = p.out.state
  hdr : q.out.hdrState = p.out.hdrState
  lines : q.chk.out = p.chk.out
  valid : q.chk.valid = p.chk.valid

theorem still {respond : Bool} (hz : p.moved i o respond = 0) (hdrain : p.out.state ≠ .drain) :
    Still p (p.next cfg k i o respond) := by
  simp only [moved, Nat.add_eq_zero_iff, Bool.toNat_eq_zero] at hz
  obtain ⟨⟨⟨⟨⟨⟨⟨hhdr, hdata⟩, hsent⟩, htakes⟩, hghdr⟩, hgives⟩, hrise⟩, hfin⟩ := hz
  have hnone : p.inp.sent i = none := by simpa using hsent
  have hbeg : p.out.begins o = false := by
    have hle := begins_takes (r := p.out) (o := o)
    rw [htakes] at hle
    simpa using hle
  refine ⟨?_, ?_, ?_, ?_, ?_⟩
  · cases hs : p.inp.state with
    | ready => simp [next, InputCtrl.next, InputCtrl.stateNext, hs, hhdr]
    | chksumDataInput => simp [next, InputCtrl.next, InputCtrl.stateNext, hs, hdata]
    | chksumDataLast =>
      have hq : i.reqRdy = false := by
        cases hq : i.reqRdy with
        | false => rfl
        | true => simp [InputCtrl.sent, InputCtrl.req, hq, hs] at hnone
      simp [next, InputCtrl.next, InputCtrl.stateNext, hs, hq]
  · cases hs : p.out.state with
    | ready =>
      have hv : o.respVal = false := by simpa [OutputCtrl.begins, hs] using hbeg
      simp [next, OutputCtrl.next, OutputCtrl.stateNext, hs, hv]
    | output => simp [next, OutputCtrl.next, OutputCtrl.stateNext, hs, hgives]
    | outputLast =>
      have hr : o.dataRdy = false := by simpa [OutputCtrl.gives, OutputCtrl.dataVal, hs] using hgives
      simp [next, OutputCtrl.next, OutputCtrl.stateNext, hs, hr]
    | drain => exact absurd hs hdrain
    | waitTxFin =>
      have hh : p.out.hdrState ≠ .waitTxFin := by simpa [OutputCtrl.finishes, hs] using hfin
      simp [next, OutputCtrl.next, OutputCtrl.stateNext, hs, hh]
  · cases hs : p.out.hdrState with
    | waiting => simp [next, OutputCtrl.next, OutputCtrl.hdrStateNext, hs, hbeg]
    | output =>
      have hr : o.hdrRdy = false := by simpa [OutputCtrl.givesHdr, OutputCtrl.hdrVal, hs] using hghdr
      simp [next, OutputCtrl.next, OutputCtrl.hdrStateNext, hs, hr]
    | waitTxFin =>
      have hh : p.out.state ≠ .waitTxFin := by simpa [OutputCtrl.finishes, hs] using hfin
      simp [next, OutputCtrl.next, OutputCtrl.hdrStateNext, hs, hh]
  · show (p.chk.step _ (p.inp.sent i) (p.out.takes o) respond).out = _
    rw [hnone, htakes]
    exact (ChksumUnit.still _ hrise).1
  · show (p.chk.step _ (p.inp.sent i) (p.out.takes o) respond).valid = _
    rw [hnone, htakes]
    exact (ChksumUnit.still _ hrise).2

/-! ### What a path waits for -/

/-- The output controller waits for a line and the unit has none. -/
def Starved (p : ChksumPath h u) : Prop :=
  (p.out.state = .ready ∨ p.out.state = .output) ∧ p.chk.out = []

theorem toks_ne_nil {n : Nat} (q : ChkPkt n) (hn : 0 < n) : q.toks ≠ [] := by
  have hlen : 0 < q.frame.length := by
    rw [ChkPkt.frame, List.length_append, length_lineBytes]
    omega
  simp [ChkPkt.toks, frameToks, beats_ne_nil, hlen]

theorem flatMap_toks_eq_nil {n : Nat} {qs : List (ChkPkt n)} (hn : 0 < n)
    (h : qs.flatMap ChkPkt.toks = []) : qs = [] := by
  cases qs with
  | nil => rfl
  | cons q qs =>
    rw [List.flatMap_cons] at h
    exact absurd (List.append_eq_nil_iff.mp h).1 (toks_ne_nil q hn)

/-- The output controller is never draining. -/
theorem Owes.not_drain {n : Nat} {l : PathLists h u} (ho : p.Owes cfg k n l) :
    p.out.state ≠ .drain := by
  cases ho.out with
  | ready hps hst => simp [hst]
  | output hps hd user rest hst => simp [hst]
  | outputLast hps hd hst => simp [hst]
  | waitTxFin hps hd hst => simp [hst]

/-- A starved path with no packets to come has given out everything. -/
theorem Owes.drained {n : Nat} {l : PathLists h u} (ho : p.Owes cfg k n l) (hs : p.Starved)
    (hi : p.inp.state = .ready) (hp : l.pkts = []) (hu : 0 < u) :
    l.data = [] ∧ l.hdrs = [] ∧ l.lines = [] := by
  have hin : p.chk.transferIn = false ∧ l.data = [] ∧ l.reqs = [] := by
    cases ho.inp with
    | ready hst hb hd ht => exact ⟨hb, by simpa [hp] using hd, by simpa [hp] using ht⟩
    | dataInput rest hst => simp [hi] at hst
    | dataLast hst => simp [hi] at hst
  obtain ⟨hidle, hdata, hreqs⟩ := hin
  have hresps : l.resps = [] := by
    obtain ⟨fr, os, hfr, hos, hout⟩ := ho.chk.lines
    rw [hs.2, List.forall₂_nil_left_iff] at hos
    rw [hout, hos, hreqs]
    rfl
  refine ⟨hdata, ?_⟩
  cases ho.out with
  | ready hps hst hh ht hhs hd =>
    have hnone : l.waiting = [] := flatMap_toks_eq_nil hu (ht.symm.trans hresps)
    simp [hhs, hd, hnone]
  | output hps hd user rest hst hh hr hb ht =>
    have hne : frameToks user rest ≠ [] := by
      simp [frameToks, beats_ne_nil, hr]
    rw [hresps] at ht
    exact absurd (List.append_eq_nil_iff.mp ht.symm).1 hne
  | outputLast hps hd hst => simp [Starved, hst] at hs
  | waitTxFin hps hd hst => simp [Starved, hst] at hs

/-- Any of these is a move. -/
theorem moved_pos {respond : Bool} (hm : p.inp.takesHdr i = true ∨ (p.inp.sent i).isSome = true ∨
    p.out.takes o = true ∨ p.out.givesHdr o = true ∨ p.out.gives o = true ∨ p.out.finishes = true ∨
    (!p.chk.valid && (respond && !p.chk.out.isEmpty)) = true) : 0 < p.moved i o respond := by
  rcases hm with h | h | h | h | h | h | h <;> simp only [moved, h, Bool.toNat_true] <;> omega

/-- The unit has a line and does not present it. -/
def Awaiting (p : ChksumPath h u) : Prop := p.chk.out ≠ [] ∧ p.chk.valid = false

/-- A packet is finished, or the first line of a packet is taken, whatever the surroundings do. -/
def Stirs (p : ChksumPath h u) : Prop :=
  p.out.finishes = true ∨ p.out.state = .ready ∧ p.chk.valid = true

/-- The path has a line to give out. -/
def HasLine (p : ChksumPath h u) : Prop :=
  p.out.state = .outputLast ∨ p.out.state = .output ∧ p.chk.valid = true

theorem Stirs.moves (hs : p.Stirs) (hw : Wired p i o) (respond : Bool) :
    0 < p.moved i o respond := by
  rcases hs with hf | ⟨hs, hv⟩
  · exact moved_pos (by simp [hf])
  · have ht : p.out.takes o = true := by
      simp [OutputCtrl.takes, OutputCtrl.respRdy, hs, hw.val, hv]
    exact moved_pos (by simp [ht])

theorem HasLine.dataVal (hl : p.HasLine) (hw : Wired p i o) : p.out.dataVal o = true := by
  rcases hl with hs | ⟨hs, hv⟩
  · simp [OutputCtrl.dataVal, hs]
  · simp [OutputCtrl.dataVal, hs, hw.val, hv]

/-- What a path waits for. -/
theorem Owes.waits {n : Nat} {l : PathLists h u} (ho : p.Owes cfg k n l) :
    p.Stirs ∨ p.Awaiting ∨ p.Starved ∨ p.HasLine ∨
      p.out.state = .waitTxFin ∧ p.out.hdrState = .output := by
  have hwant : p.out.state = .ready ∨ p.out.state = .output → p.chk.valid = false →
      p.Awaiting ∨ p.Starved := by
    intro hs hv
    by_cases hout : p.chk.out = []
    · exact .inr ⟨hs, hout⟩
    · exact .inl ⟨hout, hv⟩
  cases ho.out with
  | ready hps hst =>
    cases hv : p.chk.valid with
    | true => exact .inl (.inr ⟨hst, hv⟩)
    | false => exact .inr ((hwant (.inl hst) hv).imp_right .inl)
  | output hps q user rest hst =>
    cases hv : p.chk.valid with
    | true => exact .inr (.inr (.inr (.inl (.inr ⟨hst, hv⟩))))
    | false => exact .inr ((hwant (.inr hst) hv).imp_right .inl)
  | outputLast hps q hst => exact .inr (.inr (.inr (.inl (.inl hst))))
  | waitTxFin hps q hst hq =>
    rcases hq with ⟨hs, -⟩ | ⟨hs, -⟩
    · exact .inr (.inr (.inr (.inr ⟨hst, hs⟩)))
    · exact .inl (.inl (by simp [OutputCtrl.finishes, hst, hs]))

/-- A path with a line to give out owes it before those of the packets not begun. -/
theorem Owes.line_owed {n : Nat} {l : PathLists h u} (ho : p.Owes cfg k n l) (hl : p.HasLine) :
    ∃ d, d ≠ [] ∧ l.lines = d ++ l.waiting.flatMap ChkPkt.lines := by
  cases ho.out with
  | ready hps hst => simp [HasLine, hst] at hl
  | output hps q user rest hst hh hr hb ht hhs hd =>
    refine ⟨_, beats_ne_nil (by decide) ?_, hd⟩
    rw [List.length_append]
    omega
  | outputLast hps q hst hh h0 hb ht hhs hd =>
    refine ⟨_, beats_ne_nil (by decide) ?_, hd⟩
    rw [List.length_take, length_lineBytes]
    omega
  | waitTxFin hps q hst => simp [HasLine, hst] at hl

end ChksumPath

end TcpHw
