import TcpHw.Lib.Ring
import TcpHw.Lib.Trace
import TcpHw.Send.Numbering

/-!
# Segments of the transmit stream

The application appends bytes to a flow's transmit ring and moves the tail pointer. A pass of
`protocol_logic_pipe` reads the tail and the transmit state in stage N and writes the state and
hands over a segment in stage W; in between, the application may append more. Without a
retransmit or timeout flag a pass continues where the previous one stopped, so the segments are
one cut of the appended bytes.
-/
namespace TcpHw.Segmentation

open Trace

set_option autoImplicit false

abbrev Byte := BitVec 8

def noFlags : RtTimeoutFlags := { timeoutPending := false, rtPending := false }

/-- A pass and the tail pointer it has read. -/
structure Pass where
  tailRead : Ptr
  numbered : Numbered

def Pass.seqNum (p : Pass) : BitVec 32 := p.numbered.txPktSeqNum

def Pass.len (p : Pass) : Nat := p.numbered.payloadBuf.payloadLen.toNat

/-- The bytes the pass finds between its sequence number and the tail. -/
def Pass.distance (p : Pass) : Nat := (p.tailRead - p.seqNum.setWidth 13).toNat

/-- A segment with payload is handed to the assembler. -/
def Pass.emits (p : Pass) : Bool := p.numbered.generatePkt && p.len != 0

/-- One flow's transmit entries. `pass` is between its read in stage N and its write in stage
W. The last four fields are not registers: the first sequence number, the passes so far, and
the bytes appended and handed over. -/
structure SendFlow where
  txState : TxState
  tailPtr : Ptr
  ring : BitVec 12 → Byte
  pass : Option Pass
  start : BitVec 32
  passes : List Pass
  appended : List Byte
  sent : List Byte

inductive SendEvent where
  | numberPass (now : BitVec 64)
  | writeBack
  | append (bytes : List Byte)
  | ack (st : TxAckState)

namespace SendFlow

def seqNum (s : SendFlow) : BitVec 32 := s.txState.txCurrSeqNum

/-- `(tail - seq) mod 2^13` -/
def unsent (s : SendFlow) : Nat := (s.tailPtr - s.seqNum.setWidth 13).toNat

/-- The bytes the payload descriptor of a segment stands for. -/
def payload (s : SendFlow) (p : Pass) : List Byte :=
  Ring.slice s.ring (p.numbered.payloadBuf.payloadAddr.setWidth 12) p.len

/-- Stage W; the acknowledgement state has a writer of its own. -/
def written (s : SendFlow) (p : Pass) : SendFlow :=
  { s with
    txState := { p.numbered.nextTxData with txCurrAckState := s.txState.txCurrAckState }
    pass := none
    passes := s.passes ++ [p]
    sent := s.sent ++ if p.emits then s.payload p else [] }

/-- The application stores bytes behind the tail and moves it past them. -/
def appendBytes (s : SendFlow) (bytes : List Byte) : SendFlow :=
  { s with
    tailPtr := s.tailPtr + BitVec.ofNat 13 bytes.length
    ring := Ring.write s.ring (s.tailPtr.setWidth 12) bytes
    appended := s.appended ++ bytes }

def step (s : SendFlow) : SendEvent → Option SendFlow
  | .numberPass now =>
    if s.pass.isNone then
      some
        { s with
          pass := some
            { tailRead := s.tailPtr, numbered := numbering noFlags s.txState s.tailPtr now } }
    else none
  | .writeBack => s.pass.map s.written
  | .append bytes =>
    if s.unsent + bytes.length ≤ ringBytes then some (s.appendBytes bytes) else none
  | .ack st => some { s with txState := { s.txState with txCurrAckState := st } }

/-- Before the first pass: what is already in the ring counts as appended. -/
def Init (s : SendFlow) : Prop :=
  s.unsent ≤ ringBytes ∧ s.pass = none ∧ s.start = s.seqNum ∧ s.passes = [] ∧ s.sent = [] ∧
    s.appended = Ring.slice s.ring (s.seqNum.setWidth 12) s.unsent

end SendFlow

/-- From number `a` to number `b`, each segment begins where the one before ends. -/
def Follow : BitVec 32 → List Pass → BitVec 32 → Prop
  | a, [], b => a = b
  | a, p :: ps, b => p.seqNum = a ∧ Follow (a + BitVec.ofNat 32 p.len) ps b

theorem Follow.snoc {a b : BitVec 32} {ps : List Pass} {p : Pass} (h : Follow a ps b)
    (hp : p.seqNum = b) : Follow a (ps ++ [p]) (b + BitVec.ofNat 32 p.len) := by
  induction ps generalizing a with
  | nil =>
    have hab : a = b := h
    subst hab
    exact ⟨hp, rfl⟩
  | cons q ps ih => exact ⟨h.1, ih h.2⟩

/-- What a segment is allowed to be. -/
structure WellSized (p : Pass) : Prop where
  max : p.len ≤ maxSegSize
  tail : p.len ≤ p.distance
  progress : p.distance ≠ 0 → p.emits = true
  addr : p.numbered.payloadBuf.payloadAddr.toNat = p.seqNum.toNat % 2 ^ 12

/-- The segments tile the stream. -/
structure Tiled (s : SendFlow) : Prop where
  follow : Follow s.start (s.passes.filter Pass.emits) s.seqNum
  sized : ∀ p ∈ s.passes, WellSized p
  bytes : s.sent ++ Ring.slice s.ring (s.seqNum.setWidth 12) s.unsent = s.appended

/-! ### One pass -/

theorem segmentCalculator_pos {trailPtr leadPtr : Ptr} (h : (leadPtr - trailPtr).toNat ≠ 0) :
    0 < (segmentCalculator trailPtr leadPtr).toNat := by
  rw [segmentCalculator_toNat]
  split
  · omega
  · split <;> omega

/-- A pass without a flag starts at the sequence number and moves it by its length. -/
theorem numbering_noFlags (tx : TxState) (tailPtr : Ptr) (now : BitVec 64) :
    (numbering noFlags tx tailPtr now).txPktSeqNum = tx.txCurrSeqNum ∧
      (numbering noFlags tx tailPtr now).nextTxData.txCurrSeqNum = tx.txCurrSeqNum +
        BitVec.ofNat 32 (numbering noFlags tx tailPtr now).payloadBuf.payloadLen.toNat ∧
      WellSized { tailRead := tailPtr, numbered := numbering noFlags tx tailPtr now } := by
  have hseq : passSeqNum noFlags tx = tx.txCurrSeqNum := rfl
  have hlen : (numbering noFlags tx tailPtr now).payloadBuf.payloadLen.toNat =
      (segmentCalculator (tx.txCurrSeqNum.setWidth 13) tailPtr).toNat := by
    have hlt := (segmentCalculator (tx.txCurrSeqNum.setWidth 13) tailPtr).isLt
    show ((segmentCalculator _ _).setWidth 16).toNat = _
    rw [BitVec.toNat_setWidth, Nat.mod_eq_of_lt (by omega), hseq]
  refine ⟨hseq, ?_, ?_, ?_, ?_, ?_⟩
  · rw [hlen]
    show passSeqNum noFlags tx + (segmentCalculator _ _).setWidth 32 = _
    rw [hseq]
    congr 1
    rw [BitVec.ofNat_toNat]
  · show BitVec.toNat _ ≤ _
    rw [hlen]
    exact segmentCalculator_le_max _ _
  · show BitVec.toNat _ ≤ _
    rw [hlen]
    exact segmentCalculator_le _ _
  · intro hd
    have hpos : 0 < (passSegSize noFlags tx tailPtr).toNat := segmentCalculator_pos hd
    have hne : passSegSize noFlags tx tailPtr ≠ 0#13 := by
      intro h0
      simp [h0] at hpos
    have hgen : (numbering noFlags tx tailPtr now).generatePkt = true := by
      simp [numbering, hne]
    have hlen0 : (numbering noFlags tx tailPtr now).payloadBuf.payloadLen.toNat ≠ 0 := by
      rw [hlen]
      exact Nat.ne_of_gt hpos
    simp [Pass.emits, Pass.len, hgen, hlen0]
  · show (((passSeqNum noFlags tx).setWidth 12).setWidth 32).toNat = _
    rw [hseq, BitVec.toNat_setWidth, BitVec.toNat_setWidth]
    exact Nat.mod_eq_of_lt (by omega)

theorem WellSized.len_eq_zero {p : Pass} (h : WellSized p) (he : ¬ p.emits = true) :
    p.len = 0 := by
  have hd : p.distance = 0 := by
    by_contra hne
    exact he (h.progress hne)
  have hle := h.tail
  omega

/-! ### Runs -/

/-- What a run keeps: the tiling, the room in the ring, and the pass in flight, which was
numbered with the sequence number still stored and a tail not past the present one. -/
structure Tiling (s : SendFlow) : Prop extends Tiled s where
  room : s.unsent ≤ ringBytes
  flight : ∀ p ∈ s.pass, p.seqNum = s.seqNum ∧
    p.numbered.nextTxData.txCurrSeqNum = s.seqNum + BitVec.ofNat 32 p.len ∧
    WellSized p ∧ p.distance ≤ s.unsent

theorem tiling_numberPass {s : SendFlow} (h : Tiling s) (now : BitVec 64) :
    Tiling { s with
      pass := some { tailRead := s.tailPtr, numbered := numbering noFlags s.txState s.tailPtr now } }
    := by
  refine ⟨⟨h.follow, h.sized, h.bytes⟩, h.room, ?_⟩
  rintro p ⟨⟩
  obtain ⟨hseq, hnext, hsize⟩ := numbering_noFlags s.txState s.tailPtr now
  exact ⟨hseq, hnext, hsize, Nat.le_refl _⟩

/-- The unsent bytes after a segment of `n` of them. -/
theorem unsent_sub {tailPtr : Ptr} {seq : BitVec 32} {n : Nat}
    (h : n ≤ (tailPtr - seq.setWidth 13).toNat) :
    (tailPtr - (seq + BitVec.ofNat 32 n).setWidth 13).toNat =
      (tailPtr - seq.setWidth 13).toNat - n := by
  bv_omega

theorem tiling_written {s : SendFlow} (h : Tiling s) {p : Pass} (hp : s.pass = some p) :
    Tiling (s.written p) := by
  obtain ⟨hseq, hnext, hsize, hdist⟩ := h.flight p hp
  have hle : p.len ≤ s.unsent := Nat.le_trans hsize.tail hdist
  have hseq' : (s.written p).seqNum = s.seqNum + BitVec.ofNat 32 p.len := hnext
  have hun : (s.written p).unsent = s.unsent - p.len := by
    show (s.tailPtr - (s.written p).seqNum.setWidth 13).toNat = _
    rw [hseq']
    exact unsent_sub hle
  have haddr : p.numbered.payloadBuf.payloadAddr.setWidth 12 = s.seqNum.setWidth 12 := by
    have ha := hsize.addr
    rw [hseq] at ha
    bv_omega
  have hsent : (s.written p).sent =
      s.sent ++ Ring.slice s.ring (s.seqNum.setWidth 12) p.len := by
    show s.sent ++ (if p.emits then s.payload p else []) = _
    unfold SendFlow.payload
    rw [haddr]
    split
    · rfl
    · rename_i he
      simp [hsize.len_eq_zero he]
  refine ⟨⟨?_, ?_, ?_⟩, ?_, by simp [SendFlow.written]⟩
  · show Follow s.start ((s.passes ++ [p]).filter Pass.emits) _
    rw [List.filter_append, hseq']
    by_cases he : p.emits = true
    · simp only [List.filter_cons, he, if_true, List.filter_nil]
      exact h.follow.snoc hseq
    · simp only [List.filter_cons, he, List.filter_nil, hsize.len_eq_zero he]
      simpa using h.follow
  · intro q hq
    rcases List.mem_append.mp hq with hq | hq
    · exact h.sized q hq
    · rw [List.mem_singleton.mp hq]
      exact hsize
  · rw [hsent, hun, hseq', List.append_assoc]
    have hwidth : (s.seqNum + BitVec.ofNat 32 p.len).setWidth 12 =
        s.seqNum.setWidth 12 + BitVec.ofNat 12 p.len := by
      rw [BitVec.setWidth_add _ _ (by decide), BitVec.setWidth_ofNat_of_le (by decide)]
    show s.sent ++ (_ ++ Ring.slice s.ring _ _) = s.appended
    rw [hwidth, ← Ring.slice_add, Nat.add_sub_cancel' hle]
    exact h.bytes
  · rw [hun]
    exact Nat.le_trans (Nat.sub_le _ _) h.room

theorem tiling_append {s : SendFlow} (h : Tiling s) {bytes : List Byte}
    (hroom : s.unsent + bytes.length ≤ ringBytes) : Tiling (s.appendBytes bytes) := by
  have hun : (s.appendBytes bytes).unsent = s.unsent + bytes.length := by
    show (s.tailPtr + BitVec.ofNat 13 bytes.length - s.seqNum.setWidth 13).toNat = _
    simp only [ringBytes] at hroom
    unfold SendFlow.unsent at hroom ⊢
    bv_omega
  -- the tail's cell is the one behind the unsent bytes
  have htail : s.tailPtr.setWidth 12 = s.seqNum.setWidth 12 + BitVec.ofNat 12 s.unsent := by
    unfold SendFlow.unsent
    bv_omega
  refine ⟨⟨h.follow, h.sized, ?_⟩, by omega, ?_⟩
  · rw [hun]
    show s.sent ++ Ring.slice (Ring.write s.ring (s.tailPtr.setWidth 12) bytes)
      (s.seqNum.setWidth 12) _ = s.appended ++ bytes
    rw [htail, Ring.slice_write _ _ _ hroom, ← List.append_assoc, h.bytes]
  · intro p hp
    obtain ⟨hseq, hnext, hsize, hdist⟩ := h.flight p hp
    exact ⟨hseq, hnext, hsize, by omega⟩

theorem tiling_step {s s' : SendFlow} {e : SendEvent} (h : Tiling s) (hs : s.step e = some s') :
    Tiling s' := by
  cases e with
  | numberPass now =>
    simp only [SendFlow.step, Option.ite_none_right_eq_some, Option.some.injEq] at hs
    obtain ⟨-, rfl⟩ := hs
    exact tiling_numberPass h now
  | writeBack =>
    obtain ⟨p, hp, rfl⟩ := Option.map_eq_some_iff.mp hs
    exact tiling_written h hp
  | append bytes =>
    simp only [SendFlow.step, Option.ite_none_right_eq_some, Option.some.injEq] at hs
    obtain ⟨hroom, rfl⟩ := hs
    exact tiling_append h hroom
  | ack st =>
    cases hs
    exact ⟨⟨h.follow, h.sized, h.bytes⟩, h.room, h.flight⟩

theorem tiling_init {s : SendFlow} (h : s.Init) : Tiling s := by
  obtain ⟨hroom, hpass, hstart, hnone, hsent, happ⟩ := h
  refine ⟨⟨?_, by simp [hnone], ?_⟩, hroom, by simp [hpass]⟩
  · rw [hnone]
    exact hstart
  · rw [hsent, happ]
    rfl

/-- In every run the segments with payload follow one another, each within its bounds and at the
ring address of its number, and with what is still unsent they are the appended bytes. -/
theorem segments_tile {s : SendFlow} (h : Reach SendFlow.Init SendFlow.step Free s) : Tiled s := by
  have hinv : Tiling s := h.invariant (fun _ => tiling_init) fun _ _ _ ht _ hs => tiling_step ht hs
  exact hinv.toTiled

/-- A flow just before the end of the number circle. -/
def atWrap : SendFlow where
  txState := { (default : TxState) with txCurrSeqNum := 0xFFFFFFF0#32 }
  tailPtr := 0x1FF0#13
  ring _ := 0
  pass := none
  start := 0xFFFFFFF0#32
  passes := []
  appended := []
  sent := []

/-- Seventy bytes across the wrap, forty of them appended while a pass is in flight. -/
theorem segments_tile_wrap : ∃ s, Reach SendFlow.Init SendFlow.step Free s ∧
    (s.passes.map Pass.len = [30, 32, 8] ∧ s.seqNum = 54) ∧ Tiled s := by
  have hrun : ∃ s, Reach SendFlow.Init SendFlow.step Free s ∧
      decide (s.passes.map Pass.len = [30, 32, 8] ∧ s.seqNum = 54) = true :=
    Reach.exists_of_run [.append (List.replicate 30 1), .numberPass 0,
      .append (List.replicate 40 2), .writeBack, .numberPass 0, .writeBack, .numberPass 0,
      .writeBack] (s := atWrap) (by unfold SendFlow.Init; decide) (by decide +kernel)
  obtain ⟨s, hr, hp⟩ := hrun
  exact ⟨s, hr, decide_eq_true_iff.mp hp, segments_tile hr⟩

end TcpHw.Segmentation
