import TcpHw.Common.RdCircBufNew

/-!
# `rd_circ_buf_new` delivers exactly the bytes of the ring

The position in the read is the number of bytes handed over. The upper register starts with the
byte at the position, its padding apart, and the lower one goes on behind it; a line of a response
is placed by the position of the request it belongs to.
-/
namespace TcpHw

open Bytes Trace

set_option autoImplicit false

namespace RdReq

variable {W : Nat} {r : RdReq}

/-- The read goes around the end of the ring at most once. -/
def Fits (W : Nat) (r : RdReq) : Prop :=
  r.offset < 2 ^ W ∧ 0 < r.size ∧ r.offset + r.size ≤ 2 * 2 ^ W

instance (W : Nat) : DecidablePred (Fits W) := by
  unfold Fits
  infer_instance

theorem Valid.fits (h : r.Valid W) : r.Fits W := by
  obtain ⟨ho, h0, hs⟩ := h
  exact ⟨ho, h0, by omega⟩

/-- Bytes up to the end of the ring. -/
def firstSize (W : Nat) (r : RdReq) : Nat := min (2 ^ W - r.offset) r.size

/-- The read reaches over the end of the ring. -/
def wraps (W : Nat) (r : RdReq) : Bool := decide (2 ^ W - r.offset < r.size)

/-- The request to the memory, before the wrap and behind it. -/
def part (W : Nat) (r : RdReq) : Bool → MemReq
  | false => ⟨r.flowid.val * 2 ^ W + r.offset, r.firstSize W⟩
  | true => ⟨r.flowid.val * 2 ^ W, r.size - r.firstSize W⟩

/-- Where the part starts in the read. -/
def partBase (W : Nat) (r : RdReq) : Bool → Nat
  | false => 0
  | true => r.firstSize W

theorem firstSize_lt (h : r.wraps W = true) : r.firstSize W < r.size ∧
    r.firstSize W = 2 ^ W - r.offset := by
  simp only [wraps, decide_eq_true_eq] at h
  unfold firstSize
  omega

theorem firstSize_eq (h : r.wraps W = false) : r.firstSize W = r.size := by
  simp only [wraps, decide_eq_false_iff_not] at h
  unfold firstSize
  omega

theorem firstSize_pos (h : r.Fits W) : 0 < r.firstSize W := by
  obtain ⟨ho, h0, -⟩ := h
  unfold firstSize
  omega

theorem part_small (hW : W < 28) (h : r.Fits W) (w : Bool) : (r.part W w).memReqSize ≤ 2 ^ 27 := by
  have hp : 2 ^ W ≤ 2 ^ 27 := Nat.pow_le_pow_right (by decide) (by omega)
  obtain ⟨-, -, hs⟩ := h
  cases w <;> simp only [part, firstSize] <;> omega

/-- The bytes of a part are those of the read from its start on. -/
theorem part_byte (mem : Memory) (h : r.Fits W) {w : Bool} (hw : w = true → r.wraps W = true) {k : Nat}
    (hk : k < (r.part W w).memReqSize) :
    mem ((r.part W w).memReqAddr + k) = r.ring W mem (r.partBase W w + k) := by
  obtain ⟨ho, -, hs⟩ := h
  unfold ring
  cases w with
  | false =>
    have hlt : r.offset + k < 2 ^ W := by
      simp only [part, firstSize] at hk
      omega
    simp only [part, partBase, ringAddr, Nat.zero_add, Nat.mod_eq_of_lt hlt, Nat.add_assoc]
  | true =>
    obtain ⟨-, hq⟩ := firstSize_lt (hw rfl)
    have he : r.offset + (r.firstSize W + k) = k + 2 ^ W := by omega
    have hlt : k < 2 ^ W := by
      simp only [part] at hk
      omega
    simp only [part, partBase, ringAddr, he, Nat.add_mod_right, Nat.mod_eq_of_lt hlt]

end RdReq

namespace RdCircBufNew

/-- `shift_bytes_reg` once it is used. -/
def shift (b : RdCircBufNew) : Nat := if b.useShift then b.shiftBytes else 0

theorem memDataShiftBits_eq (b : RdCircBufNew) : b.memDataShiftBits = 8 * b.shift := by
  unfold memDataShiftBits shift
  split <;> rfl

variable {b : RdCircBufNew} {R : Nat → BitVec 8} {pos n : Nat}

/-- The first `n` bytes behind `pos` are in the two registers. -/
structure Holds (b : RdCircBufNew) (R : Nat → BitVec 8) (pos n : Nat) : Prop where
  shift_lt : b.shift < 64
  upper : ∀ j, j < 64 - b.shift → j < n → byte b.shiftUpper j = R (pos + j)
  lower : ∀ j < 64, 64 - b.shift + j < n → byte b.shiftLower j = R (pos + (64 - b.shift + j))

/-- The line offered starts with the bytes behind `pos`. -/
theorem Holds.respData (h : Holds b R pos n) {k : Nat} (hk : k < 64) (hn : k < n) :
    byte b.respData k = R (pos + k) := by
  have hs := h.shift_lt
  unfold RdCircBufNew.respData
  rw [memDataShiftBits_eq, byte_upperShl _ _ hs.le hk]
  split
  · rename_i hlt
    rw [shiftUpperData, memDataShiftBits_eq, byte_ushiftRight _ hlt, h.upper k (by omega) hn]
  · rw [h.lower _ (by omega) (by omega)]
    congr 1
    omega

/-- Behind a line handed over, the upper register goes on with what the line left of the lower
one. -/
theorem Holds.shifted (h : Holds b R pos n) {j : Nat} (hj : j < 64 - b.shift) (hn : 64 + j < n) :
    byte (lowerShl b.shiftUpperData b.shiftLower b.memDataShiftBits) j = R (pos + 64 + j) := by
  have hs := h.shift_lt
  rw [memDataShiftBits_eq, byte_lowerShl _ _ (by omega), h.lower _ (by omega) (by omega)]
  congr 1
  omega

end RdCircBufNew

/-! ### The phases of a request -/

namespace RdNew

variable {W : Nat} {mem : Memory} {s : RdSystem RdCircBufNew} {i : RdIn} {pos : Nat}

/-- The read stands at byte `pos`. -/
structure Reading (W : Nat) (mem : Memory) (b : RdCircBufNew) (r : RdReq) (out : List RdOut)
    (pos : Nat) : Prop where
  valid : r.Fits W
  begun : r.Begun W mem out pos
  left : b.bytesLeftOut = r.size - pos

/-- The registers a request behind the wrap is made from. -/
structure WrapRegs (W : Nat) (b : RdCircBufNew) (r : RdReq) : Prop where
  flowid : b.reqFlowid = r.flowid
  offset : b.currOffset = (r.offset + r.firstSize W) % 2 ^ W
  remain : b.bytesRemain = r.size - r.firstSize W

structure WaitResp (W : Nat) (mem : Memory) (s : RdSystem RdCircBufNew) : Prop where
  state : s.core.state = .waitResp
  reading : Reading W mem s.core s.job s.out 0
  serving : RdServing s.noc s.tile (s.job.part W false) 0
  needWrap : s.core.needWrap = s.job.wraps W
  useShift : s.core.useShift = false
  flowid : s.core.reqFlowid = s.job.flowid
  offset : s.core.currOffset = s.job.offset
  remain : s.core.bytesRemain = s.job.size
  memReqReg : s.core.memReqReg = s.job.part W false

structure DataBuffer (W : Nat) (mem : Memory) (s : RdSystem RdCircBufNew) : Prop where
  state : s.core.state = .dataBuffer
  reading : Reading W mem s.core s.job s.out 0
  serving : RdServing s.noc s.tile (s.job.part W false) 1
  needWrap : s.core.needWrap = s.job.wraps W
  useShift : s.core.useShift = false
  regs : WrapRegs W s.core s.job
  lower : ∀ j < 64, byte s.core.shiftLower j = s.job.ring W mem j

/-- Two lines are held and line `c` of part `w` is the next one. -/
structure DataOutput (W : Nat) (mem : Memory) (s : RdSystem RdCircBufNew) (w : Bool) (c pos : Nat) :
    Prop where
  state : s.core.state = .dataOutput
  reading : Reading W mem s.core s.job s.out pos
  serving : RdServing s.noc s.tile (s.job.part W w) c
  started : 0 < c
  wrapped : w = true → s.job.wraps W = true
  needWrap : s.core.needWrap = (!w && s.job.wraps W)
  useShift : s.core.useShift = w
  regs : w = false → WrapRegs W s.core s.job
  holds : s.core.Holds (s.job.ring W mem) pos (128 - s.core.shift)
  place : pos + 128 = s.job.partBase W w + 64 * c + s.core.shift

structure DataDrain (W : Nat) (mem : Memory) (s : RdSystem RdCircBufNew) (pos : Nat) : Prop where
  state : s.core.state = .dataDrain
  reading : Reading W mem s.core s.job s.out pos
  idle : RdIdle s.noc s.tile
  holds : s.core.Holds (s.job.ring W mem) pos (s.job.size - pos)
  fits : s.job.size - pos + s.core.shift ≤ 128

structure DataOutForWrap (W : Nat) (mem : Memory) (s : RdSystem RdCircBufNew) (pos : Nat) :
    Prop where
  state : s.core.state = .dataOutForWrap
  reading : Reading W mem s.core s.job s.out pos
  idle : RdIdle s.noc s.tile
  wraps : s.job.wraps W = true
  useShift : s.core.useShift = false
  regs : WrapRegs W s.core s.job
  padbytes : s.core.shiftBytes < 64
  holds : s.core.Holds (s.job.ring W mem) pos (128 - s.core.shiftBytes)
  place : pos + 128 = s.job.firstSize W + s.core.shiftBytes

/-- What is left of the first part, at most a line, is in the upper register. -/
structure Saved (W : Nat) (mem : Memory) (b : RdCircBufNew) (r : RdReq) (out : List RdOut)
    (pos : Nat) : Prop where
  reading : Reading W mem b r out pos
  wraps : r.wraps W = true
  padbytes : b.shiftBytes < 64
  upper : ∀ j < 64 - b.shiftBytes, byte b.shiftUpper j = r.ring W mem (pos + j)
  place : pos + 64 = r.firstSize W + b.shiftBytes

structure WrapReq (W : Nat) (mem : Memory) (s : RdSystem RdCircBufNew) (pos : Nat) : Prop where
  state : s.core.state = .wrapReq
  idle : RdIdle s.noc s.tile
  regs : WrapRegs W s.core s.job
  saved : Saved W mem s.core s.job s.out pos

structure WaitWrapResp (W : Nat) (mem : Memory) (s : RdSystem RdCircBufNew) (pos : Nat) :
    Prop where
  state : s.core.state = .waitWrapResp
  serving : RdServing s.noc s.tile (s.job.part W true) 0
  needWrap : s.core.needWrap = false
  useShift : s.core.useShift = true
  saved : Saved W mem s.core s.job s.out pos

inductive Phase (W : Nat) (mem : Memory) (s : RdSystem RdCircBufNew) : Prop
  | idle (hs : s.core.state = .ready) (h : RdIdle s.noc s.tile)
  | waitResp (h : WaitResp W mem s)
  | dataBuffer (h : DataBuffer W mem s)
  | dataOutput (w : Bool) (c pos : Nat) (h : DataOutput W mem s w c pos)
  | dataDrain (pos : Nat) (h : DataDrain W mem s pos)
  | dataOutForWrap (pos : Nat) (h : DataOutForWrap W mem s pos)
  | wrapReq (pos : Nat) (h : WrapReq W mem s pos)
  | waitWrapResp (pos : Nat) (h : WaitWrapResp W mem s pos)

def work (s : RdSystem RdCircBufNew) : Nat :=
  match s.core.state with
  | .ready => 0
  | .waitResp => 4 * s.core.bytesLeftOut + 6 + s.noc.delay
  | .dataBuffer => 4 * s.core.bytesLeftOut + 2
  | .dataOutput => 4 * s.core.bytesLeftOut + 1
  | .dataDrain => 4 * s.core.bytesLeftOut
  | .dataOutForWrap => 4 * s.core.bytesLeftOut
  | .wrapReq => 4 * s.core.bytesLeftOut + 5
  | .waitWrapResp => 4 * s.core.bytesLeftOut + 2 + s.noc.delay

/-- What one cycle of a request does. -/
def Advances (W : Nat) (mem : Memory) (s : RdSystem RdCircBufNew) (i : RdIn) : Prop :=
  Phase W mem (s.cycle (rdCircBufNew W) i) ∧
    (s.completes (rdCircBufNew W) i = true ∧
        s.job.Exact W mem (s.outStep (rdCircBufNew W) i) ∨
      s.completes (rdCircBufNew W) i = false ∧
        work (s.cycle (rdCircBufNew W) i) + (if s.smooth i then 1 else 0) ≤ work s)

theorem busy (hb : s.core.state ≠ .ready) : (rdCircBufNew W).idle s.core = false := by
  simpa [rdCircBufNew] using hb

theorem cycle_job (hb : s.core.state ≠ .ready) : (s.cycle (rdCircBufNew W) i).job = s.job :=
  RdSystem.cycle_job (busy hb)

theorem cycle_out (hb : s.core.state ≠ .ready) : (s.cycle (rdCircBufNew W) i).out = s.out ++
    (if i.dataRdy then (s.core.out (s.signals (rdCircBufNew W) i)).toList else []) :=
  RdSystem.cycle_out (busy hb)

theorem not_completes (hs : (s.cycle (rdCircBufNew W) i).core.state ≠ .ready) :
    s.completes (rdCircBufNew W) i = false :=
  RdSystem.not_completes (busy hs)

/-- A cycle in which the reader waits, because something is missing. -/
theorem advances_stay (hne : s.core.state ≠ .ready)
    (hcore : (s.cycle (rdCircBufNew W) i).core = s.core) (ho : (s.cycle (rdCircBufNew W) i).out = s.out)
    (hp : Phase W mem { s.cycle (rdCircBufNew W) i with core := s.core, job := s.job, out := s.out })
    (hwork : work (s.cycle (rdCircBufNew W) i) = work s) (hs : ¬ s.smooth i = true) :
    Advances W mem s i := by
  refine ⟨?_, .inr ⟨not_completes (by rw [hcore]; exact hne), ?_⟩⟩
  · rw [RdSystem.cycle_eq hcore (cycle_job hne) ho]
    exact hp
  · rw [if_neg hs, hwork]
    exact Nat.le_refl _

/-- A cycle without a signal to the datapath changes no register. -/
theorem step_stay {b : RdCircBufNew} {g : RdSignals} (hs : b.state ≠ .ready)
    (hc : b.ctl W g = { state := b.state, needWrap := b.needWrap, useShift := b.useShift })
    (hu : b.updateReqState g = false) : b.step W g = b := by
  have hf : b.storeReqState = false := by simpa [RdCircBufNew.storeReqState] using hs
  simp [RdCircBufNew.step, hc, hf, RdCircBufNew.reqFlowidNext, RdCircBufNew.bytesRemainNext,
    RdCircBufNew.currOffsetNext, hu]

theorem cycle_core : (s.cycle (rdCircBufNew W) i).core =
    s.core.step W (s.signals (rdCircBufNew W) i) := rfl

/-- The registers behind the first line of the first part. -/
theorem WaitResp.wrapRegs (hW : W < 28) (h : WaitResp W mem s)
    (hv : s.noc.respVal i.toNocIn = true) :
    WrapRegs W (s.cycle (rdCircBufNew W) i).core s.job := by
  have hp : 2 ^ W ≤ 2 ^ 27 := Nat.pow_le_pow_right (by decide) (by omega)
  have hz := h.reading.valid.2.2
  have hq : s.job.firstSize W ≤ s.job.size := Nat.min_le_right _ _
  have hu : s.core.updateReqState (s.signals (rdCircBufNew W) i) = true := by
    simp [RdCircBufNew.updateReqState, h.state, RdSystem.signals, hv]
  have hf : s.core.storeReqState = false := by simp [RdCircBufNew.storeReqState, h.state]
  have hr : s.core.memReqReg.memReqSize = s.job.firstSize W := by rw [h.memReqReg]; rfl
  have hm : (s.job.size + 2 ^ 30 - s.job.firstSize W) % 2 ^ 30 =
      s.job.size - s.job.firstSize W := by omega
  rw [cycle_core]
  refine ⟨?_, ?_, ?_⟩ <;> simp only [RdCircBufNew.step]
  · simp [RdCircBufNew.reqFlowidNext, hf, h.flowid]
  · simp [RdCircBufNew.currOffsetNext, hf, hu, h.offset, hr]
  · simp only [RdCircBufNew.bytesRemainNext, hf, hu, h.remain, hr, hm, if_true,
      Bool.false_eq_true, if_false]

theorem Reading.same {b b' : RdCircBufNew} {r : RdReq} {out : List RdOut}
    (h : Reading W mem b r out pos) (hl : b'.bytesLeftOut = b.bytesLeftOut) :
    Reading W mem b' r out pos := ⟨h.valid, h.begun, hl.trans h.left⟩

/-- A full line is handed over. -/
theorem Reading.push (hW : W < 28) {b b' : RdCircBufNew} {r : RdReq} {out : List RdOut}
    (h : Reading W mem b r out pos) (hmore : pos + 64 < r.size)
    (hd : ∀ k < 64, byte b.respData k = r.ring W mem (pos + k))
    (hl : b'.bytesLeftOut = (b.bytesLeftOut + 2 ^ 30 - 64) % 2 ^ 30) :
    Reading W mem b' r (out ++ [⟨b.respData, false, 0⟩]) (pos + 64) := by
  have hp : 2 ^ W ≤ 2 ^ 27 := Nat.pow_le_pow_right (by decide) (by omega)
  have hz := h.valid.2.2
  refine ⟨h.valid, h.begun.push hmore hd, ?_⟩
  rw [hl, h.left]
  omega

theorem Reading.not_last {b : RdCircBufNew} {r : RdReq} {out : List RdOut}
    (h : Reading W mem b r out pos) (hmore : pos + 64 < r.size) :
    b.lastDataOut = false ∧ b.respDataPadbytes = 0 := by
  have hl : b.lastDataOut = false := by
    simp only [RdCircBufNew.lastDataOut, h.left, decide_eq_false_iff_not]
    omega
  exact ⟨hl, by simp [RdCircBufNew.respDataPadbytes, hl]⟩

/-- A part ends within the read, and at its end if no other part follows. -/
theorem part_end {r : RdReq} {w : Bool} :
    r.partBase W w + (r.part W w).memReqSize ≤ r.size ∧
      ((!w && r.wraps W) = false → r.partBase W w + (r.part W w).memReqSize = r.size) := by
  have hq : r.firstSize W ≤ r.size := Nat.min_le_right _ _
  cases w with
  | false =>
    simp only [RdReq.partBase, RdReq.part, Nat.zero_add, Bool.not_false, Bool.true_and]
    exact ⟨hq, fun hw => RdReq.firstSize_eq hw⟩
  | true =>
    simp only [RdReq.partBase, RdReq.part, Bool.not_true, Bool.false_and, forall_const]
    omega

/-- Line `c` of part `w` comes into the lower register while the upper one takes the bytes from
`pos` on. -/
theorem line_in {w : Bool} {c : Nat} {out : List RdOut} {b : RdCircBufNew}
    (hserv : RdServing s.noc s.tile (s.job.part W w) c) (hok : s.AllowedBy (RdReq.Fits W) mem i)
    (hv : s.noc.respVal i.toNocIn = true) (hrdy : s.respRdy (rdCircBufNew W) i = true)
    (hw : w = true → s.job.wraps W = true)
    (hcore : (s.cycle (rdCircBufNew W) i).core = b)
    (hj : (s.cycle (rdCircBufNew W) i).job = s.job)
    (ho : (s.cycle (rdCircBufNew W) i).out = out)
    (hreading : Reading W mem b s.job out pos)
    (hregs : w = false → WrapRegs W b s.job)
    (hstate : b.state = if (s.signals (rdCircBufNew W) i).respLast then
      (if !w && s.job.wraps W then .dataOutForWrap else .dataDrain) else .dataOutput)
    (hneed : b.needWrap = (!w && s.job.wraps W)) (huse : b.useShift = w)
    (hshift : b.shiftBytes = if (s.signals (rdCircBufNew W) i).respLast && (!w && s.job.wraps W)
      then (s.signals (rdCircBufNew W) i).respPadbytes else s.core.shiftBytes)
    (hlt : b.shift < 64)
    (hup : ∀ j < 64 - b.shift, byte b.shiftUpper j = s.job.ring W mem (pos + j))
    (hlow : b.shiftLower = i.respData)
    (hplace : pos + 64 = s.job.partBase W w + 64 * c + b.shift) :
    Phase W mem (s.cycle (rdCircBufNew W) i) ∧
      (s.cycle (rdCircBufNew W) i).core.state ≠ .ready ∧
      work (s.cycle (rdCircBufNew W) i) ≤ 4 * b.bytesLeftOut + 1 := by
  obtain ⟨hbytes, hmore, hend⟩ := RdSystem.serving_line (C := rdCircBufNew W) hserv hok hv hrdy
  have hvalid := hreading.valid
  obtain ⟨hpe, hpe'⟩ := part_end (W := W) (r := s.job) (w := w)
  have hlow' : ∀ j < 64, 64 * c + j < (s.job.part W w).memReqSize →
      byte b.shiftLower j = s.job.ring W mem (pos + (64 - b.shift + j)) := by
    intro j hj hlt'
    rw [hlow, hbytes j hj hlt', RdReq.part_byte mem hvalid hw hlt']
    congr 1
    omega
  rw [RdSystem.cycle_eq hcore hj ho]
  by_cases hq : 64 * (c + 1) < (s.job.part W w).memReqSize
  · obtain ⟨hl, -, hs⟩ := hmore hq
    rw [hl, if_neg Bool.false_ne_true] at hstate
    refine ⟨.dataOutput w (c + 1) pos ⟨hstate, hreading, hs, Nat.succ_pos c, hw, hneed, huse, hregs,
      ⟨hlt, fun j hj _ => hup j hj, fun j hj _ => hlow' j hj (by omega)⟩, ?_⟩, ?_, ?_⟩
    · show pos + 128 = s.job.partBase W w + 64 * (c + 1) + b.shift
      omega
    · show b.state ≠ _
      rw [hstate]
      decide
    · simp only [work, hstate]
      exact Nat.le_refl _
  · obtain ⟨hl, hp, hid⟩ := hend (by omega)
    have hcm := hserv.more
    rw [hl, if_pos rfl] at hstate
    cases hn : (!w && s.job.wraps W) with
    | true =>
      rw [hl, hn, hp, Bool.and_self, if_pos rfl] at hshift
      rw [hn, if_pos rfl] at hstate
      obtain ⟨hw0, hwr⟩ := (Bool.and_eq_true _ _).mp hn
      obtain rfl : w = false := by simpa using hw0
      have hs0 : b.shift = 0 := by simp [RdCircBufNew.shift, huse]
      have hsz : (s.job.part W false).memReqSize = s.job.firstSize W := rfl
      have hb0 : s.job.partBase W false = 0 := rfl
      rw [hs0] at hup hlow' hplace
      refine ⟨.dataOutForWrap pos ⟨hstate, hreading, hid, hwr, huse, hregs rfl, ?_, ⟨?_, ?_, ?_⟩, ?_⟩,
        ?_, ?_⟩
      · show b.shiftBytes < 64
        omega
      · show b.shift < 64
        omega
      · intro j hj _
        rw [show RdCircBufNew.shift b = 0 from hs0] at hj
        exact hup j hj
      · intro j hj hlt'
        rw [show RdCircBufNew.shift b = 0 from hs0] at hlt' ⊢
        have hlt' : 64 - 0 + j < 128 - b.shiftBytes := hlt'
        exact hlow' j hj (by omega)
      · show pos + 128 = s.job.firstSize W + b.shiftBytes
        omega
      · show b.state ≠ _
        rw [hstate]
        decide
      · simp only [work, hstate]
        omega
    | false =>
      rw [hn, if_neg Bool.false_ne_true] at hstate
      have hfull := hpe' hn
      refine ⟨.dataDrain pos ⟨hstate, hreading, hid, ⟨hlt, fun j hj _ => hup j hj, ?_⟩, ?_⟩, ?_, ?_⟩
      · intro j hj hlt'
        have hlt' : 64 - b.shift + j < s.job.size - pos := hlt'
        exact hlow' j hj (by omega)
      · show s.job.size - pos + b.shift ≤ 128
        omega
      · show b.state ≠ _
        rw [hstate]
        decide
      · simp only [work, hstate]
        omega

theorem WaitResp.work_eq (h : WaitResp W mem s) :
    work s = 4 * s.core.bytesLeftOut + 6 + s.noc.delay := by
  simp only [work, h.state]

/-- The reader takes the first line as soon as it comes, and nothing goes out. -/
theorem WaitResp.takes (h : WaitResp W mem s) : s.core.state ≠ .ready ∧
    (s.cycle (rdCircBufNew W) i).out = s.out ∧ s.respRdy (rdCircBufNew W) i = true ∧
      s.core.storeReqState = false := by
  have hne : s.core.state ≠ .ready := by rw [h.state]; decide
  refine ⟨hne, ?_, ?_, ?_⟩
  · rw [cycle_out hne]
    simp [RdCircBufNew.out, h.state]
  · simp [RdSystem.respRdy, rdCircBufNew, RdCircBufNew.respRdy, h.state]
  · simp [RdCircBufNew.storeReqState, h.state]

theorem WaitResp.advances_wait (h : WaitResp W mem s) (hok : s.AllowedBy (RdReq.Fits W) mem i)
    (hv : s.noc.respVal i.toNocIn = false) : Advances W mem s i := by
  obtain ⟨hne, ho, hrdy, -⟩ := h.takes (i := i)
  have hj := cycle_job (W := W) (i := i) hne
  have hwork := h.work_eq
  have hcore : (s.cycle (rdCircBufNew W) i).core = s.core := by
    refine step_stay hne ?_ ?_
    · simp [RdCircBufNew.ctl, h.state, RdSystem.signals, hv]
    · simp [RdCircBufNew.updateReqState, RdSystem.signals, hv]
  obtain ⟨hserv, hle, hlt⟩ := RdSystem.serving_wait (C := rdCircBufNew W) h.serving hok
    (by rw [hv, Bool.false_and])
  refine ⟨?_, .inr ⟨not_completes (by rw [hcore]; exact hne), ?_⟩⟩
  · rw [RdSystem.cycle_eq hcore hj ho]
    exact .waitResp { h with serving := hserv }
  · rw [hwork]
    simp only [work, hcore, h.state]
    split
    · rename_i hs
      have hd := hlt hs hrdy
      omega
    · omega

/-- The line has the first bytes of the ring. -/
theorem WaitResp.line_bytes (h : WaitResp W mem s) (hok : s.AllowedBy (RdReq.Fits W) mem i)
    (hv : s.noc.respVal i.toNocIn = true) :
    ∀ j < 64, j < s.job.firstSize W → byte i.respData j = s.job.ring W mem j := by
  obtain ⟨hbytes, -⟩ := RdSystem.serving_line (C := rdCircBufNew W) h.serving hok hv h.takes.2.2.1
  have hsz : (s.job.part W false).memReqSize = s.job.firstSize W := rfl
  intro j hj hlt
  have hp := RdReq.part_byte mem h.reading.valid (w := false) (k := 64 * 0 + j)
    (fun h => by cases h) (by omega)
  rw [hbytes j hj (by omega), hp, RdReq.partBase, Nat.mul_zero, Nat.zero_add, Nat.zero_add]

/-- The part that ends with the ring has one line. -/
theorem WaitResp.advances_one (hW : W < 28) (h : WaitResp W mem s)
    (hok : s.AllowedBy (RdReq.Fits W) mem i)
    (hv : s.noc.respVal i.toNocIn = true) (hq : s.job.firstSize W ≤ 64) : Advances W mem s i := by
  obtain ⟨hne, ho, hrdy, hf⟩ := h.takes (i := i)
  have hj := cycle_job (W := W) (i := i) hne
  have hwork := h.work_eq
  have hregs := h.wrapRegs (i := i) hW hv
  obtain ⟨-, -, hend⟩ := RdSystem.serving_line (C := rdCircBufNew W) h.serving hok hv hrdy
  have hbytes := h.line_bytes hok hv
  have hsv : (s.signals (rdCircBufNew W) i).respVal = true := hv
  have hsd : (s.signals (rdCircBufNew W) i).respData = i.respData := rfl
  have hsz : (s.job.part W false).memReqSize = s.job.firstSize W := rfl
  have hq0 := RdReq.firstSize_pos h.reading.valid
  rw [hsz] at hend
  obtain ⟨hl, hp, hid⟩ := hend (by omega)
  have hstate : (s.cycle (rdCircBufNew W) i).core.state =
      if s.job.wraps W then .wrapReq else .dataDrain := by
    simp [cycle_core, RdCircBufNew.step, RdCircBufNew.ctl, h.state, hsv, hl, h.needWrap]
  have hupper : (s.cycle (rdCircBufNew W) i).core.shiftUpper = i.respData := by
    simp [cycle_core, RdCircBufNew.step, RdCircBufNew.ctl, h.state, hsv, hl, hsd]
  have hshift : (s.cycle (rdCircBufNew W) i).core.shiftBytes =
      (64 - s.job.firstSize W % 64) % 64 := by
    simp [cycle_core, RdCircBufNew.step, RdCircBufNew.ctl, h.state, hsv, hl, hp, hf]
  have huse : (s.cycle (rdCircBufNew W) i).core.useShift = false := by
    simp [cycle_core, RdCircBufNew.step, RdCircBufNew.ctl, h.state, hsv, hl, h.useShift]
  have hleft : (s.cycle (rdCircBufNew W) i).core.bytesLeftOut = s.core.bytesLeftOut := by
    simp [cycle_core, RdCircBufNew.step, RdCircBufNew.ctl, h.state, hsv, hl, hf]
  have hreading : Reading W mem (s.cycle (rdCircBufNew W) i).core
      (s.cycle (rdCircBufNew W) i).job (s.cycle (rdCircBufNew W) i).out 0 := by
    rw [hj, ho]
    exact h.reading.same hleft
  refine ⟨?_, .inr ⟨not_completes ?_, ?_⟩⟩
  · cases hw : s.job.wraps W with
    | true =>
      refine .wrapReq 0 ⟨by rw [hstate, hw, if_pos rfl], hid, by rw [hj]; exact hregs, hreading,
        by rw [hj]; exact hw, ?_, ?_, ?_⟩
      · rw [hshift]
        omega
      · intro j hj'
        rw [hshift] at hj'
        rw [hupper, hj, hbytes j (by omega) (by omega), Nat.zero_add]
      · rw [hj, hshift]
        omega
    | false =>
      have hfull := RdReq.firstSize_eq hw
      have hs0 : (s.cycle (rdCircBufNew W) i).core.shift = 0 := by
        simp [RdCircBufNew.shift, huse]
      refine .dataDrain 0 ⟨by rw [hstate, hw, if_neg Bool.false_ne_true], hreading, hid,
        ⟨?_, ?_, ?_⟩, ?_⟩
      · rw [hs0]
        decide
      · intro j hj' hn
        rw [hs0] at hj'
        rw [hj] at hn
        rw [hupper, hj, hbytes j (by omega) (by omega), Nat.zero_add]
      · intro j _ hn
        rw [hs0, hj] at hn
        omega
      · rw [hs0, hj]
        omega
  · rw [hstate]
    split <;> decide
  · rw [hwork]
    simp only [work, hstate]
    cases s.job.wraps W <;> simp only [if_true, if_false, Bool.false_eq_true, hleft] <;>
      split <;> omega

/-- More lines of the part follow. -/
theorem WaitResp.advances_more (hW : W < 28) (h : WaitResp W mem s)
    (hok : s.AllowedBy (RdReq.Fits W) mem i)
    (hv : s.noc.respVal i.toNocIn = true) (hq : 64 < s.job.firstSize W) : Advances W mem s i := by
  obtain ⟨hne, ho, hrdy, hf⟩ := h.takes (i := i)
  have hj := cycle_job (W := W) (i := i) hne
  have hwork := h.work_eq
  have hregs := h.wrapRegs (i := i) hW hv
  obtain ⟨-, hmore, -⟩ := RdSystem.serving_line (C := rdCircBufNew W) h.serving hok hv hrdy
  have hbytes := h.line_bytes hok hv
  have hsv : (s.signals (rdCircBufNew W) i).respVal = true := hv
  have hsd : (s.signals (rdCircBufNew W) i).respData = i.respData := rfl
  have hsz : (s.job.part W false).memReqSize = s.job.firstSize W := rfl
  obtain ⟨hl, -, hserv⟩ := hmore (by omega)
  have hstate : (s.cycle (rdCircBufNew W) i).core.state = .dataBuffer := by
    simp [cycle_core, RdCircBufNew.step, RdCircBufNew.ctl, h.state, hsv, hl]
  have hlower : (s.cycle (rdCircBufNew W) i).core.shiftLower = i.respData := by
    simp [cycle_core, RdCircBufNew.step, RdCircBufNew.ctl, h.state, hsv, hl, hsd]
  have hneed : (s.cycle (rdCircBufNew W) i).core.needWrap = s.core.needWrap := by
    simp [cycle_core, RdCircBufNew.step, RdCircBufNew.ctl, h.state, hsv, hl]
  have huse : (s.cycle (rdCircBufNew W) i).core.useShift = s.core.useShift := by
    simp [cycle_core, RdCircBufNew.step, RdCircBufNew.ctl, h.state, hsv, hl]
  have hleft : (s.cycle (rdCircBufNew W) i).core.bytesLeftOut = s.core.bytesLeftOut := by
    simp [cycle_core, RdCircBufNew.step, RdCircBufNew.ctl, h.state, hsv, hl, hf]
  refine ⟨.dataBuffer ⟨hstate, ?_, ?_, ?_, ?_, ?_, ?_⟩, .inr ⟨not_completes ?_, ?_⟩⟩
  · rw [hj, ho]
    exact h.reading.same hleft
  · rw [hj]
    exact hserv
  · rw [hneed, hj]
    exact h.needWrap
  · rw [huse]
    exact h.useShift
  · rw [hj]
    exact hregs
  · intro j hj'
    rw [hlower, hj, hbytes j hj' (by omega)]
  · rw [hstate]
    decide
  · rw [hwork]
    simp only [work, hstate, hleft]
    split <;> omega

theorem WaitResp.advances (hW : W < 28) (h : WaitResp W mem s)
    (hok : s.AllowedBy (RdReq.Fits W) mem i) :
    Advances W mem s i := by
  cases hv : s.noc.respVal i.toNocIn with
  | false => exact h.advances_wait hok hv
  | true =>
    by_cases hq : s.job.firstSize W ≤ 64
    · exact h.advances_one hW hok hv hq
    · exact h.advances_more hW hok hv (by omega)

/-- Between the parts the registers of the next request stand. -/
theorem WrapRegs.step (h : WrapRegs W s.core s.job) (hs : s.core.storeReqState = false)
    (hu : s.core.updateReqState (s.signals (rdCircBufNew W) i) = false) :
    WrapRegs W (s.cycle (rdCircBufNew W) i).core s.job := by
  rw [cycle_core]
  refine ⟨?_, ?_, ?_⟩ <;> simp only [RdCircBufNew.step]
  · simp [RdCircBufNew.reqFlowidNext, hs, h.flowid]
  · simp [RdCircBufNew.currOffsetNext, hs, hu, h.offset]
  · simp [RdCircBufNew.bytesRemainNext, hs, hu, h.remain]

theorem DataBuffer.advances (h : DataBuffer W mem s) (hok : s.AllowedBy (RdReq.Fits W) mem i) :
    Advances W mem s i := by
  have hne : s.core.state ≠ .ready := by rw [h.state]; decide
  have hj := cycle_job (W := W) (i := i) hne
  have ho : (s.cycle (rdCircBufNew W) i).out = s.out := by
    rw [cycle_out hne]
    simp [RdCircBufNew.out, h.state]
  have hrdy : s.respRdy (rdCircBufNew W) i = true := by
    simp [RdSystem.respRdy, rdCircBufNew, RdCircBufNew.respRdy, h.state]
  have hwork : work s = 4 * s.core.bytesLeftOut + 2 := by simp only [work, h.state]
  have hf : s.core.storeReqState = false := by simp [RdCircBufNew.storeReqState, h.state]
  have hu : s.core.updateReqState (s.signals (rdCircBufNew W) i) = false := by
    simp [RdCircBufNew.updateReqState, h.state]
  cases hv : s.noc.respVal i.toNocIn with
  | false =>
    have hcore : (s.cycle (rdCircBufNew W) i).core = s.core := by
      refine step_stay hne ?_ hu
      simp [RdCircBufNew.ctl, h.state, RdSystem.signals, hv]
    obtain ⟨hserv, -, -⟩ := RdSystem.serving_wait (C := rdCircBufNew W) h.serving hok
      (by rw [hv, Bool.false_and])
    exact advances_stay hne hcore ho (.dataBuffer { h with serving := hserv })
      (by simp only [work, hcore, h.state]) (RdSystem.not_smooth h.serving Nat.one_pos hv)
  | true =>
    have hsv : (s.signals (rdCircBufNew W) i).respVal = true := hv
    have hsd : (s.signals (rdCircBufNew W) i).respData = i.respData := rfl
    have hbits : s.core.memDataShiftBits = 8 * 0 := by
      simp [RdCircBufNew.memDataShiftBits, h.useShift]
    have hleft : (s.cycle (rdCircBufNew W) i).core.bytesLeftOut = s.core.bytesLeftOut := by
      rw [cycle_core]
      cases hl : (s.signals (rdCircBufNew W) i).respLast <;>
        simp [RdCircBufNew.step, RdCircBufNew.ctl, h.state, hsv, hl, hf]
    have huse : (s.cycle (rdCircBufNew W) i).core.useShift = false := by
      rw [cycle_core]
      cases hl : (s.signals (rdCircBufNew W) i).respLast <;>
        simp [RdCircBufNew.step, RdCircBufNew.ctl, h.state, hsv, hl, h.useShift]
    have hs0 : (s.cycle (rdCircBufNew W) i).core.shift = 0 := by simp [RdCircBufNew.shift, huse]
    have hupper : (s.cycle (rdCircBufNew W) i).core.shiftUpper =
        lowerShl s.core.shiftUpperData s.core.shiftLower (8 * 0) := by
      rw [cycle_core, ← hbits]
      cases hl : (s.signals (rdCircBufNew W) i).respLast <;>
        simp [RdCircBufNew.step, RdCircBufNew.ctl, h.state, hsv, hl]
    have hstate : (s.cycle (rdCircBufNew W) i).core.state =
        if (s.signals (rdCircBufNew W) i).respLast then
          (if !false && s.job.wraps W then .dataOutForWrap else .dataDrain) else .dataOutput := by
      rw [cycle_core]
      cases hl : (s.signals (rdCircBufNew W) i).respLast <;>
        simp [RdCircBufNew.step, RdCircBufNew.ctl, h.state, hsv, hl, h.needWrap]
    have hneed : (s.cycle (rdCircBufNew W) i).core.needWrap = (!false && s.job.wraps W) := by
      rw [cycle_core]
      cases hl : (s.signals (rdCircBufNew W) i).respLast <;>
        simp [RdCircBufNew.step, RdCircBufNew.ctl, h.state, hsv, hl, h.needWrap]
    have hshift : (s.cycle (rdCircBufNew W) i).core.shiftBytes =
        if (s.signals (rdCircBufNew W) i).respLast && (!false && s.job.wraps W)
        then (s.signals (rdCircBufNew W) i).respPadbytes else s.core.shiftBytes := by
      rw [cycle_core]
      cases hl : (s.signals (rdCircBufNew W) i).respLast <;>
        simp [RdCircBufNew.step, RdCircBufNew.ctl, h.state, hsv, hl, hf, h.needWrap]
    have hlower : (s.cycle (rdCircBufNew W) i).core.shiftLower = i.respData := by
      rw [cycle_core]
      cases hl : (s.signals (rdCircBufNew W) i).respLast <;>
        simp [RdCircBufNew.step, RdCircBufNew.ctl, h.state, hsv, hl, hsd]
    have hbytes : ∀ j < 64 - (s.cycle (rdCircBufNew W) i).core.shift,
        byte (s.cycle (rdCircBufNew W) i).core.shiftUpper j = s.job.ring W mem (0 + j) := by
      intro j hj'
      rw [hs0] at hj'
      rw [hupper, byte_lowerShl _ _ (by omega), Nat.zero_add, h.lower j hj']
    obtain ⟨hp, hr, hw⟩ := line_in (w := false) h.serving hok hv hrdy (fun h => by cases h) rfl hj ho
      (h.reading.same hleft) (fun _ => h.regs.step hf hu) hstate hneed huse hshift
      (by rw [hs0]; decide) hbytes hlower (by rw [hs0]; rfl)
    refine ⟨hp, .inr ⟨not_completes hr, ?_⟩⟩
    rw [hleft] at hw
    rw [hwork]
    split <;> omega

/-- More than a line is left while lines come. -/
theorem DataOutput.more {w : Bool} {c : Nat} (h : DataOutput W mem s w c pos) :
    pos + 64 < s.job.size := by
  obtain ⟨hpe, -⟩ := part_end (W := W) (r := s.job) (w := w)
  have hm := h.serving.more
  have hp := h.place
  have hs := h.holds.shift_lt
  omega

theorem DataOutput.advances (hW : W < 28) {w : Bool} {c : Nat} (h : DataOutput W mem s w c pos)
    (hok : s.AllowedBy (RdReq.Fits W) mem i) : Advances W mem s i := by
  have hne : s.core.state ≠ .ready := by rw [h.state]; decide
  have hj := cycle_job (W := W) (i := i) hne
  have hrdy : s.respRdy (rdCircBufNew W) i = i.dataRdy := by
    simp [RdSystem.respRdy, rdCircBufNew, RdCircBufNew.respRdy, h.state]
  have hwork : work s = 4 * s.core.bytesLeftOut + 1 := by simp only [work, h.state]
  have hf : s.core.storeReqState = false := by simp [RdCircBufNew.storeReqState, h.state]
  have hu : s.core.updateReqState (s.signals (rdCircBufNew W) i) = false := by
    simp [RdCircBufNew.updateReqState, h.state]
  have hsv : (s.signals (rdCircBufNew W) i).respVal = s.noc.respVal i.toNocIn := rfl
  have hsr : (s.signals (rdCircBufNew W) i).dataRdy = i.dataRdy := rfl
  have hsd : (s.signals (rdCircBufNew W) i).respData = i.respData := rfl
  obtain ⟨hnl, hpad⟩ := h.reading.not_last h.more
  cases hm : s.noc.respVal i.toNocIn && i.dataRdy with
  | false =>
    have hcore : (s.cycle (rdCircBufNew W) i).core = s.core := by
      refine step_stay hne ?_ hu
      simp [RdCircBufNew.ctl, h.state, hsv, hsr, hm]
    have ho : (s.cycle (rdCircBufNew W) i).out = s.out := by
      rw [cycle_out hne]
      cases hd : i.dataRdy with
      | false => simp
      | true =>
        rw [hd, Bool.and_true] at hm
        simp [RdCircBufNew.out, h.state, hsv, hm]
    obtain ⟨hserv, -, -⟩ := RdSystem.serving_wait (C := rdCircBufNew W) h.serving hok
      (by rw [hrdy]; exact hm)
    have hs : ¬ s.smooth i = true := by
      intro hs
      have hd : i.dataRdy = true := (Bool.and_eq_true _ _ ▸ hs).1
      rw [hd, Bool.and_true] at hm
      exact RdSystem.not_smooth h.serving h.started hm hs
    exact advances_stay hne hcore ho (.dataOutput w c pos { h with serving := hserv })
      (by simp only [work, hcore, h.state]) hs
  | true =>
    obtain ⟨hv, hd⟩ := (Bool.and_eq_true _ _).mp hm
    have ho : (s.cycle (rdCircBufNew W) i).out = s.out ++ [⟨s.core.respData, false, 0⟩] := by
      rw [cycle_out hne, hd]
      simp [RdCircBufNew.out, h.state, hsv, hv, hnl, hpad]
    have hleft : (s.cycle (rdCircBufNew W) i).core.bytesLeftOut =
        (s.core.bytesLeftOut + 2 ^ 30 - 64) % 2 ^ 30 := by
      rw [cycle_core]
      simp only [RdCircBufNew.step, RdCircBufNew.ctl, h.state, hsv, hsr, hm, hf, if_true,
        Bool.false_eq_true, if_false]
    have huse : (s.cycle (rdCircBufNew W) i).core.useShift = w := by
      rw [cycle_core]
      simp only [RdCircBufNew.step, RdCircBufNew.ctl, h.state, hsv, hsr, hm, if_true, h.useShift]
    have hneed : (s.cycle (rdCircBufNew W) i).core.needWrap = (!w && s.job.wraps W) := by
      rw [cycle_core]
      simp only [RdCircBufNew.step, RdCircBufNew.ctl, h.state, hsv, hsr, hm, if_true, h.needWrap]
    have hstate : (s.cycle (rdCircBufNew W) i).core.state =
        if (s.signals (rdCircBufNew W) i).respLast then
          (if !w && s.job.wraps W then .dataOutForWrap else .dataDrain) else .dataOutput := by
      rw [cycle_core]
      simp only [RdCircBufNew.step, RdCircBufNew.ctl, h.state, hsv, hsr, hm, if_true, h.needWrap, hnl,
        Bool.false_eq_true, if_false]
    have hshift : (s.cycle (rdCircBufNew W) i).core.shiftBytes =
        if (s.signals (rdCircBufNew W) i).respLast && (!w && s.job.wraps W)
        then (s.signals (rdCircBufNew W) i).respPadbytes else s.core.shiftBytes := by
      rw [cycle_core]
      simp only [RdCircBufNew.step, RdCircBufNew.ctl, h.state, hsv, hsr, hm, if_true, h.needWrap, hf,
        Bool.false_eq_true, if_false]
    have hlower : (s.cycle (rdCircBufNew W) i).core.shiftLower = i.respData := by
      rw [cycle_core]
      simp [RdCircBufNew.step, RdCircBufNew.ctl, h.state, hsv, hsr, hm, hsd]
    have hupper : (s.cycle (rdCircBufNew W) i).core.shiftUpper =
        lowerShl s.core.shiftUpperData s.core.shiftLower s.core.memDataShiftBits := by
      rw [cycle_core]
      simp [RdCircBufNew.step, RdCircBufNew.ctl, h.state, hsv, hsr, hm]
    -- behind the wrap the shift stays; before it there is none
    have hs : (s.cycle (rdCircBufNew W) i).core.shift = s.core.shift := by
      simp only [RdCircBufNew.shift, huse, h.useShift, hshift]
      cases w <;> simp
    have hlt := h.holds.shift_lt
    have hbytes : ∀ j < 64 - (s.cycle (rdCircBufNew W) i).core.shift,
        byte (s.cycle (rdCircBufNew W) i).core.shiftUpper j = s.job.ring W mem (pos + 64 + j) := by
      intro j hj'
      rw [hs] at hj'
      rw [hupper, h.holds.shifted hj' (by omega)]
    have hmore := h.more
    have hreading := h.reading.push hW hmore (fun k hk => h.holds.respData hk (by omega)) hleft
    have hplace := h.place
    obtain ⟨hp, hr, hw⟩ := line_in h.serving hok hv (by rw [hrdy, hd]) h.wrapped rfl hj ho hreading
      (fun hw => (h.regs hw).step hf hu) hstate hneed huse hshift (by rw [hs]; exact hlt) hbytes hlower
      (by rw [hs]; omega)
    refine ⟨hp, .inr ⟨not_completes hr, ?_⟩⟩
    rw [hreading.left] at hw
    rw [hwork, h.reading.left]
    split <;> omega

/-- A state without a request whose core and lines stand. -/
theorem idle_port (h : RdIdle s.noc s.tile) (hok : s.AllowedBy (RdReq.Fits W) mem i)
    (hm : s.core.memReq W (s.signals (rdCircBufNew W) i) = none) :
    RdIdle (s.cycle (rdCircBufNew W) i).noc (s.cycle (rdCircBufNew W) i).tile :=
  RdSystem.idle_stay (C := rdCircBufNew W) h hok hm

theorem DataDrain.advances (hW : W < 28) (h : DataDrain W mem s pos)
    (hok : s.AllowedBy (RdReq.Fits W) mem i) :
    Advances W mem s i := by
  have hne : s.core.state ≠ .ready := by rw [h.state]; decide
  have hj := cycle_job (W := W) (i := i) hne
  have hwork : work s = 4 * s.core.bytesLeftOut := by simp only [work, h.state]
  have hf : s.core.storeReqState = false := by simp [RdCircBufNew.storeReqState, h.state]
  have hu : s.core.updateReqState (s.signals (rdCircBufNew W) i) = false := by
    simp [RdCircBufNew.updateReqState, h.state]
  have hsr : (s.signals (rdCircBufNew W) i).dataRdy = i.dataRdy := rfl
  have hid := idle_port h.idle hok (by simp [RdCircBufNew.memReq, h.state])
  have hmore := h.reading.begun.more
  have hlt := h.holds.shift_lt
  have hfits := h.fits
  cases hd : i.dataRdy with
  | false =>
    have hcore : (s.cycle (rdCircBufNew W) i).core = s.core := by
      refine step_stay hne ?_ hu
      simp [RdCircBufNew.ctl, h.state, hsr, hd]
    have ho : (s.cycle (rdCircBufNew W) i).out = s.out := by
      rw [cycle_out hne]
      simp [hd]
    exact advances_stay hne hcore ho (.dataDrain pos { h with idle := hid })
      (by simp only [work, hcore, h.state]) (by simp [RdSystem.smooth, hd])
  | true =>
    by_cases hl : s.job.size - pos ≤ 64
    · -- the last line
      have hlast : s.core.lastDataOut = true := by
        simp only [RdCircBufNew.lastDataOut, h.reading.left, decide_eq_true_eq]
        exact hl
      have hstate : (s.cycle (rdCircBufNew W) i).core.state = .ready := by
        rw [cycle_core]
        simp [RdCircBufNew.step, RdCircBufNew.ctl, h.state, hsr, hd, hlast]
      have ho : s.outStep (rdCircBufNew W) i =
          s.out ++ [⟨s.core.respData, true, 64 - (s.job.size - pos)⟩] := by
        refine (cycle_out (W := W) hne).trans ?_
        rw [hd]
        simp [RdCircBufNew.out, h.state, hlast, RdCircBufNew.respDataPadbytes, h.reading.left]
      refine ⟨.idle hstate hid, .inl ⟨?_, ?_⟩⟩
      · exact RdSystem.completes_of_idle (busy hne) (beq_iff_eq.mpr hstate)
      · rw [ho]
        exact h.reading.begun.finish (by omega)
          fun k hk => h.holds.respData (by omega) hk
    · obtain ⟨hlast, hpad⟩ := h.reading.not_last (by omega)
      have ho : (s.cycle (rdCircBufNew W) i).out = s.out ++ [⟨s.core.respData, false, 0⟩] := by
        rw [cycle_out hne, hd]
        simp [RdCircBufNew.out, h.state, hlast, hpad]
      have hctl : s.core.ctl W (s.signals (rdCircBufNew W) i) =
          { state := .dataDrain, needWrap := s.core.needWrap, useShift := s.core.useShift
            decrBytesOut := true, shiftRegs := true, lowerZeros := true } := by
        simp [RdCircBufNew.ctl, h.state, hsr, hd, hlast]
      have hstate : (s.cycle (rdCircBufNew W) i).core.state = .dataDrain := by
        rw [cycle_core, RdCircBufNew.step, hctl]
      have hleft : (s.cycle (rdCircBufNew W) i).core.bytesLeftOut =
          (s.core.bytesLeftOut + 2 ^ 30 - 64) % 2 ^ 30 := by
        rw [cycle_core]
        simp only [RdCircBufNew.step, hctl, hf, if_true, Bool.false_eq_true, if_false]
      have hs : (s.cycle (rdCircBufNew W) i).core.shift = s.core.shift := by
        rw [cycle_core]
        simp [RdCircBufNew.step, hctl, RdCircBufNew.shift, hf]
      have hupper : (s.cycle (rdCircBufNew W) i).core.shiftUpper =
          lowerShl s.core.shiftUpperData s.core.shiftLower s.core.memDataShiftBits := by
        rw [cycle_core]
        simp [RdCircBufNew.step, hctl]
      have hreading := h.reading.push hW (by omega)
        (fun k hk => h.holds.respData hk (by omega)) hleft
      refine ⟨.dataDrain (pos + 64) ⟨hstate, ?_, hid, ⟨?_, ?_, ?_⟩, ?_⟩, .inr ⟨not_completes ?_, ?_⟩⟩
      · rw [hj, ho]
        exact hreading
      · rw [hs]
        exact hlt
      · intro j hj' hn
        rw [hs] at hj'
        rw [hj] at hn ⊢
        rw [hupper, h.holds.shifted hj' (by omega)]
      · intro j _ hn
        rw [hs, hj] at hn
        omega
      · rw [hj, hs]
        omega
      · rw [hstate]
        decide
      · rw [hwork, h.reading.left]
        simp only [work, hstate, hreading.left]
        split <;> omega

theorem DataOutForWrap.advances (hW : W < 28) (h : DataOutForWrap W mem s pos)
    (hok : s.AllowedBy (RdReq.Fits W) mem i) : Advances W mem s i := by
  have hne : s.core.state ≠ .ready := by rw [h.state]; decide
  have hj := cycle_job (W := W) (i := i) hne
  have hwork : work s = 4 * s.core.bytesLeftOut := by simp only [work, h.state]
  have hf : s.core.storeReqState = false := by simp [RdCircBufNew.storeReqState, h.state]
  have hu : s.core.updateReqState (s.signals (rdCircBufNew W) i) = false := by
    simp [RdCircBufNew.updateReqState, h.state]
  have hsr : (s.signals (rdCircBufNew W) i).dataRdy = i.dataRdy := rfl
  have hid := idle_port h.idle hok (by simp [RdCircBufNew.memReq, h.state])
  obtain ⟨hfs, -⟩ := RdReq.firstSize_lt h.wraps
  have hplace := h.place
  have hpb := h.padbytes
  have hmore : pos + 64 < s.job.size := by omega
  have hs0 : s.core.shift = 0 := by simp [RdCircBufNew.shift, h.useShift]
  obtain ⟨hnl, hpad⟩ := h.reading.not_last hmore
  cases hd : i.dataRdy with
  | false =>
    have hcore : (s.cycle (rdCircBufNew W) i).core = s.core := by
      refine step_stay hne ?_ hu
      simp [RdCircBufNew.ctl, h.state, hsr, hd]
    have ho : (s.cycle (rdCircBufNew W) i).out = s.out := by
      rw [cycle_out hne]
      simp [hd]
    exact advances_stay hne hcore ho (.dataOutForWrap pos { h with idle := hid })
      (by simp only [work, hcore, h.state]) (by simp [RdSystem.smooth, hd])
  | true =>
    have ho : (s.cycle (rdCircBufNew W) i).out = s.out ++ [⟨s.core.respData, false, 0⟩] := by
      rw [cycle_out hne, hd]
      simp [RdCircBufNew.out, h.state, hpad]
    have hctl : s.core.ctl W (s.signals (rdCircBufNew W) i) =
        { state := .wrapReq, needWrap := s.core.needWrap, useShift := s.core.useShift
          decrBytesOut := true, shiftRegs := true } := by
      simp [RdCircBufNew.ctl, h.state, hsr, hd]
    have hstate : (s.cycle (rdCircBufNew W) i).core.state = .wrapReq := by
      rw [cycle_core, RdCircBufNew.step, hctl]
    have hleft : (s.cycle (rdCircBufNew W) i).core.bytesLeftOut =
        (s.core.bytesLeftOut + 2 ^ 30 - 64) % 2 ^ 30 := by
      rw [cycle_core]
      simp only [RdCircBufNew.step, hctl, hf, if_true, Bool.false_eq_true, if_false]
    have hsb : (s.cycle (rdCircBufNew W) i).core.shiftBytes = s.core.shiftBytes := by
      rw [cycle_core]
      simp [RdCircBufNew.step, hctl, hf]
    have hupper : (s.cycle (rdCircBufNew W) i).core.shiftUpper =
        lowerShl s.core.shiftUpperData s.core.shiftLower s.core.memDataShiftBits := by
      rw [cycle_core]
      simp [RdCircBufNew.step, hctl]
    have hreading := h.reading.push hW hmore
      (fun k hk => h.holds.respData hk (by omega)) hleft
    refine ⟨.wrapReq (pos + 64) ⟨hstate, hid, ?_, ⟨?_, ?_, ?_, ?_, ?_⟩⟩, .inr ⟨not_completes ?_, ?_⟩⟩
    · rw [hj]
      exact h.regs.step hf hu
    · rw [hj, ho]
      exact hreading
    · rw [hj]
      exact h.wraps
    · rw [hsb]
      exact hpb
    · intro j hj'
      rw [hsb] at hj'
      rw [hj, hupper, h.holds.shifted (by omega) (by omega)]
    · rw [hj, hsb]
      omega
    · rw [hstate]
      decide
    · rw [hwork, h.reading.left]
      simp only [work, hstate, hreading.left]
      split <;> omega

/-- The request behind the wrap. -/
theorem WrapReq.memReq (h : WrapReq W mem s pos) :
    s.core.memReq W (s.signals (rdCircBufNew W) i) = some (s.job.part W true) := by
  have hf : s.core.storeReqState = false := by simp [RdCircBufNew.storeReqState, h.state]
  have hu : s.core.updateReqState (s.signals (rdCircBufNew W) i) = false := by
    simp [RdCircBufNew.updateReqState, h.state]
  obtain ⟨hq, hfs⟩ := RdReq.firstSize_lt h.saved.wraps
  obtain ⟨ho, -, hz⟩ := h.saved.reading.valid
  have hoff : s.core.currOffset = 0 := by
    rw [h.regs.offset, hfs, Nat.add_sub_of_le ho.le, Nat.mod_self]
  have hns : ¬ 2 ^ W < s.job.size - s.job.firstSize W := by omega
  simp [RdCircBufNew.memReq, h.state, RdCircBufNew.rdNocReq, RdCircBufNew.splitReq,
    RdCircBufNew.spaceToEnd, RdCircBufNew.currOffsetNext, RdCircBufNew.bytesRemainNext,
    RdCircBufNew.reqFlowidNext, hf, hu, hoff, h.regs.remain, h.regs.flowid, hns, RdReq.part]

theorem WrapReq.advances (hW : W < 28) (h : WrapReq W mem s pos)
    (hok : s.AllowedBy (RdReq.Fits W) mem i) :
    Advances W mem s i := by
  have hne : s.core.state ≠ .ready := by rw [h.state]; decide
  have hj := cycle_job (W := W) (i := i) hne
  have ho : (s.cycle (rdCircBufNew W) i).out = s.out := by
    rw [cycle_out hne]
    simp [RdCircBufNew.out, h.state]
  have hwork : work s = 4 * s.core.bytesLeftOut + 5 := by simp only [work, h.state]
  have hf : s.core.storeReqState = false := by simp [RdCircBufNew.storeReqState, h.state]
  have hrdy : (s.signals (rdCircBufNew W) i).memReqRdy = true := h.idle.reqRdy
  have hctl : s.core.ctl W (s.signals (rdCircBufNew W) i) =
      { state := .waitWrapResp, needWrap := false, useShift := true } := by
    simp [RdCircBufNew.ctl, h.state, hrdy]
  obtain ⟨hq, -⟩ := RdReq.firstSize_lt h.saved.wraps
  have hserv := RdSystem.idle_ask (C := rdCircBufNew W) h.idle hok h.memReq
    (Nat.sub_pos_of_lt hq) (RdReq.part_small hW h.saved.reading.valid true)
  have hstate : (s.cycle (rdCircBufNew W) i).core.state = .waitWrapResp := by
    rw [cycle_core, RdCircBufNew.step, hctl]
  have hleft : (s.cycle (rdCircBufNew W) i).core.bytesLeftOut = s.core.bytesLeftOut := by
    rw [cycle_core]
    simp [RdCircBufNew.step, hctl, hf]
  have hsb : (s.cycle (rdCircBufNew W) i).core.shiftBytes = s.core.shiftBytes := by
    rw [cycle_core]
    simp [RdCircBufNew.step, hctl, hf]
  have hupper : (s.cycle (rdCircBufNew W) i).core.shiftUpper = s.core.shiftUpper := by
    rw [cycle_core]
    simp [RdCircBufNew.step, hctl]
  refine ⟨.waitWrapResp pos ⟨hstate, ?_, ?_, ?_, ⟨?_, ?_, ?_, ?_, ?_⟩⟩, .inr ⟨not_completes ?_, ?_⟩⟩
  · rw [hj]
    exact hserv
  · rw [cycle_core, RdCircBufNew.step, hctl]
  · rw [cycle_core, RdCircBufNew.step, hctl]
  · rw [hj, ho]
    exact h.saved.reading.same hleft
  · rw [hj]
    exact h.saved.wraps
  · rw [hsb]
    exact h.saved.padbytes
  · rw [hsb, hupper, hj]
    exact h.saved.upper
  · rw [hsb, hj]
    exact h.saved.place
  · rw [hstate]
    decide
  · have hdelay := (s.cycle (rdCircBufNew W) i).noc.delay_le
    rw [hwork]
    simp only [work, hstate, hleft]
    split <;> omega

theorem WaitWrapResp.advances (h : WaitWrapResp W mem s pos) (hok : s.AllowedBy (RdReq.Fits W) mem i) :
    Advances W mem s i := by
  have hne : s.core.state ≠ .ready := by rw [h.state]; decide
  have hj := cycle_job (W := W) (i := i) hne
  have ho : (s.cycle (rdCircBufNew W) i).out = s.out := by
    rw [cycle_out hne]
    simp [RdCircBufNew.out, h.state]
  have hrdy : s.respRdy (rdCircBufNew W) i = true := by
    simp [RdSystem.respRdy, rdCircBufNew, RdCircBufNew.respRdy, h.state]
  have hwork : work s = 4 * s.core.bytesLeftOut + 2 + s.noc.delay := by simp only [work, h.state]
  have hf : s.core.storeReqState = false := by simp [RdCircBufNew.storeReqState, h.state]
  have hsv : (s.signals (rdCircBufNew W) i).respVal = s.noc.respVal i.toNocIn := rfl
  have hsd : (s.signals (rdCircBufNew W) i).respData = i.respData := rfl
  cases hv : s.noc.respVal i.toNocIn with
  | false =>
    have hcore : (s.cycle (rdCircBufNew W) i).core = s.core := by
      refine step_stay hne ?_ ?_
      · simp [RdCircBufNew.ctl, h.state, hsv, hv]
      · simp [RdCircBufNew.updateReqState, hsv, hv]
    obtain ⟨hserv, hle, hlt⟩ := RdSystem.serving_wait (C := rdCircBufNew W) h.serving hok
      (by rw [hv, Bool.false_and])
    refine ⟨?_, .inr ⟨not_completes (by rw [hcore]; exact hne), ?_⟩⟩
    · rw [RdSystem.cycle_eq hcore hj ho]
      exact .waitWrapResp pos { h with serving := hserv }
    · rw [hwork]
      simp only [work, hcore, h.state]
      split
      · rename_i hs
        have hd := hlt hs hrdy
        omega
      · omega
  | true =>
    have hctl : s.core.ctl W (s.signals (rdCircBufNew W) i) =
        { state := if (s.signals (rdCircBufNew W) i).respLast then .dataDrain else .dataOutput
          needWrap := s.core.needWrap, useShift := s.core.useShift, writeLower := true } := by
      simp [RdCircBufNew.ctl, h.state, hsv, hv]
    have hleft : (s.cycle (rdCircBufNew W) i).core.bytesLeftOut = s.core.bytesLeftOut := by
      rw [cycle_core]
      simp [RdCircBufNew.step, hctl, hf]
    have hsb : (s.cycle (rdCircBufNew W) i).core.shiftBytes = s.core.shiftBytes := by
      rw [cycle_core]
      simp [RdCircBufNew.step, hctl, hf]
    have huse : (s.cycle (rdCircBufNew W) i).core.useShift = true := by
      rw [cycle_core, RdCircBufNew.step, hctl]
      exact h.useShift
    have hs : (s.cycle (rdCircBufNew W) i).core.shift = s.core.shiftBytes := by
      rw [RdCircBufNew.shift, huse, if_pos rfl, hsb]
    have hupper : (s.cycle (rdCircBufNew W) i).core.shiftUpper = s.core.shiftUpper := by
      rw [cycle_core]
      simp [RdCircBufNew.step, hctl]
    have hlower : (s.cycle (rdCircBufNew W) i).core.shiftLower = i.respData := by
      rw [cycle_core]
      simp [RdCircBufNew.step, hctl, hsd]
    have hstate : (s.cycle (rdCircBufNew W) i).core.state =
        if (s.signals (rdCircBufNew W) i).respLast then
          (if !true && s.job.wraps W then .dataOutForWrap else .dataDrain) else .dataOutput := by
      rw [cycle_core, RdCircBufNew.step, hctl]
      simp
    have hneed : (s.cycle (rdCircBufNew W) i).core.needWrap = (!true && s.job.wraps W) := by
      rw [cycle_core, RdCircBufNew.step, hctl]
      simpa using h.needWrap
    obtain ⟨hp, hr, hw⟩ := line_in (w := true) h.serving hok hv hrdy (fun _ => h.saved.wraps) rfl hj
      ho (h.saved.reading.same hleft) (fun h => by cases h) hstate hneed huse (by rw [hsb]; simp)
      (by rw [hs]; exact h.saved.padbytes) (by rw [hs, hupper]; exact h.saved.upper) hlower
      (by rw [hs]; exact h.saved.place)
    refine ⟨hp, .inr ⟨not_completes hr, ?_⟩⟩
    rw [hleft] at hw
    rw [hwork]
    split <;> omega

/-- A ready reader takes the request. -/
theorem ready_takes (hs : s.core.state = .ready) (h : RdIdle s.noc s.tile) (hv : i.reqVal = true) :
    s.Takes (rdCircBufNew W) i := by
  have hsv : (s.signals (rdCircBufNew W) i).reqVal = true := hv
  have hrdy : (s.signals (rdCircBufNew W) i).memReqRdy = true := h.reqRdy
  have hn : s.core.out (s.signals (rdCircBufNew W) i) = none := by simp [RdCircBufNew.out, hs]
  have hb : (s.cycle (rdCircBufNew W) i).core.state ≠ .ready := by
    rw [cycle_core, RdCircBufNew.step]
    simp [RdCircBufNew.ctl, hs, hsv, hrdy]
  exact RdSystem.takes_of_busy h (beq_iff_eq.mpr hs) hv hn (busy hb)

/-- What a ready reader asks of the memory. -/
theorem ready_rdNocReq (hs : s.core.state = .ready) :
    s.core.rdNocReq W (s.signals (rdCircBufNew W) i) = i.req.part W false := by
  have hsq : (s.signals (rdCircBufNew W) i).req = i.req := rfl
  have hf : s.core.storeReqState = true := by simp [RdCircBufNew.storeReqState, hs]
  simp only [RdCircBufNew.rdNocReq, RdCircBufNew.splitReq, RdCircBufNew.spaceToEnd,
    RdCircBufNew.currOffsetNext, RdCircBufNew.bytesRemainNext, RdCircBufNew.reqFlowidNext, hf,
    if_true, hsq, RdReq.part, RdReq.firstSize, decide_eq_true_eq]
  congr 1
  split <;> omega

/-- The ready reader takes a request or does nothing. -/
theorem phase_idle (hW : W < 28) (hs : s.core.state = .ready) (h : RdIdle s.noc s.tile)
    (hok : s.AllowedBy (RdReq.Fits W) mem i) : Phase W mem (s.cycle (rdCircBufNew W) i) := by
  have hrdy : (s.signals (rdCircBufNew W) i).memReqRdy = true := h.reqRdy
  have hsv : (s.signals (rdCircBufNew W) i).reqVal = i.reqVal := rfl
  have hsq : (s.signals (rdCircBufNew W) i).req = i.req := rfl
  have hf : s.core.storeReqState = true := by simp [RdCircBufNew.storeReqState, hs]
  have hctl : s.core.ctl W (s.signals (rdCircBufNew W) i) =
      { state := if i.reqVal then .waitResp else .ready
        needWrap := i.req.wraps W, useShift := false } := by
    simp [RdCircBufNew.ctl, hs, hrdy, hsv, RdCircBufNew.splitReq, RdCircBufNew.spaceToEnd,
      RdCircBufNew.currOffsetNext, RdCircBufNew.bytesRemainNext, hf, hsq, RdReq.wraps]
  cases hv : i.reqVal with
  | false =>
    rw [hv, if_neg Bool.false_ne_true] at hctl
    refine .idle ?_ (idle_port h hok ?_)
    · rw [cycle_core, RdCircBufNew.step, hctl]
    · simp [RdCircBufNew.memReq, hs, hsv, hv]
  | true =>
    rw [hv, if_pos rfl] at hctl
    have hvalid := hok.1 hv
    have hreq := ready_rdNocReq (W := W) (i := i) hs
    have hmem : s.core.memReq W (s.signals (rdCircBufNew W) i) = some (i.req.part W false) := by
      simp [RdCircBufNew.memReq, hs, hsv, hv, hreq]
    have hserv := RdSystem.idle_ask (C := rdCircBufNew W) h hok hmem
      (RdReq.firstSize_pos hvalid) (RdReq.part_small hW hvalid false)
    obtain ⟨-, -, hj, ho⟩ := ready_takes (W := W) hs h hv
    refine .waitResp ⟨?_, ⟨?_, ?_, ?_⟩, ?_, ?_, ?_, ?_, ?_, ?_, ?_⟩
    · rw [cycle_core, RdCircBufNew.step, hctl]
    · rw [hj]
      exact hvalid
    · rw [hj, ho]
      exact .start hvalid.2.1
    · rw [hj, cycle_core]
      simp only [RdCircBufNew.step, hf, hsq, if_true, Nat.sub_zero]
    · rw [hj]
      exact hserv
    · rw [hj, cycle_core, RdCircBufNew.step, hctl]
    · rw [cycle_core, RdCircBufNew.step, hctl]
    · rw [hj, cycle_core]
      simp only [RdCircBufNew.step, RdCircBufNew.reqFlowidNext, hf, hsq, if_true]
    · rw [hj, cycle_core]
      simp only [RdCircBufNew.step, RdCircBufNew.currOffsetNext, hf, hsq, if_true]
    · rw [hj, cycle_core]
      simp only [RdCircBufNew.step, RdCircBufNew.bytesRemainNext, hf, hsq, if_true]
    · rw [hj, cycle_core]
      simp only [RdCircBufNew.step, hf, hreq, if_true]

theorem Phase.work_le (h : Phase W mem s) : work s ≤ 4 * s.job.size + 8 := by
  have hd := s.noc.delay_le
  cases h with
  | idle hs h => simp [work, hs]
  | waitResp h =>
    have hl := h.reading.left
    simp only [work, h.state]
    omega
  | dataBuffer h =>
    have hl := h.reading.left
    simp only [work, h.state]
    omega
  | dataOutput w c pos h =>
    have hl := h.reading.left
    simp only [work, h.state]
    omega
  | dataDrain pos h =>
    have hl := h.reading.left
    simp only [work, h.state]
    omega
  | dataOutForWrap pos h =>
    have hl := h.reading.left
    simp only [work, h.state]
    omega
  | wrapReq pos h =>
    have hl := h.saved.reading.left
    simp only [work, h.state]
    omega
  | waitWrapResp pos h =>
    have hl := h.saved.reading.left
    simp only [work, h.state]
    omega

/-! ### What a caller sees -/

theorem Phase.rdIdle (h : Phase W mem s) (hs : s.core.state = .ready) : RdIdle s.noc s.tile := by
  cases h with
  | idle _ hp => exact hp
  | waitResp h => rw [h.state] at hs; cases hs
  | dataBuffer h => rw [h.state] at hs; cases hs
  | dataOutput w c pos h => rw [h.state] at hs; cases hs
  | dataDrain pos h => rw [h.state] at hs; cases hs
  | dataOutForWrap pos h => rw [h.state] at hs; cases hs
  | wrapReq pos h => rw [h.state] at hs; cases hs
  | waitWrapResp pos h => rw [h.state] at hs; cases hs

/-- The lines that were taken are full lines of the read. -/
theorem Phase.begun (h : Phase W mem s) (hs : s.core.state ≠ .ready) :
    ∃ pos, s.job.Begun W mem s.out pos := by
  cases h with
  | idle hr => exact absurd hr hs
  | waitResp h => exact ⟨_, h.reading.begun⟩
  | dataBuffer h => exact ⟨_, h.reading.begun⟩
  | dataOutput w c pos h => exact ⟨_, h.reading.begun⟩
  | dataDrain pos h => exact ⟨_, h.reading.begun⟩
  | dataOutForWrap pos h => exact ⟨_, h.reading.begun⟩
  | wrapReq pos h => exact ⟨_, h.saved.reading.begun⟩
  | waitWrapResp pos h => exact ⟨_, h.saved.reading.begun⟩

theorem sound_fits (hW : W < 28) :
    (rdCircBufNew W).Sound (RdReq.Fits W) W mem (Phase W mem) work where
  init := by
    rintro s ⟨hi, hp, -⟩
    exact .idle (beq_iff_eq.mp hi) hp
  takes := by
    intro s i h hi hv
    have hs : s.core.state = .ready := beq_iff_eq.mp hi
    exact ready_takes hs (h.rdIdle hs) hv
  idle := by
    intro s i h hi hok
    have hs : s.core.state = .ready := beq_iff_eq.mp hi
    exact phase_idle hW hs (h.rdIdle hs) hok
  busy := by
    intro s i h hi hok
    cases h with
    | idle hs _ => simp [rdCircBufNew, hs] at hi
    | waitResp h => exact h.advances hW hok
    | dataBuffer h => exact h.advances hok
    | dataOutput w c pos h => exact h.advances hW hok
    | dataDrain pos h => exact h.advances hW hok
    | dataOutForWrap pos h => exact h.advances hW hok
    | wrapReq pos h => exact h.advances hW hok
    | waitWrapResp pos h => exact h.advances hok
  bound := fun _ h => h.work_le

/-- The line that is taken in this cycle. -/
def lineTaken (W : Nat) (s : RdSystem RdCircBufNew) (i : RdIn) : Option RdOut :=
  if i.dataRdy then s.core.out (s.signals (rdCircBufNew W) i) else none

theorem outStep_busy (hs : s.core.state ≠ .ready) :
    s.outStep (rdCircBufNew W) i = s.out ++ (lineTaken W s i).toList := by
  have hout := cycle_out (W := W) (i := i) hs
  show (s.cycle (rdCircBufNew W) i).out = _
  rw [hout, lineTaken]
  cases i.dataRdy <;> rfl

/-- A read is over when its last line is taken. -/
theorem last_taken_iff (hW : W < 28) (h : Phase W mem s) (hs : s.core.state ≠ .ready)
    (hok : s.AllowedBy (RdReq.Fits W) mem i) :
    (∃ o, lineTaken W s i = some o ∧ o.last = true) ↔ s.completes (rdCircBufNew W) i = true := by
  obtain ⟨pos, hbegun⟩ := h.begun hs
  have hout := outStep_busy (W := W) (i := i) hs
  obtain ⟨hp, hb⟩ := (sound_fits hW).busy s i h (busy hs) hok
  rcases hb with ⟨hc, hx⟩ | ⟨hc, -⟩
  · refine ⟨fun _ => hc, fun _ => ?_⟩
    have hpos : 0 < (s.outStep (rdCircBufNew W) i).length := by
      have hlines := hx.lines
      have hmore := hbegun.more
      omega
    have hlast := (hx.last _ (Nat.sub_lt hpos Nat.one_pos)).mpr (Nat.sub_add_cancel hpos)
    -- the lines before are not marked, so the marked one is taken now
    have hmem : (s.outStep (rdCircBufNew W) i)[(s.outStep (rdCircBufNew W) i).length - 1] ∈
        s.out ++ (lineTaken W s i).toList := by
      rw [← hout]
      exact List.getElem_mem _
    rcases List.mem_append.mp hmem with hm | hm
    · rw [(hbegun.plain _ hm).1] at hlast
      cases hlast
    · exact ⟨_, Option.mem_toList.mp hm, hlast⟩
  · rw [hc]
    refine ⟨fun ⟨o, ho, hl⟩ => ?_, fun hno => (Bool.false_ne_true hno).elim⟩
    have hbusy : (s.cycle (rdCircBufNew W) i).core.state ≠ .ready := by
      have hidle := (RdSystem.busy_of_not_completes (busy hs) hc).1
      simpa [rdCircBufNew] using hidle
    obtain ⟨pos', hbegun'⟩ := hp.begun hbusy
    have hmem : o ∈ (s.cycle (rdCircBufNew W) i).out := by
      show o ∈ s.outStep (rdCircBufNew W) i
      rw [hout, ho]
      exact List.mem_append_right _ (List.mem_singleton_self o)
    rw [(hbegun'.plain o hmem).1] at hl
    cases hl

/-- A ready reader that is not asked stays ready and hands over nothing. -/
theorem ready_stays (hs : s.core.state = .ready) (hv : i.reqVal = false) :
    (s.cycle (rdCircBufNew W) i).core.state = .ready := by
  have hsv : (s.signals (rdCircBufNew W) i).reqVal = false := hv
  rw [cycle_core, RdCircBufNew.step]
  simp [RdCircBufNew.ctl, hs, hsv]

theorem lineTaken_ready (hs : s.core.state = .ready) : lineTaken W s i = none := by
  have hn : s.core.out (s.signals (rdCircBufNew W) i) = none := by simp [RdCircBufNew.out, hs]
  rw [lineTaken, hn, ite_self]

theorem sound (hW : W < 28) : (rdCircBufNew W).Sound (RdReq.Valid W) W mem (Phase W mem) work :=
  (sound_fits hW).mono fun _ h => h.fits

/-- Every completed read has delivered exactly the bytes of the ring, with the last line and its
padding marked; a request offered to the ready reader goes into service and completes; and a
request that is being served completes under every schedule with enough favourable cycles. -/
theorem read_exact (hW : W < 28)
    (h : Reach (RdSystem.Init (rdCircBufNew W)) (RdSystem.step (rdCircBufNew W))
      (RdSystem.Allowed W mem) s) :
    (∀ d ∈ s.finished, d.1.Exact W mem d.2) ∧
    s.Serves (rdCircBufNew W) (RdReq.Valid W) mem ∧
    (s.core.state ≠ .ready → ∀ is s',
      run (RdSystem.step (rdCircBufNew W)) (RdSystem.Allowed W mem) s is = some s' →
      4 * s.job.size + 8 < tally (RdSystem.step (rdCircBufNew W)) RdSystem.smooth s is →
      s'.Finished s.finished.length s.job) := by
  have hinv := RdSystem.inv_of_reach (sound hW) h
  refine ⟨hinv.finished, RdSystem.serves (sound hW) hinv,
    fun hb is s' hr ht => RdSystem.finishes (sound hW) hinv ?_ hr ht⟩
  simpa [rdCircBufNew] using hb

def reset : RdSystem RdCircBufNew := ⟨default, default, default, default, [], []⟩

/-- 100 bytes of flow 3 that start 6 bytes before the end of its ring. -/
def wrappedRead (mem : Memory) : List RdIn :=
  [.ask ⟨3, 4090, 100⟩, .calm, .header 1, .line (lineAt mem 16378), .calm, .calm, .header 2,
    .line (lineAt mem 12288), .line (lineAt mem 12352), .calm]

theorem read_exact_wrapped : ∃ s, Reach (RdSystem.Init (rdCircBufNew 12))
      (RdSystem.step (rdCircBufNew 12)) (RdSystem.Allowed 12 (BitVec.ofNat 8)) s ∧
    s.finished.map (fun d => d.1) = [⟨3, 4090, 100⟩] ∧
    ∀ d ∈ s.finished, d.1.Exact 12 (BitVec.ofNat 8) d.2 := by
  have hinit : RdSystem.Init (rdCircBufNew 12) reset := ⟨rfl, ⟨rfl, rfl⟩, rfl⟩
  have hrun : ∃ s, Reach (RdSystem.Init (rdCircBufNew 12)) (RdSystem.step (rdCircBufNew 12))
        (RdSystem.Allowed 12 (BitVec.ofNat 8)) s ∧
      decide (s.finished.map (fun d => d.1) = [⟨3, 4090, 100⟩]) = true :=
    Reach.exists_of_run (wrappedRead (BitVec.ofNat 8)) hinit (by decide +kernel)
  obtain ⟨s, hs, hp⟩ := hrun
  exact ⟨s, hs, of_decide_eq_true hp, (read_exact (by decide) hs).1⟩

end RdNew

end TcpHw
