import TcpHw.Common.RdCircBuf
import TcpHw.Common.CircBufReadNew

/-!
# `rd_circ_buf` delivers what `rd_circ_buf_new` delivers

The lines of the two responses are the lines of the ring from the line of the offset on. While
line after line comes in, the registers hold two neighbouring ones, and what is handed over is
shifted by the same amount every time.
-/
namespace TcpHw

open Bytes Trace

set_option autoImplicit false

namespace RdReq

variable {W : Nat} {r : RdReq}

/-- The place of the offset in its line. -/
def skew (r : RdReq) : Nat := r.offset % 64

/-- Byte `k` from the line of the offset on. -/
def lined (W : Nat) (mem : Memory) (r : RdReq) (k : Nat) : BitVec 8 :=
  mem (ringAddr W r.flowid (r.offset - r.skew) k)

theorem ring_eq_lined (mem : Memory) (k : Nat) : r.ring W mem k = r.lined W mem (r.skew + k) := by
  have hs : r.skew ≤ r.offset := Nat.mod_le _ _
  unfold ring lined ringAddr
  congr 3
  omega

/-- The request for whole lines, before the wrap and behind it. -/
def linePart (W : Nat) (r : RdReq) : Bool → MemReq
  | false => ⟨r.flowid.val * 2 ^ W + (r.offset - r.skew), 64 * ((r.skew + r.firstSize W + 63) / 64)⟩
  | true => ⟨r.flowid.val * 2 ^ W, 64 * ((r.size - r.firstSize W + 63) / 64)⟩

/-- Where the part starts behind the line of the offset. -/
def lineBase (W : Nat) (r : RdReq) : Bool → Nat
  | false => 0
  | true => r.skew + r.firstSize W

theorem ring_lines (hW : 6 ≤ W) : 2 ^ W % 64 = 0 := by
  obtain ⟨n, rfl⟩ := Nat.exists_eq_add_of_le hW
  rw [Nat.pow_add]
  exact Nat.mul_mod_right _ _

/-- The ring ends with a line. -/
theorem lineBase_wraps (hW : 6 ≤ W) (h : r.Valid W) (hw : r.wraps W = true) :
    r.offset - r.skew + r.lineBase W true = 2 ^ W ∧ r.lineBase W true % 64 = 0 := by
  obtain ⟨-, hf⟩ := firstSize_lt hw
  have ho := h.1
  have hl := ring_lines hW
  simp only [lineBase, skew, hf]
  omega

theorem linePart_small (hW : W < 28) (h : r.Valid W) (w : Bool) :
    (r.linePart W w).memReqSize ≤ 2 ^ 27 := by
  have hp : 2 ^ W ≤ 2 ^ 27 := Nat.pow_le_pow_right (by decide) (by omega)
  have ho := h.1
  have hz := h.2.2
  have hs : r.skew ≤ r.offset := Nat.mod_le _ _
  cases w <;> simp only [linePart, firstSize] <;> omega

theorem linePart_byte (mem : Memory) (hW : 6 ≤ W) (h : r.Valid W) {w : Bool}
    (hw : w = true → r.wraps W = true) {k : Nat} (hk : k < (r.linePart W w).memReqSize) :
    mem ((r.linePart W w).memReqAddr + k) = r.lined W mem (r.lineBase W w + k) := by
  have ho := h.1
  have hz := h.2.2
  have hl := ring_lines hW
  unfold lined
  cases w with
  | false =>
    have hlt : r.offset - r.skew + k < 2 ^ W := by
      simp only [linePart, firstSize, skew] at hk ⊢
      omega
    simp only [linePart, lineBase, ringAddr, Nat.zero_add, Nat.mod_eq_of_lt hlt, Nat.add_assoc]
  | true =>
    obtain ⟨he, -⟩ := lineBase_wraps hW h (hw rfl)
    have he' : r.offset - r.skew + (r.lineBase W true + k) = k + 2 ^ W := by omega
    have hlt : k < 2 ^ W := by
      simp only [linePart] at hk
      omega
    simp only [ringAddr, he', Nat.add_mod_right, Nat.mod_eq_of_lt hlt, linePart]

/-- A line of a part has bytes of the read, and the last part ends behind them. -/
theorem linePart_end {w : Bool} {c : Nat} (hc : 64 * c < (r.linePart W w).memReqSize) :
    r.lineBase W w + 64 * c < r.skew + r.size ∧
      ((!w && r.wraps W) = false →
        r.skew + r.size ≤ r.lineBase W w + (r.linePart W w).memReqSize) := by
  have hq : r.firstSize W ≤ r.size := Nat.min_le_right _ _
  cases w with
  | false =>
    simp only [lineBase, linePart, Bool.not_false, Bool.true_and] at hc ⊢
    refine ⟨by omega, fun hw => ?_⟩
    rw [firstSize_eq hw]
    omega
  | true =>
    simp only [lineBase, linePart, Bool.not_true, Bool.false_and, forall_const] at hc ⊢
    omega

theorem linePart_lines (w : Bool) : (r.linePart W w).memReqSize % 64 = 0 := by
  cases w <;> exact Nat.mul_mod_right _ _

end RdReq

namespace RdCircBuf

variable {b : RdCircBuf} {V : Nat → BitVec 8} {pos n : Nat}

/-- The first `n` bytes of the lines behind `pos` are in the two registers. -/
structure Holds (b : RdCircBuf) (V : Nat → BitVec 8) (pos n : Nat) : Prop where
  upper : ∀ j < 64, j < n → byte b.shiftUpper j = V (pos + j)
  lower : ∀ j < 64, 64 + j < n → byte b.shiftLower j = V (pos + 64 + j)

theorem Holds.srcData (h : Holds b V pos n) {k : Nat} (hk : k < 64)
    (hn : b.reqOffset % 64 + k < n) : byte b.srcData k = V (pos + (b.reqOffset % 64 + k)) := by
  have hs : b.reqOffset % 64 < 64 := Nat.mod_lt _ (by decide)
  unfold RdCircBuf.srcData
  rw [byte_upperShl _ _ hs.le hk]
  split
  · rename_i hlt
    exact h.upper _ hlt hn
  · rw [h.lower _ (by omega) (by omega)]
    congr 1
    omega

/-- The reads of whole lines have no padding to mask. -/
theorem respDataMasked_eq {g : RdSignals} (h : g.respLast = true → g.respPadbytes = 0) :
    respDataMasked g = g.respData := by
  unfold respDataMasked
  split
  · rename_i hl
    rw [h hl, Nat.mul_zero, BitVec.shiftLeft_zero, BitVec.and_allOnes]
  · rfl

end RdCircBuf

/-! ### The phases of a request -/

namespace RdOld

variable {W : Nat} {mem : Memory} {s : RdSystem RdCircBuf} {i : RdIn} {pos : Nat}

/-- The read stands at byte `pos`. -/
structure Reading (W : Nat) (mem : Memory) (b : RdCircBuf) (r : RdReq) (out : List RdOut)
    (pos : Nat) : Prop where
  valid : r.Valid W
  begun : r.Begun W mem out pos
  left : b.bytesLeftToOutput = r.size - pos
  offset : b.reqOffset = r.offset

/-- The registers a request behind the wrap is made from. -/
structure WrapRegs (W : Nat) (b : RdCircBuf) (r : RdReq) : Prop where
  flowid : b.flowid = r.flowid
  remain : b.bytesRemain = r.size - r.firstSize W
  offset : r.wraps W = true → b.currOffset = 0

structure WaitRdResp (W : Nat) (mem : Memory) (s : RdSystem RdCircBuf) : Prop where
  state : s.core.state = .waitRdResp
  reading : Reading W mem s.core s.job s.out 0
  serving : RdServing s.noc s.tile (s.job.linePart W false) 0
  entry : s.core.partReqEntry = s.job.linePart W false
  flowid : s.core.flowid = s.job.flowid
  remain : s.core.bytesRemain = s.job.size - s.job.firstSize W

structure DataBuffer (W : Nat) (mem : Memory) (s : RdSystem RdCircBuf) : Prop where
  state : s.core.state = .dataBuffer
  reading : Reading W mem s.core s.job s.out 0
  serving : RdServing s.noc s.tile (s.job.linePart W false) 1
  regs : WrapRegs W s.core s.job
  lower : ∀ j < 64, byte s.core.shiftLower j = s.job.lined W mem j

/-- Two lines are held and line `c` of part `w` is the next one. -/
structure DataOutput (W : Nat) (mem : Memory) (s : RdSystem RdCircBuf) (w : Bool) (c pos : Nat) :
    Prop where
  state : s.core.state = .dataOutput
  reading : Reading W mem s.core s.job s.out pos
  serving : RdServing s.noc s.tile (s.job.linePart W w) c
  started : 0 < c
  wrapped : w = true → s.job.wraps W = true
  first : w = false → WrapRegs W s.core s.job
  second : w = true → s.core.bytesRemain = 0
  holds : s.core.Holds (s.job.lined W mem) pos 128
  place : pos + 128 = s.job.lineBase W w + 64 * c

structure DataDrain (W : Nat) (mem : Memory) (s : RdSystem RdCircBuf) (pos : Nat) : Prop where
  state : s.core.state = .dataDrain
  reading : Reading W mem s.core s.job s.out pos
  idle : RdIdle s.noc s.tile
  holds : s.core.Holds (s.job.lined W mem) pos (s.job.skew + s.job.size - pos)
  fits : s.job.skew + s.job.size - pos ≤ 128

structure OutputForWrapRd (W : Nat) (mem : Memory) (s : RdSystem RdCircBuf) (pos : Nat) : Prop where
  state : s.core.state = .outputForWrapRd
  reading : Reading W mem s.core s.job s.out pos
  idle : RdIdle s.noc s.tile
  wraps : s.job.wraps W = true
  regs : WrapRegs W s.core s.job
  holds : s.core.Holds (s.job.lined W mem) pos 128
  place : pos + 128 = s.job.lineBase W true

/-- The last line of the first part is in the upper register. -/
structure Saved (W : Nat) (mem : Memory) (b : RdCircBuf) (r : RdReq) (out : List RdOut)
    (pos : Nat) : Prop where
  reading : Reading W mem b r out pos
  wraps : r.wraps W = true
  upper : ∀ j < 64, byte b.shiftUpper j = r.lined W mem (pos + j)
  place : pos + 64 = r.lineBase W true

structure SendWrapRdReq (W : Nat) (mem : Memory) (s : RdSystem RdCircBuf) (pos : Nat) : Prop where
  state : s.core.state = .sendWrapRdReq
  idle : RdIdle s.noc s.tile
  regs : WrapRegs W s.core s.job
  saved : Saved W mem s.core s.job s.out pos

structure WaitWrapRdResp (W : Nat) (mem : Memory) (s : RdSystem RdCircBuf) (pos : Nat) : Prop where
  state : s.core.state = .waitWrapRdResp
  serving : RdServing s.noc s.tile (s.job.linePart W true) 0
  remain : s.core.bytesRemain = 0
  saved : Saved W mem s.core s.job s.out pos

inductive Phase (W : Nat) (mem : Memory) (s : RdSystem RdCircBuf) : Prop
  | idle (hs : s.core.state = .ready) (h : RdIdle s.noc s.tile)
  | waitRdResp (h : WaitRdResp W mem s)
  | dataBuffer (h : DataBuffer W mem s)
  | dataOutput (w : Bool) (c pos : Nat) (h : DataOutput W mem s w c pos)
  | dataDrain (pos : Nat) (h : DataDrain W mem s pos)
  | outputForWrapRd (pos : Nat) (h : OutputForWrapRd W mem s pos)
  | sendWrapRdReq (pos : Nat) (h : SendWrapRdReq W mem s pos)
  | waitWrapRdResp (pos : Nat) (h : WaitWrapRdResp W mem s pos)

def work (s : RdSystem RdCircBuf) : Nat :=
  match s.core.state with
  | .ready => 0
  | .waitRdResp => 4 * s.core.bytesLeftToOutput + 6 + s.noc.delay
  | .dataBuffer => 4 * s.core.bytesLeftToOutput + 2
  | .dataOutput => 4 * s.core.bytesLeftToOutput + 1
  | .dataDrain => 4 * s.core.bytesLeftToOutput
  | .outputForWrapRd => 4 * s.core.bytesLeftToOutput
  | .sendWrapRdReq => 4 * s.core.bytesLeftToOutput + 5
  | .waitWrapRdResp => 4 * s.core.bytesLeftToOutput + 2 + s.noc.delay

/-- What one cycle of a request does. -/
def Advances (W : Nat) (mem : Memory) (s : RdSystem RdCircBuf) (i : RdIn) : Prop :=
  Phase W mem (s.cycle (rdCircBuf W) i) ∧
    (s.completes (rdCircBuf W) i = true ∧ s.job.Exact W mem (s.outStep (rdCircBuf W) i) ∨
      s.completes (rdCircBuf W) i = false ∧
        work (s.cycle (rdCircBuf W) i) + (if s.smooth i then 1 else 0) ≤ work s)

theorem cycle_core : (s.cycle (rdCircBuf W) i).core =
    s.core.step W (s.signals (rdCircBuf W) i) := rfl

theorem busy (hb : s.core.state ≠ .ready) : (rdCircBuf W).idle s.core = false := by
  simpa [rdCircBuf] using hb

theorem cycle_job (hb : s.core.state ≠ .ready) : (s.cycle (rdCircBuf W) i).job = s.job :=
  RdSystem.cycle_job (busy hb)

theorem cycle_out (hb : s.core.state ≠ .ready) : (s.cycle (rdCircBuf W) i).out = s.out ++
    (if i.dataRdy then (s.core.out (s.signals (rdCircBuf W) i)).toList else []) :=
  RdSystem.cycle_out (busy hb)

theorem not_completes (hs : (s.cycle (rdCircBuf W) i).core.state ≠ .ready) :
    s.completes (rdCircBuf W) i = false :=
  RdSystem.not_completes (busy hs)

/-- A cycle in which the reader waits, because something is missing. -/
theorem advances_stay (hne : s.core.state ≠ .ready)
    (hcore : (s.cycle (rdCircBuf W) i).core = s.core) (ho : (s.cycle (rdCircBuf W) i).out = s.out)
    (hp : Phase W mem { s.cycle (rdCircBuf W) i with core := s.core, job := s.job, out := s.out })
    (hwork : work (s.cycle (rdCircBuf W) i) = work s) (hs : ¬ s.smooth i = true) :
    Advances W mem s i := by
  refine ⟨?_, .inr ⟨not_completes (by rw [hcore]; exact hne), ?_⟩⟩
  · rw [RdSystem.cycle_eq hcore (cycle_job hne) ho]
    exact hp
  · rw [if_neg hs, hwork]
    exact Nat.le_refl _

theorem Reading.same {b b' : RdCircBuf} {r : RdReq} {out : List RdOut}
    (h : Reading W mem b r out pos) (hl : b'.bytesLeftToOutput = b.bytesLeftToOutput)
    (ho : b'.reqOffset = b.reqOffset) : Reading W mem b' r out pos :=
  ⟨h.valid, h.begun, hl.trans h.left, ho.trans h.offset⟩

/-- The line offered starts with the bytes of the read. -/
theorem Reading.srcData {b : RdCircBuf} {r : RdReq} {out : List RdOut} {n : Nat}
    (h : Reading W mem b r out pos) (hh : b.Holds (r.lined W mem) pos n) {k : Nat} (hk : k < 64)
    (hn : r.skew + k < n) : byte b.srcData k = r.ring W mem (pos + k) := by
  have hs : b.reqOffset % 64 = r.skew := by rw [h.offset]; rfl
  rw [hh.srcData hk (by rw [hs]; exact hn), hs, RdReq.ring_eq_lined]
  congr 1
  omega

theorem skew_lt (r : RdReq) : r.skew < 64 := Nat.mod_lt _ (by decide)

/-- A full line is handed over. -/
theorem Reading.push (hW : W < 28) {b b' : RdCircBuf} {r : RdReq} {out : List RdOut}
    (h : Reading W mem b r out pos) (hh : b.Holds (r.lined W mem) pos 128)
    (hmore : pos + 64 < r.size)
    (hl : b'.bytesLeftToOutput = (b.bytesLeftToOutput + 2 ^ 30 - 64) % 2 ^ 30)
    (ho : b'.reqOffset = b.reqOffset) :
    Reading W mem b' r (out ++ [⟨b.srcData, false, 0⟩]) (pos + 64) := by
  have hp : 2 ^ W ≤ 2 ^ 27 := Nat.pow_le_pow_right (by decide) (by omega)
  have hz := h.valid.2.2
  have hs := skew_lt r
  refine ⟨h.valid, h.begun.push hmore fun k hk => h.srcData hh hk (by omega), ?_, ho.trans h.offset⟩
  rw [hl, h.left]
  omega

/-- Line `c` of part `w` comes into the lower register while the upper one takes the line from
`pos` on. -/
theorem line_in (hW : 6 ≤ W) {w : Bool} {c : Nat} {out : List RdOut} {b : RdCircBuf}
    (hserv : RdServing s.noc s.tile (s.job.linePart W w) c) (hok : s.Allowed W mem i)
    (hv : s.noc.respVal i.toNocIn = true) (hrdy : s.respRdy (rdCircBuf W) i = true)
    (hw : w = true → s.job.wraps W = true)
    (hcore : (s.cycle (rdCircBuf W) i).core = b)
    (hj : (s.cycle (rdCircBuf W) i).job = s.job)
    (ho : (s.cycle (rdCircBuf W) i).out = out)
    (hreading : Reading W mem b s.job out pos)
    (hfirst : w = false → WrapRegs W b s.job) (hsecond : w = true → b.bytesRemain = 0)
    (hstate : b.state = if (s.signals (rdCircBuf W) i).respLast then
      (if b.bytesRemain ≠ 0 then .outputForWrapRd else .dataDrain) else .dataOutput)
    (hup : ∀ j < 64, byte b.shiftUpper j = s.job.lined W mem (pos + j))
    (hlow : b.shiftLower = RdCircBuf.respDataMasked (s.signals (rdCircBuf W) i))
    (hplace : pos + 64 = s.job.lineBase W w + 64 * c) :
    Phase W mem (s.cycle (rdCircBuf W) i) ∧
      (s.cycle (rdCircBuf W) i).core.state ≠ .ready ∧
      work (s.cycle (rdCircBuf W) i) ≤ 4 * b.bytesLeftToOutput + 1 := by
  obtain ⟨hbytes, hmore, hend⟩ := RdSystem.serving_line (C := rdCircBuf W) hserv hok hv hrdy
  have hvalid := hreading.valid
  have hlines := s.job.linePart_lines (W := W) w
  have hcm := hserv.more
  obtain ⟨-, hpe⟩ := RdReq.linePart_end hcm
  have hmask : b.shiftLower = i.respData := by
    refine hlow.trans (RdCircBuf.respDataMasked_eq fun hl => ?_)
    by_cases hq : 64 * (c + 1) < (s.job.linePart W w).memReqSize
    · exact (hmore hq).2.1
    · rw [(hend (by omega)).2.1, hlines]
  have hlow' : ∀ j < 64, byte b.shiftLower j = s.job.lined W mem (pos + 64 + j) := by
    intro j hj
    rw [hmask, hbytes j hj (by omega), RdReq.linePart_byte mem hW hvalid hw (by omega)]
    congr 1
    omega
  have hholds : ∀ n, b.Holds (s.job.lined W mem) pos n :=
    fun n => ⟨fun j hj _ => hup j hj, fun j hj _ => hlow' j hj⟩
  rw [RdSystem.cycle_eq hcore hj ho]
  by_cases hq : 64 * (c + 1) < (s.job.linePart W w).memReqSize
  · obtain ⟨hl, -, hs⟩ := hmore hq
    rw [hl, if_neg Bool.false_ne_true] at hstate
    refine ⟨.dataOutput w (c + 1) pos ⟨hstate, hreading, hs, Nat.succ_pos c, hw, hfirst, hsecond,
      hholds 128, ?_⟩, ?_, ?_⟩
    · show pos + 128 = s.job.lineBase W w + 64 * (c + 1)
      omega
    · show b.state ≠ _
      rw [hstate]
      decide
    · simp only [work, hstate]
      exact Nat.le_refl _
  · obtain ⟨hl, -, hid⟩ := hend (by omega)
    rw [hl, if_pos rfl] at hstate
    cases hn : (!w && s.job.wraps W) with
    | true =>
      obtain ⟨hw0, hwr⟩ := (Bool.and_eq_true _ _).mp hn
      obtain rfl : w = false := by simpa using hw0
      obtain ⟨hfs, -⟩ := RdReq.firstSize_lt hwr
      have hrem : b.bytesRemain ≠ 0 := by
        rw [(hfirst rfl).remain]
        omega
      rw [if_pos hrem] at hstate
      refine ⟨.outputForWrapRd pos ⟨hstate, hreading, hid, hwr, hfirst rfl, hholds 128, ?_⟩, ?_, ?_⟩
      · obtain ⟨-, hb⟩ := RdReq.lineBase_wraps hW hvalid hwr
        show pos + 128 = s.job.lineBase W true
        simp only [RdReq.lineBase, RdReq.linePart] at hb hplace hcm hq ⊢
        omega
      · show b.state ≠ _
        rw [hstate]
        decide
      · simp only [work, hstate]
        omega
    | false =>
      have hrem : b.bytesRemain = 0 := by
        cases w with
        | true => exact hsecond rfl
        | false =>
          have hwr : s.job.wraps W = false := by simpa using hn
          rw [(hfirst rfl).remain, RdReq.firstSize_eq hwr, Nat.sub_self]
      rw [if_neg (not_not_intro hrem)] at hstate
      have hfull := hpe hn
      refine ⟨.dataDrain pos ⟨hstate, hreading, hid, hholds _, ?_⟩, ?_, ?_⟩
      · show s.job.skew + s.job.size - pos ≤ 128
        omega
      · show b.state ≠ _
        rw [hstate]
        decide
      · simp only [work, hstate]
        omega

/-- The offset behind the first part, if there is another. -/
theorem WaitRdResp.nextOffset (hW : 6 ≤ W) (h : WaitRdResp W mem s)
    (hw : s.job.wraps W = true) : s.core.nextOffset W = 0 := by
  obtain ⟨hsum, hl⟩ := RdReq.lineBase_wraps hW h.reading.valid hw
  have hsz : 64 * ((s.job.skew + s.job.firstSize W + 63) / 64) = s.job.lineBase W true := by
    simp only [RdReq.lineBase] at hl ⊢
    omega
  simp only [RdCircBuf.nextOffset, h.entry, RdReq.linePart]
  rw [hsz, Nat.add_assoc, hsum, Nat.add_mod_right, Nat.mul_mod_left]

theorem WaitRdResp.work_eq (h : WaitRdResp W mem s) :
    work s = 4 * s.core.bytesLeftToOutput + 6 + s.noc.delay := by
  simp only [work, h.state]

/-- The reader takes the first line as soon as it comes, and nothing goes out. -/
theorem WaitRdResp.takes (h : WaitRdResp W mem s) : s.core.state ≠ .ready ∧
    (s.cycle (rdCircBuf W) i).out = s.out ∧ s.respRdy (rdCircBuf W) i = true := by
  have hne : s.core.state ≠ .ready := by rw [h.state]; decide
  refine ⟨hne, ?_, ?_⟩
  · rw [cycle_out hne]
    simp [RdCircBuf.out, h.state]
  · simp [RdSystem.respRdy, rdCircBuf, RdCircBuf.respRdy, h.state]

theorem WaitRdResp.advances_wait (h : WaitRdResp W mem s) (hok : s.Allowed W mem i)
    (hv : s.noc.respVal i.toNocIn = false) : Advances W mem s i := by
  obtain ⟨hne, ho, hrdy⟩ := h.takes (i := i)
  have hj := cycle_job (W := W) (i := i) hne
  have hwork := h.work_eq
  have hsv : (s.signals (rdCircBuf W) i).respVal = s.noc.respVal i.toNocIn := rfl
  have hcore : (s.cycle (rdCircBuf W) i).core =
      { s.core with currOffset := s.core.nextOffset W } := by
    rw [cycle_core]
    simp [RdCircBuf.step, h.state, hsv, hv]
  obtain ⟨hserv, hle, hlt⟩ := RdSystem.serving_wait (C := rdCircBuf W) h.serving hok
    (by rw [hv, Bool.false_and])
  refine ⟨?_, .inr ⟨not_completes (by rw [hcore]; exact hne), ?_⟩⟩
  · rw [RdSystem.cycle_eq hcore hj ho]
    exact .waitRdResp { h with serving := hserv, reading := h.reading.same rfl rfl }
  · rw [hwork]
    simp only [work, hcore, h.state]
    split
    · rename_i hs
      have hd := hlt hs hrdy
      omega
    · omega

/-- The line has the first bytes of the ring's lines, and the mask keeps all of it. -/
theorem WaitRdResp.line_bytes (hW : 6 ≤ W) (h : WaitRdResp W mem s) (hok : s.Allowed W mem i)
    (hv : s.noc.respVal i.toNocIn = true) :
    RdCircBuf.respDataMasked (s.signals (rdCircBuf W) i) = i.respData ∧
      ∀ j < 64, byte i.respData j = s.job.lined W mem j := by
  obtain ⟨hbytes, hmore, hend⟩ :=
    RdSystem.serving_line (C := rdCircBuf W) h.serving hok hv h.takes.2.2
  have hlines := s.job.linePart_lines (W := W) false
  have hcm := h.serving.more
  constructor
  · refine RdCircBuf.respDataMasked_eq fun hl => ?_
    by_cases hq : 64 * (0 + 1) < (s.job.linePart W false).memReqSize
    · exact (hmore hq).2.1
    · rw [(hend (by omega)).2.1, hlines]
  · intro j hj'
    have hp := RdReq.linePart_byte mem hW h.reading.valid (w := false) (k := 64 * 0 + j)
      (fun h => by cases h)
      (by omega)
    rw [hbytes j hj' (by omega), hp, RdReq.lineBase, Nat.mul_zero, Nat.zero_add, Nat.zero_add]

/-- More lines of the part follow. -/
theorem WaitRdResp.advances_more (hW : 6 ≤ W) (h : WaitRdResp W mem s) (hok : s.Allowed W mem i)
    (hv : s.noc.respVal i.toNocIn = true) (hq : 64 < (s.job.linePart W false).memReqSize) :
    Advances W mem s i := by
  obtain ⟨hne, ho, hrdy⟩ := h.takes (i := i)
  have hj := cycle_job (W := W) (i := i) hne
  have hwork := h.work_eq
  have hsv : (s.signals (rdCircBuf W) i).respVal = s.noc.respVal i.toNocIn := rfl
  obtain ⟨-, hmore, -⟩ := RdSystem.serving_line (C := rdCircBuf W) h.serving hok hv hrdy
  obtain ⟨hmask, hbytes⟩ := h.line_bytes hW hok hv
  obtain ⟨hl, -, hserv⟩ := hmore (by omega)
  have hcore : (s.cycle (rdCircBuf W) i).core = { s.core with
      state := .dataBuffer
      currOffset := s.core.nextOffset W
      shiftLower := i.respData } := by
    rw [cycle_core]
    simp [RdCircBuf.step, h.state, hsv, hv, hl, hmask]
  refine ⟨?_, .inr ⟨not_completes (by simp [hcore]), ?_⟩⟩
  · rw [RdSystem.cycle_eq hcore hj ho]
    exact .dataBuffer ⟨rfl, h.reading.same rfl rfl, hserv,
      ⟨h.flowid, h.remain, fun hw => h.nextOffset hW hw⟩, hbytes⟩
  · rw [hwork]
    simp only [work, hcore]
    split <;> omega

/-- The part that ends with the ring has one line. -/
theorem WaitRdResp.advances_one (hW : 6 ≤ W) (h : WaitRdResp W mem s) (hok : s.Allowed W mem i)
    (hv : s.noc.respVal i.toNocIn = true) (hq : (s.job.linePart W false).memReqSize ≤ 64) :
    Advances W mem s i := by
  obtain ⟨hne, ho, hrdy⟩ := h.takes (i := i)
  have hj := cycle_job (W := W) (i := i) hne
  have hwork := h.work_eq
  have hsv : (s.signals (rdCircBuf W) i).respVal = s.noc.respVal i.toNocIn := rfl
  obtain ⟨-, -, hend⟩ := RdSystem.serving_line (C := rdCircBuf W) h.serving hok hv hrdy
  obtain ⟨hmask, hbytes⟩ := h.line_bytes hW hok hv
  have hvalid := h.reading.valid
  have hlines := s.job.linePart_lines (W := W) false
  have hcm := h.serving.more
  obtain ⟨hl, -, hid⟩ := hend (by omega)
  have hcore : (s.cycle (rdCircBuf W) i).core = { s.core with
      state := if s.core.bytesRemain ≠ 0 then .sendWrapRdReq else .dataDrain
      currOffset := s.core.nextOffset W
      shiftUpper := i.respData
      shiftLower := 0 } := by
    rw [cycle_core]
    simp [RdCircBuf.step, h.state, hsv, hv, hl, hmask]
  have hsz : (s.job.linePart W false).memReqSize = 64 := by omega
  cases hw : s.job.wraps W with
  | true =>
    obtain ⟨hfs, -⟩ := RdReq.firstSize_lt hw
    obtain ⟨-, hb⟩ := RdReq.lineBase_wraps hW hvalid hw
    have hrem : s.core.bytesRemain ≠ 0 := by
      rw [h.remain]
      omega
    rw [if_pos hrem] at hcore
    refine ⟨?_, .inr ⟨not_completes (by simp [hcore]), ?_⟩⟩
    · rw [RdSystem.cycle_eq hcore hj ho]
      refine .sendWrapRdReq 0 ⟨rfl, hid, ⟨h.flowid, h.remain, fun hw => h.nextOffset hW hw⟩,
        h.reading.same rfl rfl, hw, ?_, ?_⟩
      · intro j hj'
        rw [Nat.zero_add]
        exact hbytes j hj'
      · have hq0 := RdReq.firstSize_pos hvalid.fits
        show 0 + 64 = s.job.lineBase W true
        simp only [RdReq.lineBase, RdReq.linePart] at hb hsz ⊢
        omega
    · rw [hwork]
      simp only [work, hcore]
      split <;> omega
  | false =>
    have hfull := RdReq.firstSize_eq hw
    have hrem : s.core.bytesRemain = 0 := by
      rw [h.remain, hfull, Nat.sub_self]
    rw [if_neg (not_not_intro hrem)] at hcore
    have hfit : s.job.skew + s.job.size ≤ 64 := by
      simp only [RdReq.linePart, hfull] at hsz
      omega
    refine ⟨?_, .inr ⟨not_completes (by simp [hcore]), ?_⟩⟩
    · rw [RdSystem.cycle_eq hcore hj ho]
      refine .dataDrain 0 ⟨rfl, h.reading.same rfl rfl, hid, ⟨?_, ?_⟩, ?_⟩
      · intro j hj' _
        rw [Nat.zero_add]
        exact hbytes j hj'
      · intro j _ hn
        have hn : 64 + j < s.job.skew + s.job.size - 0 := hn
        omega
      · show s.job.skew + s.job.size - 0 ≤ 128
        omega
    · rw [hwork]
      simp only [work, hcore]
      split <;> omega

theorem WaitRdResp.advances (hW : 6 ≤ W) (h : WaitRdResp W mem s) (hok : s.Allowed W mem i) :
    Advances W mem s i := by
  cases hv : s.noc.respVal i.toNocIn with
  | false => exact h.advances_wait hok hv
  | true =>
    by_cases hq : 64 < (s.job.linePart W false).memReqSize
    · exact h.advances_more hW hok hv hq
    · exact h.advances_one hW hok hv (by omega)

theorem DataBuffer.advances (hW : 6 ≤ W) (h : DataBuffer W mem s) (hok : s.Allowed W mem i) :
    Advances W mem s i := by
  have hne : s.core.state ≠ .ready := by rw [h.state]; decide
  have hj := cycle_job (W := W) (i := i) hne
  have ho : (s.cycle (rdCircBuf W) i).out = s.out := by
    rw [cycle_out hne]
    simp [RdCircBuf.out, h.state]
  have hrdy : s.respRdy (rdCircBuf W) i = true := by
    simp [RdSystem.respRdy, rdCircBuf, RdCircBuf.respRdy, h.state]
  have hwork : work s = 4 * s.core.bytesLeftToOutput + 2 := by simp only [work, h.state]
  have hsv : (s.signals (rdCircBuf W) i).respVal = s.noc.respVal i.toNocIn := rfl
  cases hv : s.noc.respVal i.toNocIn with
  | false =>
    have hcore : (s.cycle (rdCircBuf W) i).core = s.core := by
      rw [cycle_core]
      simp [RdCircBuf.step, h.state, hsv, hv]
    obtain ⟨hserv, -, -⟩ := RdSystem.serving_wait (C := rdCircBuf W) h.serving hok
      (by rw [hv, Bool.false_and])
    exact advances_stay hne hcore ho (.dataBuffer { h with serving := hserv })
      (by simp only [work, hcore, h.state]) (RdSystem.not_smooth h.serving Nat.one_pos hv)
  | true =>
    have hcore : (s.cycle (rdCircBuf W) i).core = { s.core with
        state := if (s.signals (rdCircBuf W) i).respLast then
          (if s.core.bytesRemain ≠ 0 then .outputForWrapRd else .dataDrain) else .dataOutput
        shiftUpper := s.core.shiftLower
        shiftLower := RdCircBuf.respDataMasked (s.signals (rdCircBuf W) i) } := by
      rw [cycle_core]
      simp only [RdCircBuf.step, h.state, hsv, hv, if_true]
    have hup : ∀ j < 64, byte s.core.shiftLower j = s.job.lined W mem (0 + j) := by
      intro j hj'
      rw [Nat.zero_add]
      exact h.lower j hj'
    obtain ⟨hp, hr, hw⟩ := line_in hW (w := false) h.serving hok hv hrdy
      (fun h => by cases h) hcore hj ho
      (h.reading.same rfl rfl) (fun _ => ⟨h.regs.flowid, h.regs.remain, h.regs.offset⟩)
      (fun h => by cases h) rfl hup
      rfl rfl
    have hw : _ ≤ 4 * s.core.bytesLeftToOutput + 1 := hw
    refine ⟨hp, .inr ⟨not_completes hr, ?_⟩⟩
    rw [hwork]
    split <;> omega

/-- More than a line is left while lines come. -/
theorem DataOutput.more {w : Bool} {c : Nat} (h : DataOutput W mem s w c pos) :
    pos + 64 < s.job.size := by
  obtain ⟨hpe, -⟩ := RdReq.linePart_end h.serving.more
  have hp := h.place
  have hs := skew_lt s.job
  omega

theorem DataOutput.advances (hW : 6 ≤ W) (hW' : W < 28) {w : Bool} {c : Nat}
    (h : DataOutput W mem s w c pos) (hok : s.Allowed W mem i) : Advances W mem s i := by
  have hne : s.core.state ≠ .ready := by rw [h.state]; decide
  have hj := cycle_job (W := W) (i := i) hne
  have hrdy : s.respRdy (rdCircBuf W) i = i.dataRdy := by
    simp [RdSystem.respRdy, rdCircBuf, RdCircBuf.respRdy, h.state]
  have hwork : work s = 4 * s.core.bytesLeftToOutput + 1 := by simp only [work, h.state]
  have hsv : (s.signals (rdCircBuf W) i).respVal = s.noc.respVal i.toNocIn := rfl
  have hsr : (s.signals (rdCircBuf W) i).dataRdy = i.dataRdy := rfl
  cases hm : s.noc.respVal i.toNocIn && i.dataRdy with
  | false =>
    have hcore : (s.cycle (rdCircBuf W) i).core = s.core := by
      rw [cycle_core]
      simp [RdCircBuf.step, h.state, hsv, hsr, hm]
    have ho : (s.cycle (rdCircBuf W) i).out = s.out := by
      rw [cycle_out hne]
      cases hd : i.dataRdy with
      | false => simp
      | true =>
        rw [hd, Bool.and_true] at hm
        simp [RdCircBuf.out, h.state, hsv, hm]
    obtain ⟨hserv, -, -⟩ := RdSystem.serving_wait (C := rdCircBuf W) h.serving hok
      (by rw [hrdy]; exact hm)
    have hs : ¬ s.smooth i = true := by
      intro hs
      have hd : i.dataRdy = true := (Bool.and_eq_true _ _ ▸ hs).1
      rw [hd, Bool.and_true] at hm
      exact RdSystem.not_smooth h.serving h.started hm hs
    exact advances_stay hne hcore ho (.dataOutput w c pos { h with serving := hserv })
      (by simp only [work, hcore, h.state]) hs
  | true =>
    obtain ⟨hv, hd⟩ := (Bool.and_eq_true _ _).mp hm
    have ho : (s.cycle (rdCircBuf W) i).out = s.out ++ [⟨s.core.srcData, false, 0⟩] := by
      rw [cycle_out hne, hd]
      simp [RdCircBuf.out, h.state, hsv, hv]
    have hcore : (s.cycle (rdCircBuf W) i).core = { s.core with
        state := if (s.signals (rdCircBuf W) i).respLast then
          (if s.core.bytesRemain ≠ 0 then .outputForWrapRd else .dataDrain) else .dataOutput
        shiftUpper := s.core.shiftLower
        shiftLower := RdCircBuf.respDataMasked (s.signals (rdCircBuf W) i)
        bytesLeftToOutput := (s.core.bytesLeftToOutput + 2 ^ 30 - 64) % 2 ^ 30 } := by
      rw [cycle_core]
      simp only [RdCircBuf.step, h.state, hsv, hsr, hm, if_true]
    have hmore := h.more
    have hplace := h.place
    have hup : ∀ j < 64, byte s.core.shiftLower j = s.job.lined W mem (pos + 64 + j) :=
      fun j hj' => h.holds.lower j hj' (by omega)
    have hreading : Reading W mem (s.cycle (rdCircBuf W) i).core s.job
        (s.out ++ [⟨s.core.srcData, false, 0⟩]) (pos + 64) :=
      h.reading.push hW' h.holds hmore (by rw [hcore]) (by rw [hcore])
    rw [hcore] at hreading
    obtain ⟨hp, hr, hw⟩ := line_in hW h.serving hok hv (by rw [hrdy, hd]) h.wrapped hcore hj ho
      hreading (fun hw => ⟨(h.first hw).flowid, (h.first hw).remain, (h.first hw).offset⟩) h.second rfl
      hup rfl (by omega)
    refine ⟨hp, .inr ⟨not_completes hr, ?_⟩⟩
    rw [hreading.left] at hw
    rw [hwork, h.reading.left]
    split <;> omega

theorem idle_port (h : RdIdle s.noc s.tile) (hok : s.Allowed W mem i)
    (hm : s.core.memReq W (s.signals (rdCircBuf W) i) = none) :
    RdIdle (s.cycle (rdCircBuf W) i).noc (s.cycle (rdCircBuf W) i).tile :=
  RdSystem.idle_stay (C := rdCircBuf W) h hok hm

theorem DataDrain.advances (h : DataDrain W mem s pos) (hok : s.Allowed W mem i) :
    Advances W mem s i := by
  have hne : s.core.state ≠ .ready := by rw [h.state]; decide
  have hj := cycle_job (W := W) (i := i) hne
  have hwork : work s = 4 * s.core.bytesLeftToOutput := by simp only [work, h.state]
  have hsr : (s.signals (rdCircBuf W) i).dataRdy = i.dataRdy := rfl
  have hid := idle_port h.idle hok (by simp [RdCircBuf.memReq, h.state])
  have hmore := h.reading.begun.more
  have hfits := h.fits
  have hl := h.reading.left
  cases hd : i.dataRdy with
  | false =>
    have hcore : (s.cycle (rdCircBuf W) i).core = s.core := by
      rw [cycle_core]
      simp [RdCircBuf.step, h.state, hsr, hd]
    have ho : (s.cycle (rdCircBuf W) i).out = s.out := by
      rw [cycle_out hne]
      simp [hd]
    exact advances_stay hne hcore ho (.dataDrain pos { h with idle := hid })
      (by simp only [work, hcore, h.state]) (by simp [RdSystem.smooth, hd])
  | true =>
    by_cases hlast : s.job.size - pos ≤ 64
    · -- the last line
      have hle : s.core.bytesLeftToOutput ≤ 64 := by omega
      have hcore : (s.cycle (rdCircBuf W) i).core =
          { s.core with state := .ready, bytesLeftToOutput := 0 } := by
        rw [cycle_core]
        simp only [RdCircBuf.step, h.state, hsr, hd, if_true]
        rw [if_neg (by omega)]
      have ho : s.outStep (rdCircBuf W) i =
          s.out ++ [⟨s.core.srcData, true, 64 - (s.job.size - pos)⟩] := by
        refine (cycle_out (W := W) hne).trans ?_
        rw [hd]
        simp [RdCircBuf.out, h.state, hlast, hl]
      refine ⟨.idle (by rw [hcore]) hid, .inl ⟨?_, ?_⟩⟩
      · refine RdSystem.completes_of_idle (busy hne) ?_
        rw [hcore]
        rfl
      · rw [ho]
        exact h.reading.begun.finish (by omega)
          fun k hk => h.reading.srcData h.holds (by omega) (by omega)
    · have hgt : s.core.bytesLeftToOutput > 64 := by omega
      have ho : (s.cycle (rdCircBuf W) i).out = s.out ++ [⟨s.core.srcData, false, 0⟩] := by
        rw [cycle_out hne, hd]
        simp [RdCircBuf.out, h.state, hl, hlast]
      have hcore : (s.cycle (rdCircBuf W) i).core = { s.core with
          shiftUpper := s.core.shiftLower
          shiftLower := 0
          bytesLeftToOutput := s.core.bytesLeftToOutput - 64 } := by
        rw [cycle_core]
        simp only [RdCircBuf.step, h.state, hsr, hd, if_true]
        rw [if_pos hgt]
      refine ⟨?_, .inr ⟨not_completes (by rw [hcore]; exact hne), ?_⟩⟩
      · rw [RdSystem.cycle_eq hcore hj ho]
        refine .dataDrain (pos + 64) ⟨h.state, ⟨h.reading.valid, ?_, ?_, h.reading.offset⟩, hid,
          ⟨?_, ?_⟩, ?_⟩
        · exact h.reading.begun.push (by omega)
            fun k hk => h.reading.srcData h.holds hk (by omega)
        · show s.core.bytesLeftToOutput - 64 = s.job.size - (pos + 64)
          omega
        · intro j hj' hn
          have hn : j < s.job.skew + s.job.size - (pos + 64) := hn
          exact h.holds.lower j hj' (by omega)
        · intro j _ hn
          have hn : 64 + j < s.job.skew + s.job.size - (pos + 64) := hn
          omega
        · show s.job.skew + s.job.size - (pos + 64) ≤ 128
          omega
      · rw [hwork]
        simp only [work, hcore, h.state]
        split <;> omega

theorem OutputForWrapRd.advances (hW : W < 28) (h : OutputForWrapRd W mem s pos)
    (hok : s.Allowed W mem i) : Advances W mem s i := by
  have hne : s.core.state ≠ .ready := by rw [h.state]; decide
  have hj := cycle_job (W := W) (i := i) hne
  have hwork : work s = 4 * s.core.bytesLeftToOutput := by simp only [work, h.state]
  have hsr : (s.signals (rdCircBuf W) i).dataRdy = i.dataRdy := rfl
  have hid := idle_port h.idle hok (by simp [RdCircBuf.memReq, h.state])
  obtain ⟨hfs, -⟩ := RdReq.firstSize_lt h.wraps
  have hplace := h.place
  have hbase : s.job.lineBase W true = s.job.skew + s.job.firstSize W := rfl
  have hsk := skew_lt s.job
  have hmore : pos + 64 < s.job.size := by omega
  cases hd : i.dataRdy with
  | false =>
    have hcore : (s.cycle (rdCircBuf W) i).core = s.core := by
      rw [cycle_core]
      simp [RdCircBuf.step, h.state, hsr, hd]
    have ho : (s.cycle (rdCircBuf W) i).out = s.out := by
      rw [cycle_out hne]
      simp [hd]
    exact advances_stay hne hcore ho (.outputForWrapRd pos { h with idle := hid })
      (by simp only [work, hcore, h.state]) (by simp [RdSystem.smooth, hd])
  | true =>
    have ho : (s.cycle (rdCircBuf W) i).out = s.out ++ [⟨s.core.srcData, false, 0⟩] := by
      rw [cycle_out hne, hd]
      simp [RdCircBuf.out, h.state]
    have hcore : (s.cycle (rdCircBuf W) i).core = { s.core with
        state := .sendWrapRdReq
        shiftUpper := s.core.shiftLower
        bytesLeftToOutput := (s.core.bytesLeftToOutput + 2 ^ 30 - 64) % 2 ^ 30 } := by
      rw [cycle_core]
      simp only [RdCircBuf.step, h.state, hsr, hd, if_true]
    have hreading : Reading W mem (s.cycle (rdCircBuf W) i).core s.job
        (s.out ++ [⟨s.core.srcData, false, 0⟩]) (pos + 64) :=
      h.reading.push hW h.holds hmore (by rw [hcore]) (by rw [hcore])
    have hleft := hreading.left
    refine ⟨?_, .inr ⟨not_completes (by simp [hcore]), ?_⟩⟩
    · rw [hcore] at hreading
      rw [RdSystem.cycle_eq hcore hj ho]
      exact .sendWrapRdReq (pos + 64) ⟨rfl, hid, ⟨h.regs.flowid, h.regs.remain, h.regs.offset⟩,
        hreading, h.wraps, fun j hj' => h.holds.lower j hj' (by omega), by omega⟩
    · rw [hwork, h.reading.left]
      have hst : (s.cycle (rdCircBuf W) i).core.state = .sendWrapRdReq := by rw [hcore]
      simp only [work, hst, hleft]
      split <;> omega

/-- A request for whole lines. -/
theorem partReq_eq (b : RdCircBuf) (g : RdSignals) : b.partReq W g =
    ⟨(b.flowidMux g).val * 2 ^ W + (b.currOffsetMux g - b.currOffsetMux g % 64),
      64 * ((b.currOffsetMux g % 64 + b.reqSize W g + 63) / 64)⟩ := by
  unfold RdCircBuf.partReq
  congr 1
  split
  · omega
  · split <;> omega

/-- The request behind the wrap. -/
theorem SendWrapRdReq.memReq (h : SendWrapRdReq W mem s pos) :
    s.core.memReq W (s.signals (rdCircBuf W) i) = some (s.job.linePart W true) ∧
      s.core.reqSize W (s.signals (rdCircBuf W) i) = s.core.bytesRemain := by
  obtain ⟨-, hfs⟩ := RdReq.firstSize_lt h.saved.wraps
  obtain ⟨-, -, hz⟩ := h.saved.reading.valid
  have ho : s.core.currOffsetMux (s.signals (rdCircBuf W) i) = 0 := by
    simp [RdCircBuf.currOffsetMux, h.state, h.regs.offset h.saved.wraps]
  have hr : s.core.reqSize W (s.signals (rdCircBuf W) i) = s.core.bytesRemain := by
    have hns : ¬ 2 ^ W < s.core.bytesRemain := by
      rw [h.regs.remain]
      omega
    simp [RdCircBuf.reqSize, RdCircBuf.spaceToEnd, ho, RdCircBuf.bytesRemainMux, h.state, hns]
  have hf : s.core.flowidMux (s.signals (rdCircBuf W) i) = s.job.flowid := by
    simp [RdCircBuf.flowidMux, h.state, h.regs.flowid]
  have hp : s.core.partReq W (s.signals (rdCircBuf W) i) = s.job.linePart W true := by
    rw [partReq_eq, ho, hr, hf, h.regs.remain, Nat.zero_mod, Nat.zero_add]
    rfl
  exact ⟨by simp [RdCircBuf.memReq, h.state, hp], hr⟩

theorem SendWrapRdReq.advances (hW : W < 28) (h : SendWrapRdReq W mem s pos)
    (hok : s.Allowed W mem i) : Advances W mem s i := by
  have hne : s.core.state ≠ .ready := by rw [h.state]; decide
  have hj := cycle_job (W := W) (i := i) hne
  have ho : (s.cycle (rdCircBuf W) i).out = s.out := by
    rw [cycle_out hne]
    simp [RdCircBuf.out, h.state]
  have hwork : work s = 4 * s.core.bytesLeftToOutput + 5 := by simp only [work, h.state]
  have hrdy : (s.signals (rdCircBuf W) i).memReqRdy = true := h.idle.reqRdy
  obtain ⟨hm, hr⟩ := h.memReq (i := i)
  obtain ⟨hq, -⟩ := RdReq.firstSize_lt h.saved.wraps
  have hserv := RdSystem.idle_ask (C := rdCircBuf W) h.idle hok hm
    (by simp only [RdReq.linePart]; omega) (RdReq.linePart_small hW h.saved.reading.valid true)
  have hcore : (s.cycle (rdCircBuf W) i).core = { s.core with
      state := .waitWrapRdResp
      partReqEntry := s.core.partReq W (s.signals (rdCircBuf W) i)
      bytesRemain := 0 } := by
    rw [cycle_core]
    simp only [RdCircBuf.step, h.state, hrdy, if_true, hr, Nat.sub_self]
  refine ⟨?_, .inr ⟨not_completes (by simp [hcore]), ?_⟩⟩
  · rw [RdSystem.cycle_eq hcore hj ho]
    exact .waitWrapRdResp pos ⟨rfl, hserv, rfl, h.saved.reading.same rfl rfl, h.saved.wraps,
      h.saved.upper, h.saved.place⟩
  · have hdelay := (s.cycle (rdCircBuf W) i).noc.delay_le
    rw [hwork]
    simp only [work, hcore]
    split <;> omega

theorem WaitWrapRdResp.advances (hW : 6 ≤ W) (h : WaitWrapRdResp W mem s pos)
    (hok : s.Allowed W mem i) : Advances W mem s i := by
  have hne : s.core.state ≠ .ready := by rw [h.state]; decide
  have hj := cycle_job (W := W) (i := i) hne
  have ho : (s.cycle (rdCircBuf W) i).out = s.out := by
    rw [cycle_out hne]
    simp [RdCircBuf.out, h.state]
  have hrdy : s.respRdy (rdCircBuf W) i = true := by
    simp [RdSystem.respRdy, rdCircBuf, RdCircBuf.respRdy, h.state]
  have hwork : work s = 4 * s.core.bytesLeftToOutput + 2 + s.noc.delay := by
    simp only [work, h.state]
  have hsv : (s.signals (rdCircBuf W) i).respVal = s.noc.respVal i.toNocIn := rfl
  cases hv : s.noc.respVal i.toNocIn with
  | false =>
    have hcore : (s.cycle (rdCircBuf W) i).core =
        { s.core with currOffset := s.core.nextOffset W } := by
      rw [cycle_core]
      simp [RdCircBuf.step, h.state, hsv, hv]
    obtain ⟨hserv, hle, hlt⟩ := RdSystem.serving_wait (C := rdCircBuf W) h.serving hok
      (by rw [hv, Bool.false_and])
    refine ⟨?_, .inr ⟨not_completes (by rw [hcore]; exact hne), ?_⟩⟩
    · rw [RdSystem.cycle_eq hcore hj ho]
      exact .waitWrapRdResp pos ⟨h.state, hserv, h.remain, h.saved.reading.same rfl rfl,
        h.saved.wraps, h.saved.upper, h.saved.place⟩
    · rw [hwork]
      simp only [work, hcore, h.state]
      split
      · rename_i hs
        have hd := hlt hs hrdy
        omega
      · omega
  | true =>
    have hcore : (s.cycle (rdCircBuf W) i).core = { s.core with
        state := if (s.signals (rdCircBuf W) i).respLast then .dataDrain else .dataOutput
        currOffset := s.core.nextOffset W
        shiftLower := RdCircBuf.respDataMasked (s.signals (rdCircBuf W) i) } := by
      rw [cycle_core]
      simp only [RdCircBuf.step, h.state, hsv, hv, if_true]
    obtain ⟨hp, hr, hw⟩ := line_in hW (w := true) h.serving hok hv hrdy (fun _ => h.saved.wraps)
      hcore hj ho (h.saved.reading.same rfl rfl) (fun h => by cases h) (fun _ => h.remain)
      (by simp [h.remain]) h.saved.upper rfl h.saved.place
    have hw : _ ≤ 4 * s.core.bytesLeftToOutput + 1 := hw
    refine ⟨hp, .inr ⟨not_completes hr, ?_⟩⟩
    rw [hwork]
    split <;> omega

/-- A ready reader takes the request. -/
theorem ready_takes (hs : s.core.state = .ready) (h : RdIdle s.noc s.tile) (hv : i.reqVal = true) :
    s.Takes (rdCircBuf W) i := by
  have hsv : (s.signals (rdCircBuf W) i).reqVal = true := hv
  have hrdy : (s.signals (rdCircBuf W) i).memReqRdy = true := h.reqRdy
  have hn : s.core.out (s.signals (rdCircBuf W) i) = none := by simp [RdCircBuf.out, hs]
  have hb : (s.cycle (rdCircBuf W) i).core.state ≠ .ready := by
    rw [cycle_core]
    simp [RdCircBuf.step, hs, hsv, hrdy]
  exact RdSystem.takes_of_busy h (beq_iff_eq.mpr hs) hv hn (busy hb)

/-- The ready reader takes a request or does nothing. -/
theorem phase_idle (hW : W < 28) (hs : s.core.state = .ready) (h : RdIdle s.noc s.tile)
    (hok : s.Allowed W mem i) : Phase W mem (s.cycle (rdCircBuf W) i) := by
  have hrdy : (s.signals (rdCircBuf W) i).memReqRdy = true := h.reqRdy
  have hsv : (s.signals (rdCircBuf W) i).reqVal = i.reqVal := rfl
  have hsq : (s.signals (rdCircBuf W) i).req = i.req := rfl
  cases hv : i.reqVal with
  | false =>
    refine .idle ?_ (idle_port h hok ?_)
    · rw [cycle_core]
      simp [RdCircBuf.step, hs, hsv, hv]
    · simp [RdCircBuf.memReq, hs, hsv, hv]
  | true =>
    have hvalid := hok.1 hv
    have hom : s.core.currOffsetMux (s.signals (rdCircBuf W) i) = i.req.offset := by
      simp [RdCircBuf.currOffsetMux, hs, hsq]
    have hr : s.core.reqSize W (s.signals (rdCircBuf W) i) = i.req.firstSize W := by
      simp only [RdCircBuf.reqSize, RdCircBuf.spaceToEnd, hom, RdCircBuf.bytesRemainMux, hs, if_true,
        hsq, RdReq.firstSize]
      split <;> omega
    have hf : s.core.flowidMux (s.signals (rdCircBuf W) i) = i.req.flowid := by
      simp [RdCircBuf.flowidMux, hs, hsq]
    have hp : s.core.partReq W (s.signals (rdCircBuf W) i) = i.req.linePart W false := by
      rw [partReq_eq, hom, hr, hf]
      rfl
    have hmem : s.core.memReq W (s.signals (rdCircBuf W) i) = some (i.req.linePart W false) := by
      simp [RdCircBuf.memReq, hs, hsv, hv, hp]
    have hq0 := RdReq.firstSize_pos hvalid.fits
    have hserv := RdSystem.idle_ask (C := rdCircBuf W) h hok hmem
      (by simp only [RdReq.linePart]; omega) (RdReq.linePart_small hW hvalid false)
    obtain ⟨-, -, hj, ho⟩ := ready_takes (W := W) hs h hv
    have hcore : (s.cycle (rdCircBuf W) i).core = { s.core with
        state := .waitRdResp
        flowid := i.req.flowid
        partReqEntry := i.req.linePart W false
        reqOffset := i.req.offset
        bytesRemain := i.req.size - i.req.firstSize W
        bytesLeftToOutput := i.req.size } := by
      rw [cycle_core]
      simp only [RdCircBuf.step, hs, hsv, hv, hrdy, Bool.and_self, if_true, hp, hr, hsq]
    rw [RdSystem.cycle_eq hcore hj ho]
    exact .waitRdResp ⟨rfl, ⟨hvalid, .start hvalid.2.1, rfl, rfl⟩, hserv, rfl, rfl, rfl⟩

theorem Phase.work_le (h : Phase W mem s) : work s ≤ 4 * s.job.size + 8 := by
  have hd := s.noc.delay_le
  cases h with
  | idle hs h => simp [work, hs]
  | waitRdResp h =>
    have hl := h.reading.left
    simp only [work, h.state]
    omega
  | dataBuffer h =>
    have hl := h.reading.left
    simp only [work, h.state]
    omega
  | dataOutput w c pos h =>
    have hl := h.reading.left
    simp only [work, h.state]
    omega
  | dataDrain pos h =>
    have hl := h.reading.left
    simp only [work, h.state]
    omega
  | outputForWrapRd pos h =>
    have hl := h.reading.left
    simp only [work, h.state]
    omega
  | sendWrapRdReq pos h =>
    have hl := h.saved.reading.left
    simp only [work, h.state]
    omega
  | waitWrapRdResp pos h =>
    have hl := h.saved.reading.left
    simp only [work, h.state]
    omega

theorem Phase.rdIdle (h : Phase W mem s) (hs : s.core.state = .ready) : RdIdle s.noc s.tile := by
  cases h with
  | idle _ hp => exact hp
  | waitRdResp h => rw [h.state] at hs; cases hs
  | dataBuffer h => rw [h.state] at hs; cases hs
  | dataOutput w c pos h => rw [h.state] at hs; cases hs
  | dataDrain pos h => rw [h.state] at hs; cases hs
  | outputForWrapRd pos h => rw [h.state] at hs; cases hs
  | sendWrapRdReq pos h => rw [h.state] at hs; cases hs
  | waitWrapRdResp pos h => rw [h.state] at hs; cases hs

theorem sound (hW : 6 ≤ W) (hW' : W < 28) :
    (rdCircBuf W).Sound (RdReq.Valid W) W mem (Phase W mem) work where
  init := by
    rintro s ⟨hi, hp, -⟩
    exact .idle (beq_iff_eq.mp hi) hp
  takes := by
    intro s i h hi hv
    have hs : s.core.state = .ready := beq_iff_eq.mp hi
    exact ready_takes hs (h.rdIdle hs) hv
  idle := by
    intro s i h hi hok
    have hs : s.core.state = .ready := beq_iff_eq.mp hi
    exact phase_idle hW' hs (h.rdIdle hs) hok
  busy := by
    intro s i h hi hok
    cases h with
    | idle hs _ => simp [rdCircBuf, hs] at hi
    | waitRdResp h => exact h.advances hW hok
    | dataBuffer h => exact h.advances hW hok
    | dataOutput w c pos h => exact h.advances hW hW' hok
    | dataDrain pos h => exact h.advances hok
    | outputForWrapRd pos h => exact h.advances hW' hok
    | sendWrapRdReq pos h => exact h.advances hW' hok
    | waitWrapRdResp pos h => exact h.advances hW hok
  bound := fun _ h => h.work_le

/-- Whatever the schedules of the two readers are, a read of the same piece of the same ring shows
the same bytes, the same last line and the same padding; both take a request offered to them when
they are ready and complete it, and complete a request they serve, under every schedule with
enough favourable cycles. -/
theorem readers_agree (hW : 6 ≤ W) (hW' : W < 28) {t : RdSystem RdCircBufNew}
    (hs : Reach (RdSystem.Init (rdCircBuf W)) (RdSystem.step (rdCircBuf W))
      (RdSystem.Allowed W mem) s)
    (ht : Reach (RdSystem.Init (rdCircBufNew W)) (RdSystem.step (rdCircBufNew W))
      (RdSystem.Allowed W mem) t) :
    (∀ d ∈ s.finished, ∀ e ∈ t.finished, d.1 = e.1 →
      d.2.map RdOut.view = e.2.map RdOut.view) ∧
    s.Serves (rdCircBuf W) (RdReq.Valid W) mem ∧ t.Serves (rdCircBufNew W) (RdReq.Valid W) mem ∧
    (s.core.state ≠ .ready → ∀ is s',
      run (RdSystem.step (rdCircBuf W)) (RdSystem.Allowed W mem) s is = some s' →
      4 * s.job.size + 8 < tally (RdSystem.step (rdCircBuf W)) RdSystem.smooth s is →
      s'.Finished s.finished.length s.job) ∧
    (t.core.state ≠ .ready → ∀ is t',
      run (RdSystem.step (rdCircBufNew W)) (RdSystem.Allowed W mem) t is = some t' →
      4 * t.job.size + 8 < tally (RdSystem.step (rdCircBufNew W)) RdSystem.smooth t is →
      t'.Finished t.finished.length t.job) := by
  have hold := RdSystem.inv_of_reach (sound hW hW') hs
  have hnew := RdSystem.inv_of_reach (RdNew.sound hW') ht
  refine ⟨fun d hd e he hr => ?_, RdSystem.serves (sound hW hW') hold,
    RdSystem.serves (RdNew.sound hW') hnew, fun hb is s' hrun htl => ?_,
    fun hb is t' hrun htl => ?_⟩
  · have hx := hnew.finished e he
    rw [← hr] at hx
    exact (hold.finished d hd).view_eq hx
  · exact RdSystem.finishes (sound hW hW') hold (busy hb) hrun htl
  · exact RdSystem.finishes (RdNew.sound hW') hnew (RdNew.busy hb) hrun htl

def reset : RdSystem RdCircBuf := ⟨default, default, default, default, [], []⟩

/-- The piece that `RdNew.wrappedRead` reads, in whole lines. -/
def wrappedLines (mem : Memory) : List RdIn :=
  [.ask ⟨3, 4090, 100⟩, .calm, .header 1, .line (lineAt mem 16320), .calm, .calm, .header 2,
    .line (lineAt mem 12288), .line (lineAt mem 12352), .calm]

theorem readers_agree_wrapped : ∃ (s : RdSystem RdCircBuf) (t : RdSystem RdCircBufNew),
    Reach (RdSystem.Init (rdCircBuf 12)) (RdSystem.step (rdCircBuf 12))
      (RdSystem.Allowed 12 (BitVec.ofNat 8)) s ∧
    Reach (RdSystem.Init (rdCircBufNew 12)) (RdSystem.step (rdCircBufNew 12))
      (RdSystem.Allowed 12 (BitVec.ofNat 8)) t ∧
    s.finished.map (fun d => d.1) = [⟨3, 4090, 100⟩] ∧
    t.finished.map (fun d => d.1) = [⟨3, 4090, 100⟩] ∧
    (∀ d ∈ s.finished, ∀ e ∈ t.finished, d.1 = e.1 →
      d.2.map RdOut.view = e.2.map RdOut.view) ∧
    s.Serves (rdCircBuf 12) (RdReq.Valid 12) (BitVec.ofNat 8) ∧
    t.Serves (rdCircBufNew 12) (RdReq.Valid 12) (BitVec.ofNat 8) := by
  have hold : ∃ s, Reach (RdSystem.Init (rdCircBuf 12)) (RdSystem.step (rdCircBuf 12))
        (RdSystem.Allowed 12 (BitVec.ofNat 8)) s ∧
      decide (s.finished.map (fun d => d.1) = [⟨3, 4090, 100⟩]) = true :=
    Reach.exists_of_run (s := reset) (wrappedLines (BitVec.ofNat 8)) ⟨rfl, ⟨rfl, rfl⟩, rfl⟩
      (by decide +kernel)
  have hnew : ∃ t, Reach (RdSystem.Init (rdCircBufNew 12)) (RdSystem.step (rdCircBufNew 12))
        (RdSystem.Allowed 12 (BitVec.ofNat 8)) t ∧
      decide (t.finished.map (fun d => d.1) = [⟨3, 4090, 100⟩]) = true :=
    Reach.exists_of_run (s := RdNew.reset) (RdNew.wrappedRead (BitVec.ofNat 8))
      ⟨rfl, ⟨rfl, rfl⟩, rfl⟩ (by decide +kernel)
  obtain ⟨s, hs, hp⟩ := hold
  obtain ⟨t, ht, hq⟩ := hnew
  obtain ⟨hview, hserves, hserves', -⟩ := readers_agree (by decide) (by decide) hs ht
  exact ⟨s, t, hs, ht, of_decide_eq_true hp, of_decide_eq_true hq, hview, hserves, hserves'⟩

end RdOld

end TcpHw
