import TcpHw.Common.AxisFifo
import TcpHw.Frontend.ChksumUnit

/-!
# The registers of `chksum_calc`

The lines of a frame go into the data FIFO and at the same time into five levels of adders, from
which the checksum comes out into the checksum FIFO. A frame leaves the data FIFO when its checksum
is there; the checksum is written over two of its bytes on the way to the output registers. All
instances have 64 bytes a line and `USE_INIT_VALUE` set. The surroundings tie `csum_start` and
`csum_init` to zero.
-/
namespace TcpHw

open Bytes

set_option autoImplicit false

/-! ### The output registers -/

/-- `m_axis_tready_int_reg`, the `m_axis` and the `temp_m_axis` registers -/
structure AxisOutput (α : Type) where
  readyInt : Bool
  m : AxisStage α
  temp : AxisStage α

namespace AxisOutput

variable {α : Type} (r : AxisOutput α) (int : AxisStage α) (mReady : Bool)

/-- One clock edge, with `m_axis_int` and `m_axis_tready`. -/
def cycle : AxisOutput α where
  -- `m_axis_tready_int_early`
  readyInt := mReady || (!r.temp.valid && (!r.m.valid || !int.valid))
  m :=
    if r.readyInt then (if mReady || !r.m.valid then int else r.m)
    else if mReady then r.temp else r.m
  temp :=
    if r.readyInt then (if mReady || !r.m.valid then r.temp else int)
    else if mReady then ⟨false, r.temp.data⟩ else r.temp

/-- The line that is shown. -/
def shown : Option α := if r.m.valid then some r.m.data else none

/-- The lines that are held. -/
def lines : List α := r.m.item ++ r.temp.item

/-- The second register is used only behind the first one, and then no line is taken. -/
structure Tidy : Prop where
  behind : r.temp.valid = true → r.m.valid = true
  closed : r.readyInt = true → r.temp.valid = false

variable {r int mReady}

theorem Tidy.cycle (h : r.Tidy) (hi : int.valid = true → r.readyInt = true) :
    (r.cycle int mReady).Tidy := by
  have hb := h.behind
  have hc := h.closed
  constructor
  · cases hr : r.readyInt <;> cases hm : mReady <;> cases hv : r.m.valid <;>
      cases ht : r.temp.valid <;> simp_all [AxisOutput.cycle]
  · cases hr : r.readyInt <;> cases hm : mReady <;> cases hv : r.m.valid <;>
      cases ht : r.temp.valid <;> simp_all [AxisOutput.cycle]

/-- The line that is shown goes when it is taken, and the new one comes in behind. -/
theorem Tidy.lines_cycle (h : r.Tidy) (hi : int.valid = true → r.readyInt = true) :
    (r.cycle int mReady).lines =
      (if mReady && r.m.valid then r.lines.tail else r.lines) ++ int.item := by
  have hb := h.behind
  have hc := h.closed
  cases hr : r.readyInt <;> cases hm : mReady <;> cases hv : r.m.valid <;>
    cases ht : r.temp.valid <;> cases hx : int.valid <;>
    simp_all [AxisOutput.cycle, lines, AxisStage.item]

theorem Tidy.valid_iff (h : r.Tidy) : r.m.valid = true ↔ r.lines ≠ [] := by
  have hb := h.behind
  cases hv : r.m.valid <;> cases ht : r.temp.valid <;> simp_all [lines, AxisStage.item]

/-- A line that is shown stays until it is taken. -/
theorem stays (hr : mReady = false) (hv : r.m.valid = true) : (r.cycle int mReady).m = r.m := by
  cases hi : r.readyInt <;> simp [AxisOutput.cycle, hi, hr, hv]

theorem Tidy.shown_eq (h : r.Tidy) : r.shown = r.lines.head? := by
  have hb := h.behind
  cases hv : r.m.valid <;> cases ht : r.temp.valid <;>
    simp_all [shown, lines, AxisStage.item]

end AxisOutput

/-! ### The registers -/

/-- One level of the adders, with the fields of `sum_reg` at this level in order. -/
structure SumLevel where
  valid : Bool
  odd : Bool
  last : Bool
  enable : Bool
  offset : BitVec 8
  init : BitVec 16
  initValid : Bool
  sum : List Nat
  deriving DecidableEq

/-- `{csum_in_csum_reg, csum_in_offset_reg, csum_in_enable_reg}` -/
structure CsumWord where
  csum : BitVec 16
  offset : BitVec 8
  enable : Bool
  deriving DecidableEq

/-- `s_axis_cmd` -/
structure CsumCmd where
  enable : Bool
  start : BitVec 8
  offset : BitVec 8
  init : BitVec 16
  deriving DecidableEq, Inhabited

/-- The FIFOs and the registers, in the order of the source; `2 ^ a` lines fit in the data FIFO and
`2 ^ b` checksums in the other one. -/
structure ChksumCalcRegs (a b : Nat) where
  dataFifo : AxisFifo a AxisLine
  csumFifo : AxisFifo b CsumWord
  transferIn : Bool
  csumIn : AxisStage CsumWord
  mask : BitVec 64
  firstCycle : Bool
  inputOffset : BitVec 8
  frame : Bool
  csum : BitVec 16
  csumOffset : BitVec 8
  csumEnable : Bool
  csumSplit : Bool
  level0 : SumLevel
  level1 : SumLevel
  level2 : SumLevel
  level3 : SumLevel
  level4 : SumLevel
  sumAcc : BitVec 16
  out : AxisOutput AxisLine

/-- `s_axis_tvalid` with the line, `s_axis_cmd` while `s_axis_cmd_valid` is high, and
`m_axis_tready`. -/
structure ChksumCalcIn where
  sValid : Bool
  s : AxisLine
  cmd : Option CsumCmd
  mReady : Bool

/-! ### The adders -/

/-- `s_axis_tdata_masked[8 * j +: 8]` -/
def maskedByte (l : AxisLine) (mask : BitVec 64) (j : Nat) : BitVec 8 :=
  if l.keep.getLsbD j && mask.getLsbD j then l.data.extractLsb' (8 * j) 8 else 0

/-- A 16-bit word of the masked line. -/
def maskedWord (l : AxisLine) (mask : BitVec 64) (j : Nat) : BitVec 16 :=
  maskedByte l mask j ++ maskedByte l mask (j + 1)

/-- `sum_0_next` -/
def sum0 (l : AxisLine) (mask : BitVec 64) : List Nat :=
  (List.range 16).map fun t =>
    ((maskedWord l mask (4 * t)).toNat + (maskedWord l mask (4 * t + 2)).toNat) % 2 ^ 17

/-- `sum_next_new_val`: sums of neighbours, in fields of `w` bits. -/
def pairSums (w : Nat) : List Nat → List Nat
  | x :: y :: t => (x + y) % 2 ^ w :: pairSums w t
  | _ => []

/-- One of the later levels, with the level before it. -/
def SumLevel.next (cur prev : SumLevel) (w : Nat) (csumInReady : Bool) : SumLevel :=
  if prev.valid && csumInReady then { prev with valid := true, sum := pairSums w prev.sum }
  else { cur with valid := cur.valid && !csumInReady }

/-- `sum_acc_temp`, of 22 bits -/
def sumAccTemp (sum acc : Nat) : Nat :=
  let t0 := (sum + acc) % 2 ^ 22
  let t1 := (t0 % 2 ^ 16 + t0 / 2 ^ 16) % 2 ^ 22
  (t1 % 2 ^ 16 + t1 / 2 ^ 16 % 2) % 2 ^ 22

/-- The two bytes of a word change places. -/
def swapBytes (x : BitVec 16) : BitVec 16 := x.extractLsb' 0 8 ++ x.extractLsb' 8 8

/-- `m_axis_tdata_int[8 * j +: 8]` is replaced. -/
def setByte (x : Line) (j : Nat) (b : BitVec 8) : Line :=
  x &&& ~~~((BitVec.allOnes 8).setWidth 512 <<< (8 * j)) ||| b.setWidth 512 <<< (8 * j)

namespace ChksumCalcRegs

variable {a b : Nat} (c : ChksumCalcRegs a b) (i : ChksumCalcIn)

def csumInReady : Bool := c.csumFifo.sReady

/-- `s_axis_tready` -/
def sReady : Bool := c.dataFifo.sReady && c.csumInReady && c.transferIn

def cmdReady : Bool := !c.transferIn

/-- The line that is taken. -/
def req : Option AxisLine := if i.sValid && c.sReady then some i.s else none

/-- The command that is taken. -/
def cmd : Option CsumCmd := if c.cmdReady then i.cmd else none

/-- The registers that are read for the mask, after a line was taken. -/
def maskReq : BitVec 64 × BitVec 8 :=
  if 0 < c.inputOffset.toNat then
    if 64 ≤ c.inputOffset.toNat then (0, c.inputOffset - 64)
    else (BitVec.allOnes 64 <<< c.inputOffset.toNat, 0)
  else (BitVec.allOnes 64, c.inputOffset)

/-- The same after a command was taken. -/
def maskCmd (start : BitVec 8) : BitVec 64 × BitVec 8 :=
  if 64 ≤ start.toNat then (0, start - 64) else (BitVec.allOnes 64 <<< start.toNat, 0)

def maskNext : BitVec 64 × BitVec 8 :=
  match c.cmd i with
  | some k => maskCmd k.start
  | none => if (c.req i).isSome then c.maskReq else (c.mask, c.inputOffset)

/-- The first level; the data inputs and the command inputs are taken apart. -/
def level0Next : SumLevel where
  valid := (c.req i).isSome || (c.level0.valid && !c.csumInReady)
  last := if (c.req i).isSome then i.s.last else c.level0.last
  initValid := if (c.req i).isSome then c.firstCycle else c.level0.initValid
  odd := (c.cmd i).elim c.level0.odd fun k => k.start.getLsbD 0
  enable := (c.cmd i).elim c.level0.enable CsumCmd.enable
  offset := (c.cmd i).elim c.level0.offset CsumCmd.offset
  init := (c.cmd i).elim c.level0.init CsumCmd.init
  sum := sum0 i.s c.mask

/-- The sum of the line at the last level and what was summed before. -/
def accNext : Nat :=
  sumAccTemp (c.level4.sum.headD 0)
    (if c.level4.initValid then c.level4.init.toNat else c.sumAcc.toNat)

/-- A line leaves the last level. -/
def sums : Bool := c.level4.valid && c.csumInReady

/-- `csum_in_csum_reg` -/
def csumInNext : CsumWord where
  csum :=
    if c.level4.odd then swapBytes (~~~ BitVec.ofNat 16 c.accNext)
    else ~~~ BitVec.ofNat 16 c.accNext
  offset := c.level4.offset
  enable := c.level4.enable

/-- `data_out_axis_tready` -/
def dataReady : Bool := c.out.readyInt && c.frame

/-- A line leaves the data FIFO. -/
def moves : Bool := c.dataFifo.out.valid && c.dataReady

/-- `csum_out_ready` -/
def csumOutReady : Bool := !c.frame

/-- `m_axis_tdata_int` -/
def insert (x : Line) : Line :=
  if c.moves && c.csumEnable then
    if 64 ≤ c.csumOffset.toNat then x
    else if c.csumSplit then setByte x 0 (c.csum.extractLsb' 0 8)
    else if c.csumOffset.toNat = 63 then setByte x 63 (c.csum.extractLsb' 8 8)
    else
      setByte (setByte x c.csumOffset.toNat (c.csum.extractLsb' 8 8)) (c.csumOffset.toNat + 1)
        (c.csum.extractLsb' 0 8)
  else x

/-- `m_axis_int` -/
def int : AxisStage AxisLine where
  valid := c.moves
  data := { c.dataFifo.out.data with data := c.insert c.dataFifo.out.data.data }

/-- One clock edge. -/
def cycle : ChksumCalcRegs a b where
  dataFifo := c.dataFifo.cycle ⟨c.req i, c.dataReady⟩
  csumFifo :=
    c.csumFifo.cycle ⟨if c.csumIn.valid then some c.csumIn.data else none, c.csumOutReady⟩
  transferIn := (c.cmd i).isSome || (c.transferIn && !(c.req i).any AxisLine.last)
  csumIn := ⟨c.sums && c.level4.last,
    if c.sums && c.level4.last then c.csumInNext else c.csumIn.data⟩
  mask := (c.maskNext i).1
  firstCycle := (c.cmd i).isSome || (c.firstCycle && !(c.req i).isSome)
  inputOffset := (c.maskNext i).2
  frame :=
    if c.frame then !(c.moves && c.dataFifo.out.data.last) else c.csumFifo.out.valid
  csum := if c.frame then c.csum else c.csumFifo.out.data.csum
  csumOffset :=
    if c.frame then
      if c.moves && c.csumEnable && decide (64 ≤ c.csumOffset.toNat) then c.csumOffset - 64
      else c.csumOffset
    else c.csumFifo.out.data.offset
  csumEnable :=
    if c.frame then
      c.csumEnable && !(c.moves && decide (c.csumOffset.toNat < 64) &&
        (c.csumSplit || decide (c.csumOffset.toNat ≠ 63)))
    else c.csumFifo.out.data.enable
  csumSplit :=
    if c.frame then
      c.csumSplit || (c.moves && c.csumEnable && decide (c.csumOffset.toNat = 63))
    else false
  level0 := c.level0Next i
  level1 := c.level1.next c.level0 18 c.csumInReady
  level2 := c.level2.next c.level1 19 c.csumInReady
  level3 := c.level3.next c.level2 20 c.csumInReady
  level4 := c.level4.next c.level3 21 c.csumInReady
  sumAcc := if c.sums then (if c.level4.last then 0 else BitVec.ofNat 16 c.accNext) else c.sumAcc
  out := c.out.cycle c.int i.mReady

/-- `m_axis` while `m_axis_tvalid` is high. -/
def resp : Option AxisLine := c.out.shown

/-- `rst`, with `RAM_PIPELINE` as both FIFOs have it; the data registers and the memories hold
anything. -/
def Init : Prop :=
  c.dataFifo.Init ∧ c.csumFifo.Init ∧ c.dataFifo.pipe.length = 1 ∧ c.csumFifo.pipe.length = 1 ∧
    c.transferIn = false ∧ c.csumIn.valid = false ∧ c.frame = false ∧
    c.level0.valid = false ∧ c.level1.valid = false ∧ c.level2.valid = false ∧
    c.level3.valid = false ∧ c.level4.valid = false ∧ c.out.readyInt = false ∧
    c.out.m.valid = false ∧ c.out.temp.valid = false

end ChksumCalcRegs

end TcpHw
