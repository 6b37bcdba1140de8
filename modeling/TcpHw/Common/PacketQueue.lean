import TcpHw.Ram
import TcpHw.Lib.Ring

/-!
# `fifo_1r1w`, `packet_queue` and `packet_queue_controller`

A packet queue is a FIFO with a third pointer: lines are readable up to the commit pointer
only, and a packet that is not committed can be dumped. The controller follows the framing
of the lines written, commits a frame with its last line, dumps it when it does not fit, and
keeps the sizes of committed packets in a FIFO of their own. The memories are asked for the
cell of the next read pointer in every cycle, and they answer with its current contents.
-/
namespace TcpHw

open TcpHw.Ring

set_option autoImplicit false

/-! ### `fifo_1r1w` -/

/-- `memRd` is the cell the memory answers for. -/
structure Fifo1r1w (n : Nat) (α : Type) where
  mem : BitVec n → α
  wrPtr : BitVec (n + 1)
  rdPtr : BitVec (n + 1)
  memRd : Option (BitVec n)

namespace Fifo1r1w

variable {n : Nat} {α : Type}

def empty (q : Fifo1r1w n α) : Bool := addr q.rdPtr == addr q.wrPtr && q.rdPtr.msb == q.wrPtr.msb

def full (q : Fifo1r1w n α) : Bool := addr q.rdPtr == addr q.wrPtr && q.rdPtr.msb != q.wrPtr.msb

/-- `rd_data`; there is none in the first cycle after reset. -/
def rdData (q : Fifo1r1w n α) : Option α := q.memRd.map q.mem

def rdPtrNext (q : Fifo1r1w n α) (rdReq : Bool) : BitVec (n + 1) :=
  if rdReq then q.rdPtr + 1 else q.rdPtr

/-- One clock edge. Neither request is checked. -/
def step (q : Fifo1r1w n α) (wr : Option α) (rdReq : Bool) : Fifo1r1w n α where
  mem := Ram.store q.mem (wr.map fun d => (addr q.wrPtr, d))
  wrPtr := if wr.isSome then q.wrPtr + 1 else q.wrPtr
  rdPtr := q.rdPtrNext rdReq
  memRd := Ram.next q.memRd (some (addr (q.rdPtrNext rdReq))) true

/-- After reset; the memory holds anything. -/
def Init (q : Fifo1r1w n α) : Prop := q.wrPtr = 0 ∧ q.rdPtr = 0 ∧ q.memRd = none

/-- The entries, oldest first. -/
def contents (q : Fifo1r1w n α) : List α :=
  (List.range (q.wrPtr - q.rdPtr).toNat).map fun k => q.mem (addr (q.rdPtr + BitVec.ofNat (n + 1) k))

/-- The registers stand for the list. -/
structure Represents (q : Fifo1r1w n α) (l : List α) : Prop where
  wrPtr : q.wrPtr = q.rdPtr + BitVec.ofNat (n + 1) l.length
  room : l.length ≤ 2 ^ n
  holds : Holds q.mem (addr q.rdPtr) l
  port : l ≠ [] → q.memRd = some (addr q.rdPtr)

variable {q : Fifo1r1w n α} {l : List α}

theorem represents_init (h : q.Init) : Represents q [] := by
  obtain ⟨hw, hr, -⟩ := h
  exact ⟨by simp [hw, hr], Nat.zero_le _, Holds.nil _ _, fun hne => absurd rfl hne⟩

theorem Represents.full_iff (h : Represents q l) : q.full = true ↔ l.length = 2 ^ n := by
  have hw := wrapped_iff q.rdPtr h.room
  rw [← h.wrPtr] at hw
  simpa [full] using hw

theorem Represents.rdData (h : Represents q l) {a : α} {t : List α} (hl : l = a :: t) :
    q.rdData = some a := by
  subst hl
  simp [Fifo1r1w.rdData, h.port (by simp), h.holds.head]

theorem Represents.distance (h : Represents q l) : (q.wrPtr - q.rdPtr).toNat = l.length := by
  rw [h.wrPtr]
  refine sub_offset q.rdPtr ?_
  have hr := h.room
  rw [Nat.pow_succ]
  have hp := Nat.two_pow_pos n
  omega

theorem Represents.empty_iff (h : Represents q l) : q.empty = true ↔ l = [] := by
  have hd := h.distance
  simp only [empty, Bool.and_eq_true, beq_iff_eq, same_iff]
  constructor
  · intro he
    rw [← he, BitVec.sub_self] at hd
    exact List.length_eq_zero_iff.mp hd.symm
  · rintro rfl
    simpa using h.wrPtr.symm

theorem Represents.contents_eq (h : Represents q l) : q.contents = l := by
  have hlen := h.distance
  refine List.ext_getElem (by simp [contents, hlen]) ?_
  intro k hk hk'
  simp only [contents, List.getElem_map, List.getElem_range]
  rw [addr_add, h.holds k hk']

/-- A read takes the oldest entry and a write adds the youngest, if there is one to take and
room for the other. -/
theorem Represents.step (h : Represents q l) {wr : Option α} {rdReq : Bool}
    (hwr : wr.isSome = true → l.length < 2 ^ n) (hrd : rdReq = true → l ≠ []) :
    Represents (q.step wr rdReq) ((if rdReq then l.tail else l) ++ wr.toList) := by
  have hport : (q.step wr rdReq).memRd = some (addr (q.step wr rdReq).rdPtr) := Ram.next_rdy _ _
  have hmem : q.wrPtr + (if wr.isSome then 1 else 0) =
        q.rdPtr + BitVec.ofNat (n + 1) (l ++ wr.toList).length ∧
      (l ++ wr.toList).length ≤ 2 ^ n ∧
      Holds (q.step wr rdReq).mem (addr q.rdPtr) (l ++ wr.toList) := by
    cases wr with
    | none => simpa [h.wrPtr] using ⟨h.room, h.holds⟩
    | some d =>
      have hlt := hwr rfl
      refine ⟨?_, ?_, ?_⟩
      · simp [h.wrPtr, BitVec.ofNat_add, BitVec.add_assoc]
      · rw [List.length_append]
        exact hlt
      · have hp := h.holds.push hlt d
        rw [← addr_add, ← h.wrPtr] at hp
        exact hp
  obtain ⟨hw, hroom, hholds⟩ := hmem
  have hwr' : (q.step wr rdReq).wrPtr = q.wrPtr + (if wr.isSome then 1 else 0) := by
    cases wr <;> simp [Fifo1r1w.step]
  cases rdReq with
  | false => exact ⟨hwr'.trans hw, hroom, hholds, fun _ => hport⟩
  | true =>
    obtain ⟨a, t, rfl⟩ := List.exists_cons_of_ne_nil (hrd rfl)
    rw [List.cons_append] at hw hroom hholds
    refine ⟨hwr'.trans ?_, ?_, ?_, fun _ => hport⟩
    · rw [hw, List.length_cons, offset_succ]
      rfl
    · exact Nat.le_of_succ_le hroom
    · show Holds _ (addr (q.rdPtr + 1)) (t ++ wr.toList)
      rw [addr_succ]
      exact hholds.tail

end Fifo1r1w

/-! ### `packet_queue` -/

structure PacketQueue (n : Nat) (α : Type) where
  mem : BitVec n → α
  wrPtr : BitVec (n + 1)
  rdPtr : BitVec (n + 1)
  cmPtr : BitVec (n + 1)
  memRd : Option (BitVec n)

namespace PacketQueue

variable {n : Nat} {α : Type}

def empty (q : PacketQueue n α) : Bool :=
  addr q.rdPtr == addr q.cmPtr && q.rdPtr.msb == q.cmPtr.msb

def full (q : PacketQueue n α) : Bool :=
  addr q.rdPtr == addr q.wrPtr && q.rdPtr.msb != q.wrPtr.msb

def rdData (q : PacketQueue n α) : Option α := q.memRd.map q.mem

def currPktEls (q : PacketQueue n α) : BitVec (n + 1) := q.wrPtr + 1 - q.cmPtr

def rdPtrNext (q : PacketQueue n α) (rdReq : Bool) : BitVec (n + 1) :=
  if rdReq then q.rdPtr + 1 else q.rdPtr

/-- The write port, `dump_packet` and `cmt_packet`. -/
def write (q : PacketQueue n α) (wr : Option α) (dump cmt : Bool) : PacketQueue n α where
  mem := Ram.store q.mem (wr.map fun d => (if dump then addr q.cmPtr else addr q.wrPtr, d))
  wrPtr :=
    if dump then if wr.isSome then q.cmPtr + 1 else q.cmPtr
    else if wr.isSome then q.wrPtr + 1 else q.wrPtr
  rdPtr := q.rdPtr
  cmPtr := if cmt then q.wrPtr + 1 else q.cmPtr
  memRd := q.memRd

/-- One clock edge. -/
def step (q : PacketQueue n α) (wr : Option α) (dump cmt rdReq : Bool) : PacketQueue n α :=
  { q.write wr dump cmt with
    rdPtr := q.rdPtrNext rdReq
    memRd := Ram.next q.memRd (some (addr (q.rdPtrNext rdReq))) true }

def Init (q : PacketQueue n α) : Prop :=
  q.wrPtr = 0 ∧ q.rdPtr = 0 ∧ q.cmPtr = 0 ∧ q.memRd = none

/-- The pointers and the memory stand for the committed and the uncommitted lines. -/
structure Layout (q : PacketQueue n α) (cm op : List α) : Prop where
  cmPtr : q.cmPtr = q.rdPtr + BitVec.ofNat (n + 1) cm.length
  wrPtr : q.wrPtr = q.rdPtr + BitVec.ofNat (n + 1) (cm.length + op.length)
  room : cm.length + op.length ≤ 2 ^ n
  holds : Holds q.mem (addr q.rdPtr) (cm ++ op)

/-- Also the read port is at the oldest line. -/
structure Represents (q : PacketQueue n α) (cm op : List α) : Prop extends Layout q cm op where
  port : cm ≠ [] → q.memRd = some (addr q.rdPtr)

variable {q : PacketQueue n α} {cm op : List α}

theorem represents_init (h : q.Init) : Represents q [] [] := by
  obtain ⟨hw, hr, hc, -⟩ := h
  exact ⟨⟨by simp [hc, hr], by simp [hw, hr], Nat.zero_le _, Holds.nil _ _⟩,
    fun hne => absurd rfl hne⟩

theorem Layout.lt (h : Layout q cm op) : cm.length + op.length < 2 ^ (n + 1) := by
  have hr := h.room
  have hp := Nat.two_pow_pos n
  rw [Nat.pow_succ]
  omega

theorem Layout.full_iff (h : Layout q cm op) :
    q.full = true ↔ cm.length + op.length = 2 ^ n := by
  have hw := wrapped_iff q.rdPtr h.room
  rw [← h.wrPtr] at hw
  simpa [full] using hw

theorem Layout.distance (h : Layout q cm op) :
    (q.cmPtr - q.rdPtr).toNat = cm.length ∧
      (q.wrPtr - q.rdPtr).toNat = cm.length + op.length := by
  have hlt := h.lt
  constructor
  · rw [h.cmPtr]
    exact sub_offset q.rdPtr (by omega)
  · rw [h.wrPtr]
    exact sub_offset q.rdPtr hlt

theorem Layout.empty_iff (h : Layout q cm op) : q.empty = true ↔ cm = [] := by
  have hd := h.distance.1
  simp only [empty, Bool.and_eq_true, beq_iff_eq, same_iff]
  constructor
  · intro he
    rw [← he, BitVec.sub_self] at hd
    exact List.length_eq_zero_iff.mp hd.symm
  · rintro rfl
    simpa using h.cmPtr.symm

theorem Represents.rdData (h : Represents q cm op) {a : α} {t : List α} (hc : cm = a :: t) :
    q.rdData = some a := by
  subst hc
  simp [PacketQueue.rdData, h.port (by simp), Holds.head h.holds]

/-- The lines of the current packet, with the one being written. -/
theorem Layout.currPktEls (h : Layout q cm op) :
    q.currPktEls = BitVec.ofNat (n + 1) (op.length + 1) := by
  have hwr : q.wrPtr + 1 = q.cmPtr + BitVec.ofNat (n + 1) (op.length + 1) := by
    rw [h.wrPtr, h.cmPtr, BitVec.ofNat_add, BitVec.ofNat_add, ← BitVec.add_assoc,
      ← BitVec.add_assoc]
    rfl
  rw [PacketQueue.currPktEls, hwr, BitVec.add_comm]
  exact BitVec.add_sub_cancel _ _

/-- Lines are written behind the others, or behind the committed ones when a packet is
dumped; a commit comes with the last line of its packet. -/
theorem Layout.write (h : Layout q cm op) {wr : Option α} {dump cmt : Bool}
    (hroom : wr.isSome = true → cm.length + op.length < 2 ^ n)
    (hcmt : cmt = true → wr.isSome = true ∧ dump = false) :
    Layout (q.write wr dump cmt) (if cmt then cm ++ op ++ wr.toList else cm)
      (if cmt then [] else (if dump then [] else op) ++ wr.toList) := by
  cases wr with
  | none =>
    have hno : cmt = false := by
      by_contra hc
      have hs := (hcmt (by simpa using hc)).1
      cases hs
    subst hno
    cases dump with
    | false => simpa [PacketQueue.write, Ram.store] using h
    | true =>
      have hroom := h.room
      refine ⟨h.cmPtr, h.cmPtr, by simp; omega, ?_⟩
      simpa [PacketQueue.write, Ram.store] using h.holds.left
  | some d =>
    have hlt := hroom rfl
    have hwr : q.wrPtr + 1 = q.rdPtr + BitVec.ofNat (n + 1) (cm.length + op.length + 1) := by
      rw [h.wrPtr, BitVec.ofNat_add _ 1, ← BitVec.add_assoc]
      rfl
    have hpush : Holds (Function.update q.mem (addr q.wrPtr) d) (addr q.rdPtr)
        (cm ++ op ++ [d]) := by
      have hp := h.holds.push (by simpa using hlt) d
      rwa [List.length_append, ← addr_add, ← h.wrPtr] at hp
    cases cmt with
    | true =>
      obtain ⟨-, rfl⟩ := hcmt rfl
      refine ⟨?_, ?_, ?_, ?_⟩
      · simpa [PacketQueue.write, Nat.add_assoc] using hwr
      · simpa [PacketQueue.write, Nat.add_assoc] using hwr
      · simp
        omega
      · simpa [PacketQueue.write, Ram.store] using hpush
    | false =>
      cases dump with
      | true =>
        have hpush' : Holds (Function.update q.mem (addr q.cmPtr) d) (addr q.rdPtr)
            (cm ++ [d]) := by
          have hp := h.holds.left.push (by omega) d
          rwa [← addr_add, ← h.cmPtr] at hp
        refine ⟨h.cmPtr, ?_, ?_, hpush'⟩
        · show q.cmPtr + 1 = q.rdPtr + BitVec.ofNat (n + 1) (cm.length + 1)
          rw [h.cmPtr, BitVec.ofNat_add, ← BitVec.add_assoc]
          rfl
        · simp
          omega
      | false =>
        refine ⟨h.cmPtr, ?_, ?_, ?_⟩
        · simpa [PacketQueue.write, Nat.add_assoc] using hwr
        · simp
          omega
        · simpa [PacketQueue.write, Ram.store] using hpush

/-- A read takes the oldest committed line. -/
theorem Represents.step (h : Represents q cm op) {wr : Option α} {dump cmt rdReq : Bool}
    (hroom : wr.isSome = true → cm.length + op.length < 2 ^ n)
    (hcmt : cmt = true → wr.isSome = true ∧ dump = false) (hrd : rdReq = true → cm ≠ []) :
    Represents (q.step wr dump cmt rdReq)
      ((if rdReq then cm.tail else cm) ++ if cmt then op ++ wr.toList else [])
      (if cmt then [] else (if dump then [] else op) ++ wr.toList) := by
  have hport : (q.step wr dump cmt rdReq).memRd =
      some (addr (q.step wr dump cmt rdReq).rdPtr) := Ram.next_rdy _ _
  have hw := h.write hroom hcmt
  have hcm : (if cmt then cm ++ op ++ wr.toList else cm) =
      cm ++ if cmt then op ++ wr.toList else [] := by
    cases cmt <;> simp
  rw [hcm] at hw
  generalize (if cmt then op ++ wr.toList else []) = new at *
  generalize (if cmt then [] else (if dump then [] else op) ++ wr.toList) = op' at *
  cases rdReq with
  | false => exact ⟨⟨hw.cmPtr, hw.wrPtr, hw.room, hw.holds⟩, fun _ => hport⟩
  | true =>
    obtain ⟨a, t, rfl⟩ := List.exists_cons_of_ne_nil (hrd rfl)
    obtain ⟨hc, hp, hr, hh⟩ := hw
    simp only [List.cons_append, List.length_cons] at hc hp hr hh
    refine ⟨⟨?_, ?_, ?_, ?_⟩, fun _ => hport⟩
    · rw [offset_succ] at hc
      exact hc
    · rw [Nat.add_right_comm, offset_succ] at hp
      exact hp
    · show (t ++ new).length + op'.length ≤ 2 ^ n
      omega
    · show Holds _ (addr (q.rdPtr + 1)) (t ++ new ++ op')
      rw [addr_succ]
      exact hh.tail

end PacketQueue

/-! ### `packet_queue_controller` -/

/-- A line with its framing, as it is written. -/
structure FrameLine (α : Type) where
  data : α
  startFrame : Bool
  endFrame : Bool
  endPadbytes : BitVec 6

/-- `state_t` -/
inductive PqState where
  | ready | writingFrame | passFrame
  deriving DecidableEq

/-- What the controller decides in one cycle. -/
structure PqCtl where
  stateNext : PqState
  bufferWrReq : Bool
  cmtPacket : Bool
  dumpPacket : Bool
  sizeWrReq : Bool

/-- A cycle in which nothing is written. -/
def PqCtl.idle (st : PqState) : PqCtl where
  stateNext := st
  bufferWrReq := false
  cmtPacket := false
  dumpPacket := false
  sizeWrReq := false

/-- The combinational logic, for a line with `wr_req`. -/
def pqControl {α : Type} (st : PqState) (full : Bool) (l : FrameLine α) : PqCtl :=
  match st with
  | .ready =>
    if !full && l.startFrame then
      if l.endFrame then
        { PqCtl.idle .ready with bufferWrReq := true, cmtPacket := true, sizeWrReq := true }
      else { PqCtl.idle .writingFrame with bufferWrReq := true }
    else .idle .ready
  | .writingFrame =>
    if full then
      { PqCtl.idle (if l.endFrame then .ready else .passFrame) with dumpPacket := true }
    else if l.endFrame then
      { PqCtl.idle .ready with bufferWrReq := true, cmtPacket := true, sizeWrReq := true }
    else if l.startFrame then
      { PqCtl.idle .writingFrame with bufferWrReq := true, dumpPacket := true }
    else { PqCtl.idle .writingFrame with bufferWrReq := true }
  | .passFrame => .idle (if l.endFrame then .ready else .passFrame)

structure PacketQueueController (n : Nat) (α : Type) where
  state : PqState
  queue : PacketQueue n α
  sizes : Fifo1r1w n (BitVec 14)

structure PqIn (α : Type) where
  wr : Option (FrameLine α)
  rdReq : Bool
  sizeRdReq : Bool

namespace PacketQueueController

variable {n : Nat} {α : Type} (c : PacketQueueController n α) (i : PqIn α)

def ctl : PqCtl :=
  match i.wr with
  | some l => pqControl c.state c.queue.full l
  | none => .idle c.state

/-- `pkt_size_queue_wr_data`, in `MTU_SIZE_W` bits. The source computes in the wider of that
and the width of `curr_pkt_els`, which makes no difference to the low bits. -/
def sizeData (l : FrameLine α) : BitVec 14 :=
  (c.queue.currPktEls.setWidth 14 <<< 6) - l.endPadbytes.setWidth 14

/-- One clock edge. -/
def step : PacketQueueController n α where
  state := (c.ctl i).stateNext
  queue :=
    c.queue.step (if (c.ctl i).bufferWrReq then i.wr.map FrameLine.data else none)
      (c.ctl i).dumpPacket (c.ctl i).cmtPacket i.rdReq
  sizes := c.sizes.step (if (c.ctl i).sizeWrReq then i.wr.map c.sizeData else none) i.sizeRdReq

def Init : Prop := c.state = .ready ∧ c.queue.Init ∧ c.sizes.Init

end PacketQueueController

end TcpHw
