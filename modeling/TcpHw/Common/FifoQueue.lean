import TcpHw.Common.PacketQueue
import TcpHw.Common.SyncRam

/-!
# `fifo_1r1w` is a bounded queue

The FIFO on its memory `ram_1r1w_sync_backpressure`, which is asked for the cell of the next read
pointer in every cycle and whose response is always taken. The FIFO of the packet queues, whose
memory answers with its current contents, is what is left of it when the registers of the memory are
forgotten; the queue of its entries is kept beside it, with the same requests.
-/
namespace TcpHw

open TcpHw.Ring Trace

set_option autoImplicit false

/-- The pointers and the memory. -/
structure FifoOnRam (n : Nat) (α : Type) where
  wrPtr : BitVec (n + 1)
  rdPtr : BitVec (n + 1)
  ram : Ram1r1wSyncBackpressure (BitVec n) α

/-- `wr_req` with `wr_data`, and `rd_req`. -/
structure FifoIn (α : Type) where
  wr : Option α
  rdReq : Bool

namespace FifoOnRam

variable {n : Nat} {α : Type} (q : FifoOnRam n α) (i : FifoIn α)

/-- The FIFO with a memory that answers with its current contents. -/
def view : Fifo1r1w n α := ⟨q.ram.mem, q.wrPtr, q.rdPtr, (q.ram.port ()).reg⟩

def empty : Bool := q.view.empty

def full : Bool := q.view.full

/-- `rd_data` -/
def rdData : Option α := q.ram.respData ()

def rdPtrNext : BitVec (n + 1) := if i.rdReq then q.rdPtr + 1 else q.rdPtr

/-- The requests to the memory. -/
def ramIn : BackpressureIn Unit (BitVec n) α where
  wr := i.wr.map fun d => (addr q.wrPtr, d)
  rd _ := some (addr (q.rdPtrNext i))
  respRdy _ := true

/-- One clock edge. -/
def cycle : FifoOnRam n α where
  wrPtr := if i.wr.isSome then q.wrPtr + 1 else q.wrPtr
  rdPtr := q.rdPtrNext i
  ram := q.ram.cycle (q.ramIn i)

theorem view_cycle : (q.cycle i).view = q.view.step i.wr i.rdReq := by
  have hreg : ((q.cycle i).ram.port ()).reg =
      Ram.next (q.ram.port ()).reg (some (addr (q.rdPtrNext i))) true :=
    BackpressurePort.step_reg
  rw [view, hreg]
  rfl

end FifoOnRam

/-- The FIFO with the queue of its entries, oldest first. -/
structure QueueSystem (n : Nat) (α : Type) where
  fifo : FifoOnRam n α
  queue : List α

namespace QueueSystem

variable {n : Nat} {α : Type}

/-- A queue gives away its oldest entry and gets a youngest one. -/
def queueNext (l : List α) (i : FifoIn α) : List α := (if i.rdReq then l.tail else l) ++ i.wr.toList

def step (s : QueueSystem n α) (i : FifoIn α) : Option (QueueSystem n α) :=
  some ⟨s.fifo.cycle i, queueNext s.queue i⟩

/-- After reset; the memory holds anything. -/
def Init (s : QueueSystem n α) : Prop :=
  s.fifo.wrPtr = 0 ∧ s.fifo.rdPtr = 0 ∧ (∃ mem, BackpressureRam.Init mem s.fifo.ram) ∧ s.queue = []

/-- A write is requested only when `full` is low, and a read only when `empty` is low. -/
def Allowed (s : QueueSystem n α) (i : FifoIn α) : Prop :=
  (i.wr.isSome = true → s.fifo.full = false) ∧ (i.rdReq = true → s.fifo.empty = false)

instance (s : QueueSystem n α) (i : FifoIn α) : Decidable (Allowed s i) := by
  unfold Allowed
  infer_instance

/-- The flags are exact, and what is shown is the oldest entry. -/
structure Refines (s : QueueSystem n α) : Prop where
  room : s.queue.length ≤ 2 ^ n
  empty : s.fifo.empty = true ↔ s.queue = []
  full : s.fifo.full = true ↔ s.queue.length = 2 ^ n
  front : ∀ a t, s.queue = a :: t → s.fifo.rdData = some a

structure Inv (s : QueueSystem n α) : Prop where
  holds : s.fifo.view.Represents s.queue
  ram : ∃ mem, BackpressureRam.Inv mem s.fifo.ram

variable {s : QueueSystem n α} {i : FifoIn α}

theorem inv_init (h : Init s) : Inv s := by
  obtain ⟨hw, hr, ⟨mem, hram⟩, hq⟩ := h
  refine ⟨?_, mem, BackpressureRam.inv_init hram⟩
  rw [hq]
  exact Fifo1r1w.represents_init ⟨hw, hr, hram.port ()⟩

theorem Inv.refines (h : Inv s) : Refines s := by
  obtain ⟨hrep, mem, hram⟩ := h
  refine ⟨hrep.room, hrep.empty_iff, hrep.full_iff, ?_⟩
  intro a t hq
  have hport : (s.fifo.ram.port ()).reg = some (addr s.fifo.rdPtr) := hrep.port (by simp [hq])
  have hfront : s.fifo.view.rdData = some a := hrep.rdData hq
  rw [FifoOnRam.rdData, hram.data () _ hport, ← hram.mem, ← hfront]
  show _ = (s.fifo.ram.port ()).reg.map s.fifo.ram.mem
  rw [hport]
  rfl

theorem Inv.cycle (h : Inv s) (hok : Allowed s i) :
    Inv ⟨s.fifo.cycle i, queueNext s.queue i⟩ := by
  have href := h.refines
  obtain ⟨hrep, mem, hram⟩ := h
  refine ⟨?_, mem, hram.cycle⟩
  show (s.fifo.cycle i).view.Represents _
  rw [FifoOnRam.view_cycle]
  apply hrep.step
  · intro hw
    have hne : s.queue.length ≠ 2 ^ n := fun heq => by
      have hfull := href.full.mpr heq
      rw [hok.1 hw] at hfull
      cases hfull
    have hle := href.room
    omega
  · intro hr heq
    have hempty := href.empty.mpr heq
    rw [hok.2 hr] at hempty
    cases hempty

/-- In every run that respects the flags, `fifo_1r1w` is a queue of capacity `2 ^ n`. -/
theorem fifo_refines_queue (h : Reach Init step Allowed s) : Refines s := by
  refine Inv.refines (h.invariant (fun _ => inv_init) ?_)
  intro t i t' ht hok hs
  cases hs
  exact ht.cycle hok

/-- A FIFO of two entries is filled, with a read and a write at one entry, and runs full. -/
theorem fifo_refines_queue_full : ∃ s : QueueSystem 1 Nat, Reach Init step Allowed s ∧
    (s.queue = [6, 7] ∧ s.fifo.full = true ∧ s.fifo.rdData = some 6) ∧ Refines s := by
  have hrun : ∃ s : QueueSystem 1 Nat, Reach Init step Allowed s ∧
      decide (s.queue = [6, 7] ∧ s.fifo.full = true ∧ s.fifo.rdData = some 6) = true :=
    Reach.exists_of_run (s := ⟨⟨0, 0, .reset fun _ => 0⟩, []⟩)
      [⟨some 5, false⟩, ⟨some 6, true⟩, ⟨some 7, false⟩]
      ⟨rfl, rfl, ⟨_, BackpressureRam.init_reset _⟩, rfl⟩ (by decide +kernel)
  obtain ⟨s, hr, hp⟩ := hrun
  exact ⟨s, hr, decide_eq_true_iff.mp hp, fifo_refines_queue hr⟩

end QueueSystem

end TcpHw
