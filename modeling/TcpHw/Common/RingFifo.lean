import Mathlib.Data.Nat.ModEq
import TcpHw.Common.RingMemory

/-!
# A ring in the memory is a queue of bytes

The sources of the requests follow the pointers of a flow: a write begins where the last one ended
and has room before the bytes not read yet, and a read begins where the last one ended and asks for no
more than was written. What is written and what is read are then apart, and the bytes of every flow
come out as they went in.
-/
namespace TcpHw

open Bytes Trace

set_option autoImplicit false

/-- The first bytes of some lines. -/
def bytesOf (lines : List Line) (n : Nat) : List (BitVec 8) := (List.range n).map (streamByte lines)

@[simp] theorem length_bytesOf (lines : List Line) (n : Nat) : (bytesOf lines n).length = n := by
  simp [bytesOf]

theorem getElem?_bytesOf (lines : List Line) {n k : Nat} (h : k < n) :
    (bytesOf lines n)[k]? = some (streamByte lines k) := by
  simp [bytesOf, h]

namespace RingOp

/-- The bytes of the flow that the operation adds. -/
def written (f : FlowId) : RingOp → List (BitVec 8)
  | .wrote r lines => if r.flowid = f then bytesOf lines r.size else []
  | .read _ _ => []

/-- The bytes of the flow that the operation delivers. -/
def taken (f : FlowId) : RingOp → List (BitVec 8)
  | .wrote _ _ => []
  | .read r out => if r.flowid = f then bytesOf (out.map RdOut.data) r.size else []

end RingOp

def writtenOf (f : FlowId) (ops : List RingOp) : List (BitVec 8) := ops.flatMap (RingOp.written f)

def takenOf (f : FlowId) (ops : List RingOp) : List (BitVec 8) := ops.flatMap (RingOp.taken f)

theorem writtenOf_append (f : FlowId) (ops ops' : List RingOp) :
    writtenOf f (ops ++ ops') = writtenOf f ops ++ writtenOf f ops' := List.flatMap_append

theorem takenOf_append (f : FlowId) (ops ops' : List RingOp) :
    takenOf f (ops ++ ops') = takenOf f ops ++ takenOf f ops' := List.flatMap_append

/-! ### Requests that follow the pointers -/

/-- A write begins behind the bytes written and has room before those not taken. -/
def WrReq.Follows (W : Nat) (ops : List RingOp) (r : WrReq) : Prop :=
  r.wrPtr = (writtenOf r.flowid ops).length % 2 ^ W ∧
    (writtenOf r.flowid ops).length + r.size ≤ (takenOf r.flowid ops).length + 2 ^ W

instance (W : Nat) (ops : List RingOp) (r : WrReq) : Decidable (r.Follows W ops) := by
  unfold WrReq.Follows
  infer_instance

/-- A read begins behind the bytes taken and asks for bytes that were written. -/
def RdReq.Follows (W : Nat) (ops : List RingOp) (r : RdReq) : Prop :=
  r.offset = (takenOf r.flowid ops).length % 2 ^ W ∧
    (takenOf r.flowid ops).length + r.size ≤ (writtenOf r.flowid ops).length

instance (W : Nat) (ops : List RingOp) (r : RdReq) : Decidable (r.Follows W ops) := by
  unfold RdReq.Follows
  infer_instance

section follows

variable {W : Nat} {ops ops' : List RingOp} {w : WrReq} {r : RdReq}

/-- Reads make room. -/
theorem WrReq.Follows.after (h : w.Follows W ops) (hno : ∀ f, writtenOf f ops' = []) :
    w.Follows W (ops ++ ops') := by
  unfold WrReq.Follows at *
  rw [writtenOf_append, hno, List.append_nil, takenOf_append, List.length_append]
  omega

/-- Writes add bytes to be read. -/
theorem RdReq.Follows.after (h : r.Follows W ops) (hno : ∀ f, takenOf f ops' = []) :
    r.Follows W (ops ++ ops') := by
  unfold RdReq.Follows at *
  rw [takenOf_append, hno, List.append_nil, writtenOf_append, List.length_append]
  omega

/-- Behind `n` bytes of the flow. -/
theorem ringAddr_from (f : FlowId) (n k : Nat) :
    ringAddr W f (n % 2 ^ W) k = ringAddr W f 0 (n + k) := by
  simp [ringAddr]

/-- Places of a flow less than a ring from each other have different addresses. -/
theorem ringAddr_ne {f : FlowId} {j k : Nat} (hlt : j < k) (hk : k < j + 2 ^ W) :
    ringAddr W f 0 j ≠ ringAddr W f 0 k := by
  intro h
  simp only [ringAddr, Nat.zero_add] at h
  have hmod : j % 2 ^ W = k % 2 ^ W := Nat.add_left_cancel h
  have hdvd : 2 ^ W ∣ k - j := (Nat.modEq_iff_dvd' hlt.le).mp hmod
  have hle := Nat.le_of_dvd (by omega) hdvd
  omega

/-- The rings of two flows have no address in common. -/
theorem ringAddr_flow {f g : FlowId} (hne : f ≠ g) (p q j k : Nat) :
    ringAddr W f p j ≠ ringAddr W g q k := by
  intro h
  unfold ringAddr at h
  have hpos : 0 < 2 ^ W := Nat.two_pow_pos W
  have hj := Nat.mod_lt (p + j) hpos
  have hk := Nat.mod_lt (q + k) hpos
  have hdiv := congrArg (· / 2 ^ W) h
  simp only [Nat.mul_comm _ (2 ^ W), Nat.mul_add_div hpos, Nat.div_eq_of_lt hj, Nat.div_eq_of_lt hk,
    Nat.add_zero] at hdiv
  exact hne (Fin.ext hdiv)

theorem apart_of_follows (hw : w.Follows W ops) (hr : r.Follows W ops) : Apart W w r := by
  intro j hj k hk
  by_cases hf : w.flowid = r.flowid
  · rw [hw.1, hr.1, ringAddr_from, ringAddr_from, hf]
    have hroom := hw.2
    have hmore := hr.2
    rw [hf] at hroom
    exact (ringAddr_ne (by omega) (by omega)).symm
  · exact ringAddr_flow hf _ _ _ _

end follows

/-! ### The bytes of a flow -/

/-- What was taken is the beginning of what was written, and the rest is in the ring. -/
structure Queued (W : Nat) (mem : Memory) (f : FlowId) (written taken : List (BitVec 8)) : Prop where
  room : written.length ≤ taken.length + 2 ^ W
  begins : taken <+: written
  cells : ∀ k, taken.length ≤ k → k < written.length →
    written[k]? = some (mem (ringAddr W f 0 k))

section queued

variable {W : Nat} {mem : Memory} {f : FlowId} {written taken : List (BitVec 8)}

theorem Queued.wrote (h : Queued W mem f written taken) (lines : List Line) {r : WrReq}
    (hf : r.flowid = f) (hptr : r.wrPtr = written.length % 2 ^ W)
    (hroom : written.length + r.size ≤ taken.length + 2 ^ W) :
    Queued W ((RingOp.wrote r lines).apply W mem) f (written ++ bytesOf lines r.size) taken := by
  have hle := h.begins.length_le
  refine ⟨?_, h.begins.trans (List.prefix_append _ _), fun k hlo hhi => ?_⟩
  · rw [List.length_append, length_bytesOf]
    exact hroom
  · rw [List.length_append, length_bytesOf] at hhi
    have haddr : ∀ j, ringAddr W r.flowid r.wrPtr j = ringAddr W f 0 (written.length + j) := by
      intro j
      rw [hf, hptr, ringAddr_from]
    show _ = some (storeBytes (ringAddr W r.flowid r.wrPtr) (streamByte lines) mem r.size _)
    by_cases hold : k < written.length
    · rw [List.getElem?_append_left hold, h.cells k hlo hold, storeBytes_frame]
      intro j hj
      rw [haddr]
      exact (ringAddr_ne (by omega) (by omega)).symm
    · have hk : k = written.length + (k - written.length) := by omega
      have hnew : ringAddr W f 0 k = ringAddr W r.flowid r.wrPtr (k - written.length) := by
        rw [haddr, ← hk]
      rw [List.getElem?_append_right (by omega), getElem?_bytesOf _ (by omega), hnew,
        storeBytes_apply ?_ (by omega)]
      intro a ha b hb hab
      rw [haddr, haddr] at hab
      by_contra hne
      rcases Nat.lt_or_gt_of_ne hne with hlt | hlt
      · exact ringAddr_ne (by omega) (by omega) hab
      · exact ringAddr_ne (by omega) (by omega) hab.symm

/-- A write for another flow. -/
theorem Queued.wrote_other (h : Queued W mem f written taken) (lines : List Line) {r : WrReq}
    (hf : r.flowid ≠ f) : Queued W ((RingOp.wrote r lines).apply W mem) f written taken := by
  refine ⟨h.room, h.begins, fun k hlo hhi => ?_⟩
  show _ = some (storeBytes (ringAddr W r.flowid r.wrPtr) (streamByte lines) mem r.size _)
  rw [storeBytes_frame fun j _ => ringAddr_flow hf _ _ _ _]
  exact h.cells k hlo hhi

theorem Queued.read (h : Queued W mem f written taken) {r : RdReq} {out : List RdOut}
    (hf : r.flowid = f) (hptr : r.offset = taken.length % 2 ^ W)
    (hmore : taken.length + r.size ≤ written.length) (hx : r.Exact W mem out) :
    Queued W mem f written (taken ++ bytesOf (out.map RdOut.data) r.size) := by
  have hroom := h.room
  refine ⟨?_, ?_, fun k hlo hhi => ?_⟩
  · rw [List.length_append, length_bytesOf]
    omega
  · obtain ⟨rest, hrest⟩ := h.begins
    have hbytes : bytesOf (out.map RdOut.data) r.size = rest.take r.size := by
      refine List.ext_getElem? fun k => ?_
      by_cases hk : k < r.size
      · have hcell := h.cells (taken.length + k) (by omega) (by omega)
        rw [← hrest, List.getElem?_append_right (by omega), Nat.add_sub_cancel_left] at hcell
        rw [getElem?_bytesOf _ hk, List.getElem?_take_of_lt hk, hcell, hx.bytes k hk]
        show some (mem (ringAddr W r.flowid r.offset k)) = _
        rw [hf, hptr, ringAddr_from]
      · rw [List.getElem?_eq_none (by rw [length_bytesOf]; omega),
          List.getElem?_eq_none (by rw [List.length_take]; omega)]
    rw [hbytes, ← hrest]
    exact (List.prefix_append_right_inj taken).mpr (List.take_prefix _ _)
  · rw [List.length_append] at hlo
    exact h.cells k (by omega) hhi

end queued

/-! ### Runs -/

namespace RingSystem

variable {W : Nat} {start : Memory} {s : RingSystem} {i : RingIn}

/-- The requests follow the pointers at the time they are taken. -/
def Pointed (W : Nat) (s : RingSystem) (i : RingIn) : Prop :=
  s.Served W i ∧ (s.wr.buf.state = .ready → ∀ w ∈ i.wr.req, w.Follows W s.log) ∧
    (s.rd.core.state = .ready → i.rd.reqVal = true → i.rd.req.Follows W s.log)

instance (W : Nat) (s : RingSystem) (i : RingIn) : Decidable (s.Pointed W i) := by
  unfold Pointed
  infer_instance

/-- The requests that are served have followed the pointers, which nothing has moved since. -/
structure FifoInv (W : Nat) (start : Memory) (s : RingSystem) : Prop where
  inv : Inv W start s
  wr : s.wr.buf.state ≠ .ready → s.wr.job.req.Follows W s.log
  rd : s.rd.core.state ≠ .ready → s.rd.job.Follows W s.log
  flows : ∀ f, Queued W (s.stored W start) f (writtenOf f s.log) (takenOf f s.log)

theorem FifoInv.writing (h : FifoInv W start s) (hok : s.Pointed W i) {w : WrReq}
    (hw : w ∈ s.writing i) : w.Follows W s.log := by
  unfold RingSystem.writing at hw
  split at hw
  · exact hok.2.1 ‹_› w hw
  · cases hw
    exact h.wr ‹_›

theorem FifoInv.reading (h : FifoInv W start s) (hok : s.Pointed W i) {r : RdReq}
    (hr : r ∈ s.reading i) : r.Follows W s.log := by
  unfold RingSystem.reading at hr
  split at hr
  · split at hr
    · cases hr
      exact hok.2.2 ‹_› ‹_›
    · cases hr
  · cases hr
    exact h.rd ‹_›

theorem FifoInv.allowed (h : FifoInv W start s) (hok : s.Pointed W i) : s.Allowed W i :=
  ⟨hok.1, fun _ hw _ hr => apart_of_follows (h.writing hok hw) (h.reading hok hr)⟩

theorem cycle_log : (s.cycle W i).log = s.log ++ (s.readDone W i ++ s.writeDone W i) := rfl

theorem writtenOf_readDone (f : FlowId) : writtenOf f (s.readDone W i) = [] := by
  unfold readDone
  split <;> rfl

theorem takenOf_writeDone (f : FlowId) : takenOf f (s.writeDone W i) = [] := by
  unfold writeDone
  split <;> rfl

/-- The flows after the read that completes. -/
theorem FifoInv.flows_read (hW : W < 28) (h : FifoInv W start s) (hok : s.Pointed W i) (f : FlowId) :
    Queued W (s.stored W start) f (writtenOf f (s.log ++ s.readDone W i))
      (takenOf f (s.log ++ s.readDone W i)) := by
  have hq := h.flows f
  rw [writtenOf_append, takenOf_append, writtenOf_readDone, List.append_nil, readDone]
  cases hc : s.rd.completes (rdCircBufNew W) i.rd with
  | false =>
    show Queued W _ f _ (_ ++ [])
    rw [List.append_nil]
    exact hq
  | true =>
    obtain ⟨hs, hx⟩ := h.inv.read_delivers hW (h.allowed hok) hc
    obtain ⟨hptr, hmore⟩ := h.rd hs
    show Queued W _ f _ (_ ++ (RingOp.taken f _ ++ []))
    rw [List.append_nil, RingOp.taken]
    by_cases hf : s.rd.job.flowid = f
    · rw [if_pos hf]
      exact hq.read hf (hf ▸ hptr) (hf ▸ hmore) hx
    · rw [if_neg hf, List.append_nil]
      exact hq

/-- The flows after both. -/
theorem FifoInv.flows_cycle (hW : W < 28) (h : FifoInv W start s) (hok : s.Pointed W i) (f : FlowId) :
    Queued W ((s.cycle W i).stored W start) f (writtenOf f (s.cycle W i).log)
      (takenOf f (s.cycle W i).log) := by
  have hq := h.flows_read hW hok f
  have hlog : (s.cycle W i).log = s.log ++ s.readDone W i ++ s.writeDone W i :=
    (List.append_assoc _ _ _).symm
  rw [hlog, writtenOf_append, takenOf_append _ (s.log ++ _), takenOf_writeDone, List.append_nil,
    stored_cycle, writeDone]
  cases hc : s.wr.completes W i.wr with
  | false =>
    show Queued W _ f (_ ++ []) _
    rw [List.append_nil]
    exact hq
  | true =>
    have hb : s.wr.buf.state ≠ .ready := by
      intro hb
      rw [(h.inv.wr.idle_cycle hb).2.2.2] at hc
      cases hc
    obtain ⟨hptr, hroom⟩ := (h.wr hb).after (writtenOf_readDone (W := W) (s := s) (i := i))
    show Queued W _ f (_ ++ (RingOp.written f _ ++ [])) _
    rw [List.append_nil, RingOp.written, if_pos rfl]
    by_cases hf : s.wr.job.req.flowid = f
    · rw [if_pos hf]
      exact hq.wrote _ hf (hf ▸ hptr) (hf ▸ hroom)
    · rw [if_neg hf, List.append_nil]
      exact hq.wrote_other _ hf

/-- The write that is served in the next cycle has followed the pointers. -/
theorem FifoInv.wr_cycle (h : FifoInv W start s) (hok : s.Pointed W i)
    (hb : (s.cycle W i).wr.buf.state ≠ .ready) :
    (s.cycle W i).wr.job.req.Follows W (s.cycle W i).log := by
  have hno : s.wr.completes W i.wr = false := by
    by_contra hc
    exact hb (h.inv.wr.completes_cycle hok.1.1 (by simpa using hc)).1
  have hw : (s.cycle W i).wr.job.req ∈ s.writing i := by
    unfold RingSystem.writing
    split
    · rename_i hr
      obtain ⟨-, htakes, hreq, -⟩ := h.inv.wr.idle_cycle (i := i.wr) hr
      obtain ⟨w, hw⟩ := Option.isSome_iff_exists.mp (hreq hb)
      rw [hw]
      exact congrArg some (htakes w hw).2.symm
    · exact congrArg some (WrSystem.cycle_req ‹_›).symm
  rw [cycle_log]
  refine (h.writing hok hw).after fun f => ?_
  rw [writtenOf_append, writtenOf_readDone, writeDone, hno]
  rfl

/-- The read that is served in the next cycle has followed the pointers. -/
theorem FifoInv.rd_cycle (h : FifoInv W start s) (hok : s.Pointed W i)
    (hs : (s.cycle W i).rd.core.state ≠ .ready) : (s.cycle W i).rd.job.Follows W (s.cycle W i).log := by
  have hno : s.rd.completes (rdCircBufNew W) i.rd = false := RdNew.not_completes hs
  have hr : (s.cycle W i).rd.job ∈ s.reading i := by
    unfold RingSystem.reading
    split
    · rename_i hready
      obtain ⟨seen, hp, -⟩ := h.inv.rd
      cases hv : i.rd.reqVal with
      | false => exact absurd (RdNew.ready_stays hready hv) hs
      | true => exact congrArg some (RdNew.ready_takes (W := W) hready (hp.rdIdle hready) hv).job.symm
    · exact congrArg some (RdNew.cycle_job ‹_›).symm
  rw [cycle_log]
  refine (h.reading hok hr).after fun f => ?_
  rw [takenOf_append, takenOf_writeDone, readDone, hno]
  rfl

theorem fifoInv_init (h : Init W start s) : FifoInv W start s := by
  have hinv := inv_init h
  obtain ⟨⟨hb, -⟩, ⟨hi, -⟩, -, hlog⟩ := h
  refine ⟨hinv, fun hne => absurd hb hne, fun hne => absurd (beq_iff_eq.mp hi) hne, fun f => ?_⟩
  rw [hlog]
  refine ⟨Nat.zero_le _, List.prefix_rfl, fun k _ hk => ?_⟩
  exact absurd hk (Nat.not_lt_zero k)

theorem fifoInv_of_reach (hW : W < 28) (h : Reach (Init W start) (step W) (Pointed W) s) :
    FifoInv W start s := by
  refine h.invariant (fun t ht => fifoInv_init ht) ?_
  intro t i t' hI hok hs
  cases hs
  exact ⟨inv_cycle hW hI.inv (hI.allowed hok), hI.wr_cycle hok, hI.rd_cycle hok,
    hI.flows_cycle hW hok⟩

/-- When the sources follow the pointers, every flow's ring is a queue of bytes: what was taken is
the beginning of what was written, no more than a ring is left, and it lies in the memory in order. -/
theorem ring_is_queue (hW : W < 28) (h : Reach (Init W start) (step W) (Pointed W) s) (f : FlowId) :
    Queued W (contents W start s.log) f (writtenOf f s.log) (takenOf f s.log) :=
  (fifoInv_of_reach hW h).flows f

/-- Ten bytes of flow 3 are written, and read while ten more are written. -/
def streamTwice : List RingIn :=
  [⟨{ WrSystem.ready 0 false with req := some ⟨3, 0, 10⟩ }, .calm⟩,
    ⟨WrSystem.ready counting false, .calm⟩, ⟨WrSystem.ready counting false, .calm⟩,
    ⟨WrSystem.ready counting false, .calm⟩, ⟨WrSystem.ready counting true, .calm⟩,
    ⟨{ WrSystem.ready 0 false with req := some ⟨3, 10, 10⟩ }, .ask ⟨3, 0, 10⟩⟩,
    ⟨WrSystem.ready counting false, .calm⟩, ⟨WrSystem.ready counting false, .header 1⟩,
    ⟨WrSystem.ready counting false, .line counting⟩, ⟨WrSystem.ready counting true, .calm⟩]

theorem ring_is_queue_twice : ∃ s, Reach (Init 12 fun _ => 0) (step 12) (Pointed 12) s ∧
    takenOf 3 s.log = [1, 2, 3, 4, 5, 6, 7, 8, 9, 10] ∧ (writtenOf 3 s.log).length = 20 ∧
      Queued 12 (contents 12 (fun _ => 0) s.log) 3 (writtenOf 3 s.log) (takenOf 3 s.log) := by
  have hrun : ∃ s, Reach (Init 12 fun _ => 0) (step 12) (Pointed 12) s ∧
      decide (takenOf 3 s.log = [1, 2, 3, 4, 5, 6, 7, 8, 9, 10] ∧
        (writtenOf 3 s.log).length = 20) = true :=
    Reach.exists_of_run (s := reset) streamTwice
      ⟨⟨rfl, rfl, rfl, rfl⟩, ⟨rfl, ⟨rfl, rfl⟩, rfl⟩, rfl, rfl⟩ (by decide +kernel)
  obtain ⟨s, hr, hp⟩ := hrun
  obtain ⟨htaken, hlen⟩ := of_decide_eq_true hp
  exact ⟨s, hr, htaken, hlen, ring_is_queue (by decide) hr 3⟩

end RingSystem

end TcpHw
