import TcpHw.Common.SlabAllocTracker
import TcpHw.Recv.FlowidManager
import TcpHw.Recv.TmpRxBuf

/-!
# The allocators of the receive path and their FIFOs

The models of the receive path keep the flow IDs and the slabs that were given back in lists. The
lists stand for the FIFOs of `flowid_manager` and `slab_alloc_tracker`: on the same inputs both show
the same outputs in every cycle, so every run of the one with its FIFO is a run of the other.
-/
namespace TcpHw

open Trace

set_option autoImplicit false

/-! ### `flowid_manager` -/

/-- A flow ID on the wires. -/
def flowidBits (f : FlowId) : BitVec 4 := BitVec.ofNat 4 f.val

theorem flowidBits_last {f : FlowId} : flowidBits f = BitVec.allOnes 4 ↔ f = 15 := by
  revert f
  decide

theorem flowidBits_succ (f : FlowId) : flowidBits (f + 1) =
    if flowidBits f = BitVec.allOnes 4 then 0 else flowidBits f + 1 := by
  revert f
  decide

namespace FlowidManager

/-- The list stands for the FIFO, and the registers are the same. -/
structure Stands (m : FlowidManager) (f : FlowidManagerFifo 4) : Prop where
  flowid : f.flowidReg = flowidBits m.flowid
  useFifo : f.useFifo = m.useFifo
  reclaimed : f.reclaimed.Represents (m.reclaimed.map flowidBits)

variable {m : FlowidManager} {f : FlowidManagerFifo 4} {req : Bool} {ret : Option FlowId}

theorem Stands.avail (h : Stands m f) : f.avail = m.avail := by
  have hempty : f.reclaimed.empty = m.reclaimed.isEmpty := by
    rw [Bool.eq_iff_iff, h.reclaimed.empty_iff, List.map_eq_nil_iff, List.isEmpty_iff]
  rw [FlowidManagerFifo.avail, FlowidManager.avail, h.useFifo, hempty]

/-- The ID on offer is the same. -/
theorem Stands.out (h : Stands m f) (ha : m.avail = true) :
    f.flowid = some (flowidBits m.out) := by
  unfold FlowidManagerFifo.flowid FlowidManager.out
  rw [h.useFifo, h.flowid]
  cases hu : m.useFifo with
  | false => rfl
  | true =>
    cases hl : m.reclaimed with
    | nil => simp [FlowidManager.avail, hu, hl] at ha
    | cons x t => exact h.reclaimed.rdData (by rw [hl, List.map_cons]; rfl)

/-- Where requests wait for an ID and returns for room, the next states belong together. -/
theorem Stands.step (h : Stands m f) (hreq : req = true → m.avail = true)
    (hret : ret.isSome = true → f.reclaimed.full = false) :
    Stands (m.step req ret) (f.step req (ret.map flowidBits)) := by
  have hroom : (ret.map flowidBits).isSome = true →
      (m.reclaimed.map flowidBits).length < 2 ^ 4 := by
    intro hs
    have hfull := hret (by rwa [Option.isSome_map] at hs)
    have hle := h.reclaimed.room
    have hne : (m.reclaimed.map flowidBits).length ≠ 2 ^ 4 := fun heq => by
      rw [h.reclaimed.full_iff.mpr heq] at hfull
      cases hfull
    omega
  have htake : (req && m.useFifo) = true → m.reclaimed.map flowidBits ≠ [] := by
    intro hr
    obtain ⟨hr, hu⟩ := Bool.and_eq_true_iff.mp hr
    have ha := hreq hr
    simpa [FlowidManager.avail, hu] using ha
  have hfifo := h.reclaimed.step hroom htake
  refine ⟨?_, ?_, ?_⟩
  · simp only [FlowidManagerFifo.step, FlowidManager.step, h.flowid]
    cases req with
    | false => rfl
    | true => exact (flowidBits_succ m.flowid).symm
  · simp only [FlowidManagerFifo.step, FlowidManager.step, h.flowid, h.useFifo, flowidBits_last]
  · have hlist : (m.step req ret).reclaimed.map flowidBits =
        (if req && m.useFifo then (m.reclaimed.map flowidBits).tail
          else m.reclaimed.map flowidBits) ++ (ret.map flowidBits).toList := by
      simp only [FlowidManager.step, List.map_append]
      congr 1
      · split
        · exact List.map_tail
        · rfl
      · cases ret <;> rfl
    rw [hlist]
    simp only [FlowidManagerFifo.step, h.useFifo]
    exact hfifo

theorem stands_init (h : f.Init) : Stands reset f :=
  ⟨h.1, h.2.1, Fifo1r1w.represents_init h.2.2⟩

end FlowidManager

/-- A request and a returned ID of the receive path. -/
structure FlowidCmd where
  req : Bool
  ret : Option FlowId

/-- Every run of the manager with its FIFO, in which requests wait for `flowid_avail` and returns
for `flowid_ret_rdy`, is one of the manager of the receive path, with the same IDs on offer. -/
theorem flowid_manager_simulated {f : FlowidManagerFifo 4}
    (h : Reach FlowidManagerFifo.Init
      (fun f (i : FlowidCmd) => some (f.step i.req (i.ret.map flowidBits)))
      (fun f i => (i.req = true → f.avail = true) ∧
        (i.ret.isSome = true → f.reclaimed.full = false)) f) :
    ∃ m, Reach (· = FlowidManager.reset) (fun m (i : FlowidCmd) => some (m.step i.req i.ret))
        (fun m i => i.req = true → m.avail = true) m ∧
      m.Stands f ∧ f.avail = m.avail ∧
      (m.avail = true → f.flowid = some (flowidBits m.out)) := by
  have hsim : ∃ m, Reach (· = FlowidManager.reset)
      (fun m (i : FlowidCmd) => some (m.step i.req i.ret))
      (fun m i => i.req = true → m.avail = true) m ∧ m.Stands f := by
    refine h.simulated (R := fun f (m : FlowidManager) => m.Stands f) ?_ ?_
    · exact fun f hf => ⟨_, rfl, FlowidManager.stands_init hf⟩
    · intro f i f' m hr hok hs
      cases hs
      have hreq : i.req = true → m.avail = true := fun hreq => hr.avail ▸ hok.1 hreq
      exact ⟨i, _, hreq, rfl, hr.step hreq hok.2⟩
  obtain ⟨m, hm, hr⟩ := hsim
  exact ⟨m, hm, hr, hr.avail, hr.out⟩

/-! ### `slab_alloc_tracker` -/

/-- The parameters of the instance in the receive path. -/
def rxTmpSlabs : SlabParams := ⟨10, 2048, by decide, by decide⟩

theorem rxTmpSlabs_width : rxTmpSlabs.slabNumW = 4 ∧ rxTmpSlabs.addrW = 15 := ⟨rfl, rfl⟩

/-- An address of the instance. -/
def slabBits (a : SlabAddr) : rxTmpSlabs.Addr := a

namespace SlabAllocTracker

/-- The list stands for the FIFO, and the registers are the same. -/
structure Stands (m : SlabAllocTracker) (t : SlabTracker rxTmpSlabs) : Prop where
  initSlabAddr : t.initSlabAddr = slabBits m.initSlabAddr
  useFifo : t.useFifo = m.useFifo
  freed : t.freedSlabFifo.Represents (m.freed.map slabBits)

variable {m : SlabAllocTracker} {t : SlabTracker rxTmpSlabs}

theorem Stands.empty (h : Stands m t) : t.freedSlabFifo.empty = m.freed.isEmpty := by
  rw [Bool.eq_iff_iff, h.freed.empty_iff, List.map_eq_nil_iff, List.isEmpty_iff]

theorem Stands.respError (h : Stands m t) : t.respError = m.respError := by
  rw [SlabTracker.respError, SlabAllocTracker.respError, h.useFifo, h.empty]
  cases m.useFifo <;> rfl

theorem Stands.freeRdy (h : Stands m t) : t.freeRdy = m.freeRdy := by
  have hlen : t.freedSlabFifo.full = true ↔ m.freed.length = 16 := by
    have hfull := h.freed.full_iff
    rwa [List.length_map] at hfull
  have hroom : m.freed.length ≤ 16 := by
    have hle := h.freed.room
    rwa [List.length_map] at hle
  rw [SlabTracker.freeRdy, SlabAllocTracker.freeRdy, Bool.eq_iff_iff, Bool.not_eq_true',
    decide_eq_true_iff, ← Bool.not_eq_true, hlen]
  omega

/-- The slab on offer is the same. -/
theorem Stands.respAddr (h : Stands m t) (he : m.respError = false) :
    t.respAddr = some (slabBits m.respAddr) := by
  unfold SlabTracker.respAddr SlabAllocTracker.respAddr
  rw [h.useFifo, h.initSlabAddr]
  cases hu : m.useFifo with
  | false => rfl
  | true =>
    cases hl : m.freed with
    | nil => simp [SlabAllocTracker.respError, hu, hl] at he
    | cons x l => exact h.freed.rdData (by rw [hl, List.map_cons]; rfl)

/-- Whatever is asked of it, the next states belong together. -/
theorem Stands.step (h : Stands m t) (consume : Bool) (free : Option SlabAddr) :
    Stands (m.step consume free) (t.step consume (free.map slabBits)) := by
  have hfreed : t.freed (free.map slabBits) =
      (if m.freeRdy then free else none).map slabBits := by
    rw [SlabTracker.freed, h.freeRdy]
    split <;> rfl
  have hrd : t.fifoRdReq consume = (m.useFifo && consume && !m.freed.isEmpty) := by
    rw [SlabTracker.fifoRdReq, h.useFifo, h.empty]
    cases m.useFifo <;> rfl
  have hroom : (t.freed (free.map slabBits)).isSome = true →
      (m.freed.map slabBits).length < 2 ^ rxTmpSlabs.slabNumW := by
    intro hs
    cases hr : m.freeRdy with
    | false => simp [hfreed, hr] at hs
    | true =>
      rw [List.length_map]
      exact of_decide_eq_true hr
  have htake : t.fifoRdReq consume = true → m.freed.map slabBits ≠ [] := by
    intro hr hnil
    rw [hrd, List.map_eq_nil_iff.mp hnil, List.isEmpty_nil, Bool.not_true, Bool.and_false] at hr
    cases hr
  have hfifo := h.freed.step hroom htake
  refine ⟨?_, ?_, ?_⟩
  · simp only [SlabTracker.step, SlabAllocTracker.step, h.useFifo, h.initSlabAddr]
    split <;> rfl
  · simp only [SlabTracker.step, SlabAllocTracker.step, h.useFifo, h.initSlabAddr]
    have hlast : decide ((slabBits m.initSlabAddr).toNat = rxTmpSlabs.lastSlabAddr) =
        decide (m.initSlabAddr = lastSlabAddr) :=
      decide_eq_decide.mpr ⟨fun heq => BitVec.eq_of_toNat_eq heq, fun heq => by rw [heq]; rfl⟩
    rw [hlast]
  · have hlist : (m.step consume free).freed.map slabBits =
        (if t.fifoRdReq consume then (m.freed.map slabBits).tail else m.freed.map slabBits) ++
          (t.freed (free.map slabBits)).toList := by
      rw [hfreed, hrd]
      simp only [SlabAllocTracker.step, List.map_append]
      congr 1
      · cases hl : m.freed with
        | nil => simp
        | cons x l => cases m.useFifo <;> cases consume <;> rfl
      · cases m.freeRdy <;> cases free <;> rfl
    rw [hlist]
    exact hfifo

theorem stands_init (h : t.Init) : Stands reset t :=
  ⟨h.1, h.2.1, Fifo1r1w.represents_init h.2.2⟩

end SlabAllocTracker

/-- Whether a slab is consumed, and the slab that is given back. -/
structure SlabCmd where
  consume : Bool
  free : Option SlabAddr

/-- Every run of the tracker with its FIFO is one of the tracker of the receive path, with the same
outputs. -/
theorem slab_alloc_tracker_simulated {t : SlabTracker rxTmpSlabs}
    (h : Reach SlabTracker.Init
      (fun t (i : SlabCmd) => some (t.step i.consume (i.free.map slabBits))) Free t) :
    ∃ m, Reach (· = SlabAllocTracker.reset)
        (fun m (i : SlabCmd) => some (m.step i.consume i.free)) Free m ∧
      m.Stands t ∧ t.respError = m.respError ∧ t.freeRdy = m.freeRdy ∧
      (m.respError = false → t.respAddr = some (slabBits m.respAddr)) := by
  have hsim : ∃ m, Reach (· = SlabAllocTracker.reset)
      (fun m (i : SlabCmd) => some (m.step i.consume i.free)) Free m ∧ m.Stands t := by
    refine h.simulated (R := fun t (m : SlabAllocTracker) => m.Stands t) ?_ ?_
    · exact fun t ht => ⟨_, rfl, SlabAllocTracker.stands_init ht⟩
    · intro t i t' m hr _ hs
      cases hs
      exact ⟨i, _, trivial, rfl, hr.step i.consume i.free⟩
  obtain ⟨m, hm, hr⟩ := hsim
  exact ⟨m, hm, hr, hr.respError, hr.freeRdy, hr.respAddr⟩

end TcpHw
