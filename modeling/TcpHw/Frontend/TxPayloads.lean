import TcpHw.Frontend.TxPayloadEngine

/-!
# Every descriptor is served once

The engine is ready only when the reader is: the reader is ready again in the cycle after its last
line, and the engine waits for one cycle more. So no descriptor is taken for one without payload
because the reader is busy, and the header and the lines that are given out belong to the descriptor
that was accepted last. The reader goes around the end of the ring at most once in a read; a longer
payload is not read to its end.
-/
namespace TcpHw

open Bytes Trace

set_option autoImplicit false

/-! ### What is owed for a descriptor -/

namespace PayloadTxReq

variable (W : Nat) (mem : Memory) (x : PayloadTxReq)

/-- The payload goes around the end of the ring at most once. -/
def Fits : Prop :=
  x.payloadEntry.payloadAddr.toNat % 2 ^ W + x.payloadEntry.payloadLen.toNat ≤ 2 * 2 ^ W

instance : Decidable (x.Fits W) := inferInstanceAs (Decidable (_ ≤ _))

/-- The lines are those of the payload: none if it is empty. -/
def Payload (ls : List RdOut) : Prop :=
  if x.payloadEntry.payloadLen = 0 then ls = [] else (x.read W).Exact W mem ls

variable {W mem x}

theorem Payload.empty (h : x.payloadEntry.payloadLen = 0) : x.Payload W mem [] := by
  rw [Payload, if_pos h]

theorem Payload.exact {ls : List RdOut} (h : x.payloadEntry.payloadLen ≠ 0)
    (hx : (x.read W).Exact W mem ls) : x.Payload W mem ls := by
  rw [Payload, if_neg h]
  exact hx

theorem Fits.read (hf : x.Fits W) (h : x.payloadEntry.payloadLen ≠ 0) : (x.read W).Fits W := by
  refine ⟨Nat.mod_lt _ (Nat.two_pow_pos W), ?_, hf⟩
  exact Nat.pos_of_ne_zero fun h0 => h (BitVec.eq_of_toNat_eq h0)

end PayloadTxReq

/-- The lines are those of the payloads of the descriptors, in order. -/
def Pays (W : Nat) (mem : Memory) (xs : List PayloadTxReq) (out : List RdOut) : Prop :=
  ∃ groups, List.Forall₂ (PayloadTxReq.Payload W mem) xs groups ∧ out = groups.flatten

theorem Pays.snoc {W : Nat} {mem : Memory} {xs : List PayloadTxReq} {out ls : List RdOut}
    {x : PayloadTxReq} (h : Pays W mem xs out) (hx : x.Payload W mem ls) :
    Pays W mem (xs ++ [x]) (out ++ ls) := by
  obtain ⟨groups, hg, rfl⟩ := h
  refine ⟨groups ++ [ls], List.rel_append hg (.cons hx .nil), ?_⟩
  rw [List.flatten_append, List.flatten_singleton]

namespace PayloadSystem

variable {W : Nat} {mem : Memory} {s : PayloadSystem} {e : PayloadEnv} {descs : List PayloadTxReq}

/-- What was given out for the descriptor in hand: the header or not, and its lines or the first of
them. -/
structure InHand (W : Nat) (mem : Memory) (x : PayloadTxReq) (hs : List PayloadTxHdr)
    (ls : List RdOut) : Prop where
  hdr : hs = [] ∨ hs = [x.hdr]
  data : x.Payload W mem ls ∨
    x.payloadEntry.payloadLen ≠ 0 ∧ ∃ pos, (x.read W).Begun W mem ls pos

/-- All descriptors that were accepted are served, or all but the last one, which is in hand and
keeps the engine busy. -/
inductive Progress (W : Nat) (mem : Memory) (s : PayloadSystem) : Prop
  | idle (hh : s.hdrs = s.taken.map PayloadTxReq.hdr) (hd : Pays W mem s.taken s.data)
  | busy (pre : List PayloadTxReq) (x : PayloadTxReq) (hs : List PayloadTxHdr) (out ls : List RdOut)
      (he : s.engine.state ≠ .ready) (ht : s.taken = pre ++ [x])
      (hh : s.hdrs = pre.map PayloadTxReq.hdr ++ hs) (hd : s.data = out ++ ls)
      (hp : Pays W mem pre out) (hx : InHand W mem x hs ls)

/-- Every descriptor was accepted and served. -/
structure AllServed (W : Nat) (mem : Memory) (descs : List PayloadTxReq) (s : PayloadSystem) :
    Prop where
  taken : s.taken = descs
  hdrs : s.hdrs = descs.map PayloadTxReq.hdr
  data : Pays W mem descs s.data

/-! ### The phases of a descriptor -/

/-- The registers hold the header of the descriptor, which is still owed or was given out. -/
def HdrOwes (r : TxPayloadEngine) (x : PayloadTxReq) (hs : List PayloadTxHdr) : Prop :=
  r.hdrOut = x.hdr ∧ (r.hdrState = .output ∧ hs = [] ∨ r.hdrState = .waitTxFin ∧ hs = [x.hdr])

/-- The engine is between two descriptors, has its payload read, or waits for its header. -/
inductive Phase (W : Nat) (mem : Memory) (s : PayloadSystem) : Prop
  | ready (he : s.engine.state = .ready) (hm : s.engine.hdrState = .waiting)
      (hr : s.rd.core.state = .ready) (hh : s.hdrs = s.taken.map PayloadTxReq.hdr)
      (hd : Pays W mem s.taken s.data)
  | output (pre : List PayloadTxReq) (x : PayloadTxReq) (hs : List PayloadTxHdr) (out : List RdOut)
      (he : s.engine.state = .dataOutput) (hr : s.rd.core.state ≠ .ready)
      (hj : s.rd.job = x.read W) (hlen : x.payloadEntry.payloadLen ≠ 0) (ht : s.taken = pre ++ [x])
      (ho : HdrOwes s.engine x hs) (hh : s.hdrs = pre.map PayloadTxReq.hdr ++ hs)
      (hd : s.data = out ++ s.rd.out) (hp : Pays W mem pre out)
  | wait (pre : List PayloadTxReq) (x : PayloadTxReq) (hs : List PayloadTxHdr) (out ls : List RdOut)
      (he : s.engine.state = .payloadWaitTxFin) (hr : s.rd.core.state = .ready)
      (ht : s.taken = pre ++ [x]) (ho : HdrOwes s.engine x hs)
      (hh : s.hdrs = pre.map PayloadTxReq.hdr ++ hs) (hd : s.data = out ++ ls)
      (hp : Pays W mem pre out) (hx : x.Payload W mem ls)

structure Inv (W : Nat) (mem : Memory) (descs : List PayloadTxReq) (s : PayloadSystem) : Prop where
  source : s.taken ++ s.src = descs
  rd : RdNew.Phase W mem s.rd
  phase : Phase W mem s

/-- What is left to do for the header. -/
def hdrLeft (r : TxPayloadEngine) : Nat := if r.hdrState = .output then 1 else 0

/-- What is left to do for the descriptor in hand. -/
def workInHand (s : PayloadSystem) : Nat :=
  match s.engine.state with
  | .ready => 0
  | .dataOutput => RdNew.work s.rd + hdrLeft s.engine + 2
  | .payloadWaitTxFin => hdrLeft s.engine + 1

def workOf (x : PayloadTxReq) : Nat := 4 * x.payloadEntry.payloadLen.toNat + 12

def work (s : PayloadSystem) : Nat := (s.src.map workOf).sum + s.workInHand

/-- A cycle in which everyone does what they can. -/
def smooth (W : Nat) (s : PayloadSystem) (e : PayloadEnv) : Bool :=
  e.offer && e.hdrRdy && s.rd.smooth (s.rdIn W e)

def Done (s : PayloadSystem) : Prop := s.src = [] ∧ s.engine.state = .ready

/-- What one cycle does. -/
def Advances (W : Nat) (mem : Memory) (s : PayloadSystem) (e : PayloadEnv) : Prop :=
  Phase W mem (s.cycle W e) ∧ (s.cycle W e).taken ++ (s.cycle W e).src = s.taken ++ s.src ∧
    (s.Done ∨ (s.cycle W e).work + (if s.smooth W e then 1 else 0) ≤ s.work)

/-! ### The wires -/

/-- The descriptor that is offered is the next one. -/
theorem src_of_val (hv : s.srcVal e = true) : ∃ t, s.src = s.onBus e :: t := by
  obtain ⟨ho, hne⟩ := Bool.and_eq_true_iff.mp hv
  cases hs : s.src with
  | nil => simp [hs] at hne
  | cons x t => exact ⟨t, by simp [onBus, ho, hs]⟩

theorem reqVal_eq_false (hne : s.engine.state ≠ .ready) : (s.rdIn W e).reqVal = false := by
  simp [rdIn, TxPayloadEngine.reqVal, hne]

theorem accepts_eq_false (hne : s.engine.state ≠ .ready) : s.accepts W e = false := by
  simp [accepts, TxPayloadEngine.srcRdy, hne]

theorem rdReqRdy_of_ready (hp : RdNew.Phase W mem s.rd) (hr : s.rd.core.state = .ready) :
    s.rdReqRdy W = true := by
  simp [rdReqRdy, rdCircBufNew, hr, (hp.rdIdle hr).reqRdy]

/-- What the reader is asked for is within its reach. -/
theorem allowed (hfits : ∀ x ∈ descs, x.Fits W) (hs : s.taken ++ s.src = descs)
    (hok : Answered mem s e) : s.rd.AllowedBy (RdReq.Fits W) mem (s.rdIn W e) := by
  refine ⟨fun hv => ?_, hok⟩
  obtain ⟨⟨⟨-, hval⟩, hlen⟩, -⟩ : ((s.engine.state = .ready ∧ s.srcVal e = true) ∧
      (s.onBus e).payloadEntry.payloadLen ≠ 0) ∧ s.rdReqRdy W = true := by
    simpa [rdIn, TxPayloadEngine.reqVal, reqSignals] using hv
  obtain ⟨t, ht⟩ := src_of_val hval
  refine PayloadTxReq.Fits.read (hfits _ ?_) hlen
  rw [← hs, ht]
  exact List.mem_append_right _ List.mem_cons_self

/-- The header machine in the middle of a descriptor. -/
theorem HdrOwes.step {x : PayloadTxReq} {hs : List PayloadTxHdr} {g : EngineSignals}
    {r : TxPayloadEngine} (h : HdrOwes r x hs) (hne : r.state ≠ .ready)
    (hfin : ¬ (r.state = .payloadWaitTxFin ∧ r.hdrState = .waitTxFin)) :
    ∃ hs', HdrOwes (r.next g) x hs' ∧ hs ++ (if r.givesHdr g then [r.hdrOut] else []) = hs' := by
  have hst : r.stores g = false := by simp [TxPayloadEngine.stores, hne]
  have hkeep : (r.next g).hdrOut = x.hdr := by
    rw [← h.1]
    simp [TxPayloadEngine.hdrOut, TxPayloadEngine.next, hst]
  rcases h.2 with ⟨hm, rfl⟩ | ⟨hm, rfl⟩
  · cases hr : g.hdrRdy with
    | true =>
      refine ⟨[x.hdr], ⟨hkeep, .inr ⟨?_, rfl⟩⟩, ?_⟩
      · simp [TxPayloadEngine.next, TxPayloadEngine.hdrStateNext, hm, hr]
      · simp [TxPayloadEngine.givesHdr, TxPayloadEngine.hdrVal, hm, hr, h.1]
    | false =>
      refine ⟨[], ⟨hkeep, .inl ⟨?_, rfl⟩⟩, ?_⟩
      · simp [TxPayloadEngine.next, TxPayloadEngine.hdrStateNext, hm, hr]
      · simp [TxPayloadEngine.givesHdr, hr]
  · have hw : r.state ≠ .payloadWaitTxFin := fun hw => hfin ⟨hw, hm⟩
    refine ⟨[x.hdr], ⟨hkeep, .inr ⟨?_, rfl⟩⟩, ?_⟩
    · simp [TxPayloadEngine.next, TxPayloadEngine.hdrStateNext, hm, hw]
    · simp [TxPayloadEngine.givesHdr, TxPayloadEngine.hdrVal, hm]

theorem hdrLeft_le (r : TxPayloadEngine) : hdrLeft r ≤ 1 := by
  unfold hdrLeft
  split <;> omega

theorem hdrLeft_next_le {r : TxPayloadEngine} {g : EngineSignals} (hne : r.state ≠ .ready) :
    hdrLeft (r.next g) ≤ hdrLeft r := by
  cases hm : r.hdrState <;>
    simp [hdrLeft, TxPayloadEngine.next, TxPayloadEngine.hdrStateNext, hm, hne] <;> split <;> simp

theorem hdrLeft_next_lt {r : TxPayloadEngine} {g : EngineSignals} (hm : r.hdrState = .output)
    (hr : g.hdrRdy = true) : hdrLeft (r.next g) < hdrLeft r := by
  simp [hdrLeft, TxPayloadEngine.next, TxPayloadEngine.hdrStateNext, hm, hr]

/-! ### One cycle -/

/-- Nothing is accepted, and no line is handed over. -/
theorem cycle_quiet (hacc : s.accepts W e = false) (hline : s.lineOut W e = none) :
    (s.cycle W e).src = s.src ∧ (s.cycle W e).taken = s.taken ∧ (s.cycle W e).data = s.data := by
  simp [cycle, hacc, hline]

theorem ready_waits (he : s.engine.state = .ready) (hm : s.engine.hdrState = .waiting)
    (hr : s.rd.core.state = .ready) (hh : s.hdrs = s.taken.map PayloadTxReq.hdr)
    (hd : Pays W mem s.taken s.data) (hv : s.srcVal e = false) :
    Advances W mem s e := by
  have hval : (s.signals W e).srcVal = false := hv
  have hreq : (s.rdIn W e).reqVal = false := by simp [rdIn, TxPayloadEngine.reqVal, reqSignals, hv]
  have hacc : s.accepts W e = false := by simp [accepts, hv]
  have hline : s.lineOut W e = none := RdNew.lineTaken_ready hr
  obtain ⟨hsrc, htaken, hdata⟩ := cycle_quiet hacc hline
  have hhdrs : (s.cycle W e).hdrs = s.hdrs := by
    simp [cycle, TxPayloadEngine.givesHdr, TxPayloadEngine.hdrVal, hm]
  have hstate : s.engine.stateNext (s.signals W e) = .ready := by
    simp [TxPayloadEngine.stateNext, he, hval]
  refine ⟨.ready hstate ?_ (RdNew.ready_stays hr hreq) ?_ ?_, by rw [htaken, hsrc], ?_⟩
  · show s.engine.hdrStateNext _ = _
    simp [TxPayloadEngine.hdrStateNext, hm, hstate]
  · rw [hhdrs, htaken]
    exact hh
  · rw [htaken, hdata]
    exact hd
  · by_cases hnil : s.src = []
    · exact .inl ⟨hnil, he⟩
    · right
      have hoff : e.offer = false := by
        simpa [srcVal, hnil] using hv
      have hnew : (s.cycle W e).engine.state = .ready := hstate
      simp [work, workInHand, hsrc, he, hnew, smooth, hoff]

/-- The registers after a descriptor was accepted. -/
theorem ready_stores (he : s.engine.state = .ready) (hm : s.engine.hdrState = .waiting)
    (hp : RdNew.Phase W mem s.rd) (hr : s.rd.core.state = .ready) (hv : s.srcVal e = true) :
    HdrOwes (s.cycle W e).engine (s.onBus e) [] ∧
      (s.cycle W e).taken = s.taken ++ [s.onBus e] ∧ (s.cycle W e).src = s.src.tail ∧
      (s.cycle W e).hdrs = s.hdrs ∧ (s.cycle W e).data = s.data ∧
      (s.cycle W e).engine.state =
        if (s.onBus e).payloadEntry.payloadLen = 0 then .payloadWaitTxFin else .dataOutput := by
  have hval : (s.signals W e).srcVal = true := hv
  have hrdy : (s.signals W e).rdReqRdy = true := rdReqRdy_of_ready hp hr
  have hbus : (s.signals W e).src = s.onBus e := rfl
  have hacc : s.accepts W e = true := by simp [accepts, hv, TxPayloadEngine.srcRdy, he, hrdy]
  have hline : s.lineOut W e = none := RdNew.lineTaken_ready hr
  have hst : s.engine.stores (s.signals W e) = true := by
    simp [TxPayloadEngine.stores, he, hval]
  have hstate : s.engine.stateNext (s.signals W e) =
      if (s.onBus e).payloadEntry.payloadLen = 0 then .payloadWaitTxFin else .dataOutput := by
    simp [TxPayloadEngine.stateNext, he, hval, hrdy, hbus]
  refine ⟨⟨?_, .inl ⟨?_, rfl⟩⟩, by simp [cycle, hacc], by simp [cycle, hacc], ?_,
    by simp [cycle, hline], hstate⟩
  · show (s.engine.next (s.signals W e)).hdrOut = _
    simp [TxPayloadEngine.hdrOut, TxPayloadEngine.next, hst, hbus, PayloadTxReq.hdr]
  · show s.engine.hdrStateNext _ = _
    have hleaves : s.engine.stateNext (s.signals W e) ≠ .ready := by
      rw [hstate]
      split <;> decide
    simp [TxPayloadEngine.hdrStateNext, hm, he, hleaves]
  · simp [cycle, TxPayloadEngine.givesHdr, TxPayloadEngine.hdrVal, hm]

theorem ready_accepts (hW : W < 28) (he : s.engine.state = .ready)
    (hm : s.engine.hdrState = .waiting) (hp : RdNew.Phase W mem s.rd)
    (hok : s.rd.AllowedBy (RdReq.Fits W) mem (s.rdIn W e)) (hr : s.rd.core.state = .ready)
    (hh : s.hdrs = s.taken.map PayloadTxReq.hdr) (hd : Pays W mem s.taken s.data)
    (hv : s.srcVal e = true) : Advances W mem s e := by
  obtain ⟨howes, htaken, hsrc, hhdrs, hdata, hstate⟩ := ready_stores he hm hp hr hv
  obtain ⟨t, ht⟩ := src_of_val hv
  rw [ht, List.tail_cons] at hsrc
  have hall : (s.cycle W e).taken ++ (s.cycle W e).src = s.taken ++ s.src := by
    rw [htaken, hsrc, ht, List.append_assoc]
    rfl
  have hleft := hdrLeft_le (s.cycle W e).engine
  have hwork : s.work = workOf (s.onBus e) + (t.map workOf).sum := by
    simp [work, workInHand, he, ht]
  have hwork' : (s.cycle W e).work = (t.map workOf).sum + (s.cycle W e).workInHand := by
    rw [work, hsrc]
  have hhdrs' : (s.cycle W e).hdrs = s.taken.map PayloadTxReq.hdr ++ [] := by
    rw [hhdrs, hh, List.append_nil]
  have hrdy := rdReqRdy_of_ready hp hr
  by_cases hz : (s.onBus e).payloadEntry.payloadLen = 0
  · have hreq : (s.rdIn W e).reqVal = false := by
      simp [rdIn, TxPayloadEngine.reqVal, reqSignals, hz]
    rw [if_pos hz] at hstate
    refine ⟨.wait s.taken (s.onBus e) [] s.data [] hstate (RdNew.ready_stays hr hreq) htaken howes
      hhdrs' ?_ hd (.empty hz), hall, .inr ?_⟩
    · rw [hdata, List.append_nil]
    · rw [hwork, hwork']
      simp only [workInHand, hstate, workOf]
      split <;> omega
  · have hreq : (s.rdIn W e).reqVal = true := by
      show (s.engine.state == .ready && s.srcVal e && (s.onBus e).payloadEntry.payloadLen != 0 &&
        s.rdReqRdy W) = true
      rw [he, hv, hrdy, bne_iff_ne.mpr hz]
      rfl
    rw [if_neg hz] at hstate
    obtain ⟨-, hidle, hjob, hout⟩ := RdNew.ready_takes (W := W) hr (hp.rdIdle hr) hreq
    have hbusy : (s.cycle W e).rd.core.state ≠ .ready := beq_eq_false_iff_ne.mp hidle
    have hbound :
        RdNew.work (s.cycle W e).rd ≤ 4 * (s.onBus e).payloadEntry.payloadLen.toNat + 8 := by
      have hp' := (RdNew.sound_fits hW).idle s.rd _ hp (beq_iff_eq.mpr hr) hok
      have hb := (RdNew.sound_fits hW).bound _ hp'
      rw [hjob] at hb
      exact hb
    refine ⟨.output s.taken (s.onBus e) [] s.data hstate hbusy hjob hz htaken howes hhdrs' ?_ hd,
      hall, .inr ?_⟩
    · have hnone : (s.cycle W e).rd.out = [] := hout
      rw [hdata, hnone, List.append_nil]
    · rw [hwork, hwork']
      simp only [workInHand, hstate, workOf]
      split <;> omega

/-- In the middle of a descriptor its header is given out or still owed after a cycle. -/
theorem HdrOwes.cycle {pre : List PayloadTxReq} {x : PayloadTxReq} {hs : List PayloadTxHdr}
    (ho : HdrOwes s.engine x hs) (hh : s.hdrs = pre.map PayloadTxReq.hdr ++ hs)
    (hne : s.engine.state ≠ .ready)
    (hfin : ¬ (s.engine.state = .payloadWaitTxFin ∧ s.engine.hdrState = .waitTxFin)) :
    ∃ hs', HdrOwes (s.cycle W e).engine x hs' ∧
      (s.cycle W e).hdrs = pre.map PayloadTxReq.hdr ++ hs' := by
  obtain ⟨hs', ho', hgiven⟩ := ho.step (g := s.signals W e) hne hfin
  refine ⟨hs', ho', ?_⟩
  show s.hdrs ++ _ = _
  rw [hh, List.append_assoc, hgiven]

/-- The engine sees the last line when the reader completes. -/
theorem lastOut_eq (hW : W < 28) (hp : RdNew.Phase W mem s.rd)
    (hok : s.rd.AllowedBy (RdReq.Fits W) mem (s.rdIn W e)) (hr : s.rd.core.state ≠ .ready) :
    (s.signals W e).lastOut = s.rd.completes (rdCircBufNew W) (s.rdIn W e) := by
  rw [Bool.eq_iff_iff, ← RdNew.last_taken_iff hW hp hr hok]
  show (RdNew.lineTaken W s.rd (s.rdIn W e)).any RdOut.last = true ↔ _
  cases RdNew.lineTaken W s.rd (s.rdIn W e) <;> simp

/-- A line of the payload is handed over or not; with the last one the engine goes on. -/
theorem output_step (hW : W < 28) (hp : RdNew.Phase W mem s.rd)
    (hok : s.rd.AllowedBy (RdReq.Fits W) mem (s.rdIn W e)) {pre : List PayloadTxReq}
    {x : PayloadTxReq} {hs : List PayloadTxHdr} {out : List RdOut}
    (he : s.engine.state = .dataOutput) (hr : s.rd.core.state ≠ .ready) (hj : s.rd.job = x.read W)
    (hlen : x.payloadEntry.payloadLen ≠ 0) (ht : s.taken = pre ++ [x])
    (ho : HdrOwes s.engine x hs) (hh : s.hdrs = pre.map PayloadTxReq.hdr ++ hs)
    (hd : s.data = out ++ s.rd.out) (hpay : Pays W mem pre out) : Advances W mem s e := by
  have hne : s.engine.state ≠ .ready := by simp [he]
  have hacc := accepts_eq_false (W := W) (e := e) hne
  obtain ⟨hs', ho', hhdrs⟩ := ho.cycle (W := W) (e := e) hh hne (fun hf => by simp [he] at hf)
  have htaken : (s.cycle W e).taken = pre ++ [x] := by
    rw [← ht]
    simp [cycle, hacc]
  have hdata : (s.cycle W e).data = out ++ s.rd.outStep (rdCircBufNew W) (s.rdIn W e) := by
    show s.data ++ (s.lineOut W e).toList = _
    rw [hd, RdNew.outStep_busy hr, List.append_assoc]
    rfl
  have hstate : (s.cycle W e).engine.state =
      if s.rd.completes (rdCircBufNew W) (s.rdIn W e) then .payloadWaitTxFin else .dataOutput := by
    show s.engine.stateNext _ = _
    simp only [TxPayloadEngine.stateNext, he, lastOut_eq hW hp hok hr]
  have hsrc : (s.cycle W e).src = s.src := by simp [cycle, hacc]
  have hleft : hdrLeft (s.cycle W e).engine ≤ hdrLeft s.engine := hdrLeft_next_le hne
  have hwork : s.work = (s.src.map workOf).sum + (RdNew.work s.rd + hdrLeft s.engine + 2) := by
    simp only [work, workInHand, he]
  have hall : (s.cycle W e).taken ++ (s.cycle W e).src = s.taken ++ s.src := by
    rw [htaken, hsrc, ht]
  obtain ⟨-, hb⟩ := (RdNew.sound_fits hW).busy s.rd _ hp (RdNew.busy hr) hok
  rcases hb with ⟨hc, hx⟩ | ⟨hc, hless⟩
  · have hidle : (s.cycle W e).rd.core.state = .ready := by
      have hboth := Bool.and_eq_true_iff.mp hc
      exact beq_iff_eq.mp hboth.2
    rw [hc, if_pos rfl] at hstate
    rw [hj] at hx
    refine ⟨.wait pre x hs' out _ hstate hidle htaken ho' hhdrs hdata hpay (.exact hlen hx), hall,
      .inr ?_⟩
    rw [hwork]
    simp only [work, hsrc, workInHand, hstate]
    split <;> omega
  · obtain ⟨hbusy, hjob, -⟩ := RdSystem.busy_of_not_completes (RdNew.busy hr) hc
    rw [hc, if_neg Bool.false_ne_true] at hstate
    have hbusy' : (s.cycle W e).rd.core.state ≠ .ready := by
      intro hr'
      have hidle : (rdCircBufNew W).idle (s.rd.cycle (rdCircBufNew W) (s.rdIn W e)).core = true :=
        beq_iff_eq.mpr hr'
      rw [hbusy] at hidle
      cases hidle
    refine ⟨.output pre x hs' out hstate hbusy' (hjob.trans hj) hlen htaken ho' hhdrs hdata hpay,
      hall, .inr ?_⟩
    have hrd : RdNew.work (s.cycle W e).rd + (if s.smooth W e then 1 else 0) ≤ RdNew.work s.rd := by
      refine Nat.le_trans (Nat.add_le_add_left ?_ _) hless
      cases hsm : s.rd.smooth (s.rdIn W e) <;> simp [smooth, hsm]
      split <;> omega
    rw [hwork]
    simp only [work, hsrc, workInHand, hstate]
    omega

theorem wait_step {pre : List PayloadTxReq} {x : PayloadTxReq} {hs : List PayloadTxHdr}
    {out ls : List RdOut} (he : s.engine.state = .payloadWaitTxFin)
    (hr : s.rd.core.state = .ready) (ht : s.taken = pre ++ [x]) (ho : HdrOwes s.engine x hs)
    (hh : s.hdrs = pre.map PayloadTxReq.hdr ++ hs) (hd : s.data = out ++ ls)
    (hp : Pays W mem pre out) (hx : x.Payload W mem ls) :
    Advances W mem s e := by
  have hne : s.engine.state ≠ .ready := by simp [he]
  obtain ⟨hsrc, htaken, hdata⟩ := cycle_quiet (accepts_eq_false (W := W) (e := e) hne)
    (RdNew.lineTaken_ready hr)
  have hr' : (s.cycle W e).rd.core.state = .ready := RdNew.ready_stays hr (reqVal_eq_false hne)
  have hall : (s.cycle W e).taken ++ (s.cycle W e).src = s.taken ++ s.src := by rw [htaken, hsrc]
  have hwork : s.work = (s.src.map workOf).sum + (hdrLeft s.engine + 1) := by
    simp only [work, workInHand, he]
  by_cases hfin : s.engine.hdrState = .waitTxFin
  · have hgiven : hs = [x.hdr] := by
      rcases ho.2 with ⟨hm, -⟩ | ⟨-, hgiven⟩
      · rw [hfin] at hm
        cases hm
      · exact hgiven
    have hhdrs : (s.cycle W e).hdrs = s.hdrs := by
      simp [cycle, TxPayloadEngine.givesHdr, TxPayloadEngine.hdrVal, hfin]
    have hstate : (s.cycle W e).engine.state = .ready := by
      show s.engine.stateNext _ = _
      simp [TxPayloadEngine.stateNext, he, hfin]
    refine ⟨.ready hstate ?_ hr' ?_ ?_, hall, .inr ?_⟩
    · show s.engine.hdrStateNext _ = _
      simp [TxPayloadEngine.hdrStateNext, he, hfin]
    · rw [hhdrs, htaken, ht, hh, hgiven, List.map_append]
      rfl
    · rw [htaken, ht, hdata, hd]
      exact hp.snoc hx
    · rw [hwork]
      simp only [work, hsrc, workInHand, hstate]
      split <;> omega
  · obtain ⟨hs', ho', hhdrs⟩ := ho.cycle (W := W) (e := e) hh hne (fun hf => hfin hf.2)
    have hstate : (s.cycle W e).engine.state = .payloadWaitTxFin := by
      show s.engine.stateNext _ = _
      simp [TxPayloadEngine.stateNext, he, hfin]
    refine ⟨.wait pre x hs' out ls hstate hr' (htaken.trans ht) ho' hhdrs (hdata.trans hd) hp hx,
      hall, .inr ?_⟩
    have hm : s.engine.hdrState = .output := by
      rcases ho.2 with ⟨hm, -⟩ | ⟨hm, -⟩
      · exact hm
      · exact absurd hm hfin
    have hle : hdrLeft (s.cycle W e).engine ≤ hdrLeft s.engine := hdrLeft_next_le hne
    rw [hwork]
    simp only [work, hsrc, workInHand, hstate]
    split
    · rename_i hsm
      have hrdy : e.hdrRdy = true := by
        simp only [smooth, Bool.and_eq_true] at hsm
        exact hsm.1.2
      have hlt : hdrLeft (s.cycle W e).engine < hdrLeft s.engine := hdrLeft_next_lt hm hrdy
      omega
    · omega

/-! ### Whole runs -/

theorem Inv.advances (hW : W < 28) (hfits : ∀ x ∈ descs, x.Fits W) (h : Inv W mem descs s)
    (hok : Answered mem s e) : Advances W mem s e := by
  have hallowed := allowed hfits h.source hok
  cases h.phase with
  | ready he hm hr hh hd =>
    cases hv : s.srcVal e with
    | false => exact ready_waits he hm hr hh hd hv
    | true => exact ready_accepts hW he hm h.rd hallowed hr hh hd hv
  | output pre x hs out he hr hj hlen ht ho hh hd hp =>
    exact output_step hW h.rd hallowed he hr hj hlen ht ho hh hd hp
  | wait pre x hs out ls he hr ht ho hh hd hp hx => exact wait_step he hr ht ho hh hd hp hx

theorem Inv.cycle (hW : W < 28) (hfits : ∀ x ∈ descs, x.Fits W) (h : Inv W mem descs s)
    (hok : Answered mem s e) : Inv W mem descs (s.cycle W e) := by
  obtain ⟨hphase, hsource, -⟩ := h.advances hW hfits hok
  refine ⟨hsource.trans h.source, ?_, hphase⟩
  have hallowed := allowed hfits h.source hok
  cases hi : (rdCircBufNew W).idle s.rd.core with
  | true => exact (RdNew.sound_fits hW).idle _ _ h.rd hi hallowed
  | false => exact ((RdNew.sound_fits hW).busy _ _ h.rd hi hallowed).1

theorem Inv.init (hW : W < 28) (h : s.Init W descs) : Inv W mem descs s := by
  obtain ⟨he, hrd, hsrc, htaken, hhdrs, hdata⟩ := h
  refine ⟨by rw [htaken, hsrc, List.nil_append], (RdNew.sound_fits hW).init _ hrd, ?_⟩
  refine .ready (by rw [he]; rfl) (by rw [he]; rfl) (beq_iff_eq.mp hrd.1) ?_ ?_
  · rw [hhdrs, htaken, List.map_nil]
  · rw [hdata, htaken]
    exact ⟨[], .nil, rfl⟩

theorem inv_of_reach (hW : W < 28) (hfits : ∀ x ∈ descs, x.Fits W)
    (h : Reach (fun t => t.Init W descs) (step W) (Answered mem) s) : Inv W mem descs s := by
  refine h.invariant (fun t ht => Inv.init hW ht) ?_
  intro t e t' hinv hok hs
  cases hs
  exact hinv.cycle hW hfits hok

theorem HdrOwes.given {r : TxPayloadEngine} {x : PayloadTxReq} {hs : List PayloadTxHdr}
    (h : HdrOwes r x hs) : hs = [] ∨ hs = [x.hdr] := h.2.imp And.right And.right

/-- What was given out at any time. -/
theorem Inv.progress (h : Inv W mem descs s) : Progress W mem s := by
  cases h.phase with
  | ready he hm hr hh hd => exact .idle hh hd
  | output pre x hs out he hr hj hlen ht ho hh hd hp =>
    obtain ⟨pos, hbegun⟩ := h.rd.begun hr
    rw [hj] at hbegun
    exact .busy pre x hs out s.rd.out (by rw [he]; decide) ht hh hd hp
      ⟨ho.given, .inr ⟨hlen, pos, hbegun⟩⟩
  | wait pre x hs out ls he hr ht ho hh hd hp hx =>
    exact .busy pre x hs out ls (by rw [he]; decide) ht hh hd hp ⟨ho.given, .inl hx⟩

/-- Nothing is left to do: every descriptor was served. -/
theorem Inv.served (h : Inv W mem descs s) (hdone : s.Done) : AllServed W mem descs s := by
  obtain ⟨hsrc, he⟩ := hdone
  have htaken : s.taken = descs := by
    have hs := h.source
    rw [hsrc, List.append_nil] at hs
    exact hs
  cases h.phase with
  | ready _ hm hr hh hd =>
    rw [htaken] at hh hd
    exact ⟨htaken, hh, hd⟩
  | output pre x hs out he' =>
    rw [he] at he'
    cases he'
  | wait pre x hs out ls he' =>
    rw [he] at he'
    cases he'

theorem Done.cycle (h : s.Done) : (s.cycle W e).Done := by
  obtain ⟨hsrc, he⟩ := h
  have hv : s.srcVal e = false := by simp [srcVal, hsrc]
  have hval : (s.signals W e).srcVal = false := hv
  refine ⟨by simp [PayloadSystem.cycle, accepts, hv, hsrc], ?_⟩
  show s.engine.stateNext _ = _
  simp [TxPayloadEngine.stateNext, he, hval]

theorem Inv.work_le (hW : W < 28) (h : Inv W mem descs s) : s.work ≤ (descs.map workOf).sum := by
  have hleft := hdrLeft_le s.engine
  have hsum : (descs.map workOf).sum = (s.taken.map workOf).sum + (s.src.map workOf).sum := by
    rw [← h.source, List.map_append, List.sum_append]
  have hlast : ∀ pre x, s.taken = pre ++ [x] → workOf x ≤ (s.taken.map workOf).sum := by
    intro pre x ht
    simp [ht]
  cases h.phase with
  | ready he =>
    simp only [work, workInHand, he]
    omega
  | output pre x hs out he hr hj hlen ht =>
    have hb := (RdNew.sound_fits hW).bound _ h.rd
    have hx := hlast pre x ht
    rw [hj] at hb
    simp only [PayloadTxReq.read] at hb
    simp only [work, workInHand, he]
    simp only [workOf] at hx hsum ⊢
    omega
  | wait pre x hs out ls he hr ht =>
    have hx := hlast pre x ht
    simp only [work, workInHand, he]
    simp only [workOf] at hx hsum ⊢
    omega

/-- A run with as many favourable cycles as the descriptors take leaves nothing to do. -/
theorem Inv.finishes (hW : W < 28) (hfits : ∀ x ∈ descs, x.Fits W) (h : Inv W mem descs s)
    {es : List PayloadEnv} {s' : PayloadSystem} (hr : run (step W) (Answered mem) s es = some s')
    (ht : (descs.map workOf).sum < tally (step W) (smooth W) s es) : s'.Done := by
  refine run_finishes (F := Done) (I := Inv W mem descs) work ?_ ?_ ?_ h hr
    (Nat.lt_of_le_of_lt (h.work_le hW) ht)
  · intro t e t' hinv hok hs
    cases hs
    exact hinv.cycle hW hfits hok
  · intro t e t' hdone hs
    cases hs
    exact hdone.cycle
  · intro t e t' hinv hok hs
    cases hs
    obtain ⟨-, -, hdone | hless⟩ := hinv.advances hW hfits hok
    · exact .inl hdone.cycle
    · exact .inr hless

end PayloadSystem

open PayloadSystem in
/-- In every run the descriptors are accepted in order, and each that was accepted has given out its
own header once and the bytes of its own payload once, or is the last one and has begun to. With
enough favourable cycles all of them are served. -/
theorem tx_payload_each_once {mem : Memory} {descs : List PayloadTxReq} {s : PayloadSystem}
    (hfits : ∀ x ∈ descs, x.Fits 12)
    (h : Reach (fun t => t.Init 12 descs) (step 12) (Answered mem) s) :
    s.taken ++ s.src = descs ∧ Progress 12 mem s ∧
      ∀ es s', run (step 12) (Answered mem) s es = some s' →
        (descs.map workOf).sum < tally (step 12) (smooth 12) s es → AllServed 12 mem descs s' := by
  have hinv := inv_of_reach (by decide) hfits h
  refine ⟨hinv.source, hinv.progress, fun es s' hr ht => ?_⟩
  have hinv' := inv_of_reach (by decide) hfits (h.of_run hr)
  exact hinv'.served (hinv.finishes (by decide) hfits hr ht)

/-- 100 bytes that start 6 bytes before the end of the ring, and a segment without payload. -/
def wrappedThenEmpty : List PayloadTxReq :=
  [⟨3, 1, 2, default, ⟨4090, 100⟩⟩, ⟨5, 3, 4, default, ⟨0, 0⟩⟩]

def serveWrapped (mem : Memory) : List PayloadEnv :=
  [.calm, .calm, .header 1, .line (lineAt mem 16378), .calm, .calm, .header 2,
    .line (lineAt mem 12288), .line (lineAt mem 12352), .calm, .calm, .calm, .calm, .calm, .calm]

def PayloadSystem.reset (descs : List PayloadTxReq) : PayloadSystem :=
  ⟨.reset, RdNew.reset, descs, [], [], []⟩

theorem PayloadSystem.init_reset (descs : List PayloadTxReq) :
    (PayloadSystem.reset descs).Init 12 descs :=
  ⟨rfl, ⟨rfl, ⟨rfl, rfl⟩, rfl⟩, rfl, rfl, rfl, rfl⟩

open PayloadSystem in
theorem tx_payload_each_once_wrapped : ∃ s, Reach (fun t => t.Init 12 wrappedThenEmpty) (step 12)
      (Answered (BitVec.ofNat 8)) s ∧
    (s.src = [] ∧ s.hdrs = wrappedThenEmpty.map PayloadTxReq.hdr ∧ s.data.length = 2) ∧
    Progress 12 (BitVec.ofNat 8) s := by
  have hrun : ∃ s, Reach (fun t => t.Init 12 wrappedThenEmpty) (step 12)
        (Answered (BitVec.ofNat 8)) s ∧
      decide (s.src = [] ∧ s.hdrs = wrappedThenEmpty.map PayloadTxReq.hdr ∧ s.data.length = 2)
        = true :=
    Reach.exists_of_run (serveWrapped (BitVec.ofNat 8)) (init_reset wrappedThenEmpty)
      (by decide +kernel)
  obtain ⟨s, hs, hp⟩ := hrun
  exact ⟨s, hs, of_decide_eq_true hp, (tx_payload_each_once (by decide) hs).2.1⟩

/-! ### A payload that is longer than the ring -/

/-- What was given out for the first descriptor. -/
theorem PayloadSystem.Progress.first {W : Nat} {mem : Memory} {s : PayloadSystem}
    {x : PayloadTxReq} (h : Progress W mem s) (ht : s.taken = [x])
    (hlen : x.payloadEntry.payloadLen ≠ 0) :
    (x.read W).Exact W mem s.data ∨ ∃ pos, (x.read W).Begun W mem s.data pos := by
  have hexact : ∀ ls, x.Payload W mem ls → (x.read W).Exact W mem ls := by
    intro ls hp
    rw [PayloadTxReq.Payload, if_neg hlen] at hp
    exact hp
  cases h with
  | idle hh hd =>
    obtain ⟨groups, hg, hdata⟩ := hd
    rw [ht] at hg
    obtain ⟨ls, rest, hx, hrest, rfl⟩ := List.forall₂_cons_left_iff.mp hg
    cases hrest
    rw [hdata, List.flatten_singleton]
    exact .inl (hexact ls hx)
  | busy pre y hs out ls he hty hh hd hp hx =>
    rw [ht] at hty
    obtain ⟨rfl, hy⟩ := List.append_eq_singleton_iff.mp hty.symm |>.resolve_right (by simp)
    cases hy
    obtain ⟨groups, hg, rfl⟩ := hp
    cases hg
    rw [hd, List.flatten_nil, List.nil_append]
    exact hx.data.imp (hexact ls) And.right

/-- The ring and two bytes, from its last byte on. -/
def beyondRing : PayloadTxReq := ⟨0, 1, 2, default, ⟨4095, 4098⟩⟩

def countUp : Memory := fun a => BitVec.ofNat 8 (a + 1)

def serveBeyondRing : List PayloadEnv :=
  [.calm, .calm, .header 1, .line (lineAt countUp 4095), .calm, .calm, .header 64] ++
    (List.range 64).map (fun k => .line (lineAt countUp (64 * k))) ++ [.calm, .calm, .calm, .calm]

open PayloadSystem in
/-- The reader asks twice, for the last byte of the ring and for the whole ring. The byte behind
these is 0 and not the first byte of the ring again. -/
theorem tx_payload_beyond_ring : ∃ s, Reach (fun t => t.Init 12 [beyondRing]) (step 12)
    (Answered countUp) s ∧ s.Done ∧ ¬ Progress 12 countUp s := by
  have hrun : ∃ s, Reach (fun t => t.Init 12 [beyondRing]) (step 12) (Answered countUp) s ∧
      decide ((s.src = [] ∧ s.engine.state = .ready) ∧ s.taken = [beyondRing] ∧
        s.data.length = 65 ∧ streamByte (s.data.map RdOut.data) 4097 = 0) = true :=
    Reach.exists_of_run serveBeyondRing (init_reset [beyondRing]) (by decide +kernel)
  obtain ⟨s, hs, hp⟩ := hrun
  obtain ⟨hdone, htaken, hlines, hbyte⟩ := of_decide_eq_true hp
  refine ⟨s, hs, hdone, fun hprog => ?_⟩
  rcases hprog.first htaken (by decide) with hx | ⟨pos, hbegun⟩
  · have hring := hx.bytes 4097 (by decide)
    rw [hbyte] at hring
    exact absurd hring (by decide)
  · have hfull := hbegun.full
    have hmore : pos < 4098 := hbegun.more
    omega

end TcpHw
