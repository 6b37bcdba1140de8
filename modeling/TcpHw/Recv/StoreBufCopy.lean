import TcpHw.Lib.Trace
import TcpHw.Recv.TmpRxBuf

/-!
# `rx_payload_store_buf_cp` with the commit pointers

The copier takes entries from `rx_store_buf_q`. For an accepted one it fetches the flow's commit
pointer, opens a write of the circular buffer there, passes on the lines of the slab, and when
the writer is done moves the pointer and frees the slab. The temporary buffer has one read in
flight and may delay requests and responses, as may the writer and the free port. A new flow
takes the write port of the pointers and sets the flow's pointer.
-/
namespace TcpHw

open Trace

set_option autoImplicit false

/-- `logic [RX_TMP_BUF_MEM_ADDR_W-1:0]`, a line of the temporary buffer. -/
abbrev TmpLine := BitVec 9

/-- `read_addr_next[RX_TMP_BUF_ADDR_W-1 -: RX_TMP_BUF_MEM_ADDR_W]` -/
def tmpLine (a : SlabAddr) : TmpLine := (a >>> 6).setWidth 9

/-- What the copier does for an entry. A commit carries the pointer found and the one written;
a line is passed on with whatever the temporary buffer holds. -/
inductive CopyAct where
  | writeReq (flowid : FlowId) (wrPtr : BitVec 12) (size : BitVec 16)
  | line (addr : TmpLine)
  | commit (flowid : FlowId) (found written : Ptr)
  | free (addr : SlabAddr)
  deriving DecidableEq

/-- An entry taken from the queue and what was done for it so far. -/
structure CopyRecord where
  entry : RxStoreBufQ
  acts : List CopyAct
  deriving DecidableEq

/-- The registers of the copier, the commit pointers, the read in flight at the temporary buffer,
and the queue. The last three fields are not registers: the entries ever queued, the entries
finished and the latest one taken. -/
structure Copier where
  cp : StoreBufCp
  commitPtrReg : Ptr
  readAddr : SlabAddr
  commitPtrs : FlowId → Ptr
  tmpRd : Option TmpLine
  queue : List RxStoreBufQ
  queued : List RxStoreBufQ
  done : List CopyRecord
  cur : Option CopyRecord

/-- Readiness of the neighbours, a new entry and a new flow. -/
structure CopierIn where
  enq : Option RxStoreBufQ
  newFlow : Option (FlowId × Ptr)
  tmpReqRdy : Bool
  tmpRespVal : Bool
  wrBufReqRdy : Bool
  wrBufDataRdy : Bool
  wrBufDone : Bool
  freeRdy : Bool

namespace Copier

variable (s : Copier) (i : CopierIn)

def ctrl : StoreBufCpCtrl := s.cp.ctrl

def entry : RxStoreBufQ := s.cp.qEntry

/-- `tmp_buf_store_store_buf_rx_rd_resp_val` -/
def respVal : Bool := i.tmpRespVal && s.tmpRd.isSome

/-- `store_buf_tmp_buf_store_rx_rd_resp_rdy`: outside of `DATA_COPY` a response is dropped. -/
def respRdy : Bool := if s.ctrl = .dataCopy then i.wrBufDataRdy else true

/-- `tmp_buf_store_store_buf_rx_rd_req_rdy`, of a buffer with one read in flight. -/
def reqRdy : Bool := i.tmpReqRdy && (s.tmpRd.isNone || (s.respVal i && s.respRdy i))

/-- `wr_buf_ctrl_req_rdy & tmp_buf_store_store_buf_rx_rd_req_rdy` -/
def startRdy : Bool := i.wrBufReqRdy && s.reqRdy i

/-- `tmp_buf_store_store_buf_rx_rd_resp_val & wr_buf_ctrl_req_data_rdy` -/
def beat : Bool := s.respVal i && i.wrBufDataRdy

/-- `last_transfer` -/
def lastTransfer : Bool := decide (s.cp.bytesLeft ≤ nocDataBytes)

/-- `commit_ptr_store_buf_wr_req_rdy` -/
def commitWrRdy : Bool := i.newFlow.isNone

def cpIn : StoreBufCpIn where
  startRdy := s.startRdy i
  beat := s.beat i
  done := i.wrBufDone
  commitWrRdy := commitWrRdy i
  freeRdy := i.freeRdy

/-- The entry taken from the queue in this cycle. -/
def popped : Option RxStoreBufQ := s.cp.popped s.queue.head?

/-- `init_tmp_buf_rd_metadata` and the entry it is for. -/
def initMetadata : Option RxStoreBufQ :=
  s.popped.filter fun e => e.payloadEntry.payloadLen != 0#16 && e.acceptPayload &&
    Ram.reqRdy s.cp.commitRd s.cp.commitRespRdy

def readAddrNext : SlabAddr :=
  match s.initMetadata with
  | some e => e.payloadEntry.payloadAddr.setWidth 15
  | none =>
    if s.ctrl = .dataCopy ∧ s.beat i = true ∧ s.lastTransfer = false then s.readAddr + 64
    else s.readAddr

/-- The read request of this cycle: when a copy starts, and all the time while it goes on. -/
def tmpReq : Option TmpLine :=
  if (s.ctrl = .dataCopyStart ∧ s.startRdy i = true) ∨ s.ctrl = .dataCopy then
    some (tmpLine (s.readAddrNext i))
  else none

def tmpRdNext : Option TmpLine :=
  if (s.tmpReq i).isSome && s.reqRdy i then s.tmpReq i
  else if s.respVal i && s.respRdy i then none
  else s.tmpRd

/-- `store_buf_commit_ptr_wr_req_data` -/
def commitWr : Ptr := s.commitPtrReg + s.entry.payloadEntry.payloadLen.setWidth 13

/-- The slab address of the free request. -/
def freeAddr : SlabAddr := s.entry.payloadEntry.payloadAddr.setWidth 15

/-- The pointer write and the free request of `UPDATE_POINTER` go out together. -/
def updates : Bool := s.ctrl == .updatePointer && commitWrRdy i && i.freeRdy

/-- What is handed to the neighbours in this cycle. -/
def acts : List CopyAct :=
  match s.ctrl with
  | .dataCopyStart =>
    if s.startRdy i then
      [.writeReq s.entry.flowid (s.commitPtrReg.setWidth 12) s.entry.payloadEntry.payloadLen]
    else []
  | .dataCopy => if s.beat i then (s.tmpRd.map CopyAct.line).toList else []
  | .updatePointer =>
    if s.updates i then
      [.commit s.entry.flowid (s.commitPtrs s.entry.flowid) s.commitWr, .free s.freeAddr]
    else []
  | .freeNonAccepted => if i.freeRdy then [.free s.freeAddr] else []
  | .ready | .commitPtrResp | .dataCopyWait => []

/-- One clock edge. -/
def next : Copier where
  cp := s.cp.step s.queue.head? (s.cpIn i)
  commitPtrReg :=
    match s.ctrl, s.cp.commitRd with
    | .commitPtrResp, some f => s.commitPtrs f
    | _, _ => s.commitPtrReg
  readAddr := s.readAddrNext i
  commitPtrs :=
    match i.newFlow with
    | some (f, p) => Function.update s.commitPtrs f p
    | none =>
      if s.updates i then Function.update s.commitPtrs s.entry.flowid s.commitWr
      else s.commitPtrs
  tmpRd := s.tmpRdNext i
  queue := (if s.popped.isSome then s.queue.tail else s.queue) ++ i.enq.toList
  queued := s.queued ++ i.enq.toList
  done := if s.popped.isSome then s.done ++ s.cur.toList else s.done
  cur :=
    match s.popped with
    | some e => some { entry := e, acts := [] }
    | none => s.cur.map fun r => { r with acts := r.acts ++ s.acts i }

/-- Entries have a payload. -/
def step : Option Copier :=
  if ∀ e ∈ i.enq, e.payloadEntry.payloadLen ≠ 0#16 then some (s.next i) else none

/-- After reset; the pointers hold anything. -/
def Init : Prop :=
  s.ctrl = .ready ∧ s.cp.commitRd = none ∧ s.tmpRd = none ∧ s.queue = [] ∧ s.queued = [] ∧
    s.done = [] ∧ s.cur = none

/-- An accepted entry of flow `f` is in hand. -/
def copies (f : FlowId) : Prop :=
  s.ctrl ≠ .ready ∧ s.ctrl ≠ .freeNonAccepted ∧ s.entry.flowid = f

/-- No flow is initialised while the copier has an accepted entry of it in hand. -/
def InitsOthers : Prop := ∀ x ∈ i.newFlow, ¬ s.copies x.1

instance (f : FlowId) : Decidable (s.copies f) := inferInstanceAs (Decidable (_ ∧ _))

instance : Decidable (InitsOthers s i) :=
  decidable_of_iff (i.newFlow.all fun x => !decide (s.copies x.1))
    (by simp [InitsOthers, Option.all_eq_true])

end Copier

/-! ### What an entry asks for -/

namespace RxStoreBufQ

variable (e : RxStoreBufQ)

def len : Nat := e.payloadEntry.payloadLen.toNat

def slabAddr : SlabAddr := e.payloadEntry.payloadAddr.setWidth 15

/-- The first `n` lines of the slab. -/
def lines (n : Nat) : List CopyAct :=
  (List.range n).map fun k => .line (tmpLine (e.slabAddr + BitVec.ofNat 15 (64 * k)))

/-- The lines that hold the payload. -/
def lineCnt : Nat := (e.len + 63) / 64

/-- Everything to be done for the entry, with the flow's commit pointer at `p`. -/
def script (p : Ptr) : List CopyAct :=
  if e.acceptPayload then
    .writeReq e.flowid (p.setWidth 12) e.payloadEntry.payloadLen :: e.lines e.lineCnt ++
      [.commit e.flowid p (p + BitVec.ofNat 13 e.len), .free e.slabAddr]
  else [.free e.slabAddr]

end RxStoreBufQ

/-- Everything was done for the entry, once and in order. -/
def CopyRecord.Handled (r : CopyRecord) : Prop := ∃ p, r.acts = r.entry.script p

namespace Copier

/-- Entries are taken in order, each is handled before the next is taken, and the latest one is
when the copier is ready again. -/
structure Sound (s : Copier) : Prop where
  order : (s.done ++ s.cur.toList).map CopyRecord.entry ++ s.queue = s.queued
  done : ∀ r ∈ s.done, r.Handled
  latest : s.ctrl = .ready → ∀ r ∈ s.cur, r.Handled

/-! ### Phases -/

variable {s : Copier} {i : CopierIn}

/-- The accepted entry in hand and what was done for it. -/
structure InHand (s : Copier) (acts : List CopyAct) : Prop where
  cur : s.cur = some { entry := s.entry, acts := acts }
  accept : s.entry.acceptPayload = true
  port : s.cp.commitRd = none

/-- The copy stands at line `k`. -/
structure AtLine (s : Copier) (k : Nat) : Prop where
  addr : s.readAddr = s.entry.slabAddr + BitVec.ofNat 15 (64 * k)
  left : s.cp.bytesLeft.toNat + 64 * k = s.entry.len
  pos : 0 < s.cp.bytesLeft.toNat

/-- The pointer in the register is the flow's. -/
def PtrHeld (s : Copier) : Prop := s.commitPtrReg = s.commitPtrs s.entry.flowid

/-- The write was opened and `n` lines passed on. -/
def opened (s : Copier) (n : Nat) : List CopyAct :=
  .writeReq s.entry.flowid (s.commitPtrReg.setWidth 12) s.entry.payloadEntry.payloadLen ::
    s.entry.lines n

/-- What each control state knows. -/
def Phase (s : Copier) : Prop :=
  match s.ctrl with
  | .ready => s.cp.commitRd = none ∧ ∀ r ∈ s.cur, r.Handled
  | .commitPtrResp =>
    s.cp.commitRd = some s.entry.flowid ∧ s.cur = some { entry := s.entry, acts := [] } ∧
      s.entry.acceptPayload = true ∧ AtLine s 0
  | .dataCopyStart => InHand s [] ∧ AtLine s 0 ∧ PtrHeld s
  | .dataCopy => ∃ k, InHand s (s.opened k) ∧ AtLine s k ∧ PtrHeld s ∧
      ∀ a ∈ s.tmpRd, a = tmpLine s.readAddr
  | .dataCopyWait | .updatePointer => InHand s (s.opened s.entry.lineCnt) ∧ PtrHeld s
  | .freeNonAccepted =>
    s.cur = some { entry := s.entry, acts := [] } ∧ s.entry.acceptPayload = false ∧
      s.cp.commitRd = none

theorem popped_of_busy (h : s.ctrl ≠ .ready) : s.popped = none := by
  unfold popped StoreBufCp.popped
  exact if_neg h

theorem initMetadata_of_busy (h : s.ctrl ≠ .ready) : s.initMetadata = none := by
  simp [initMetadata, popped_of_busy h]

/-- Outside of `READY` only the latest record grows. -/
theorem next_of_busy (h : s.ctrl ≠ .ready) :
    (s.next i).cur = s.cur.map (fun r => { r with acts := r.acts ++ s.acts i }) ∧
      (s.next i).done = s.done ∧ (s.next i).queue = s.queue ++ i.enq.toList := by
  simp [next, popped_of_busy h]

/-- The pointer of the flow in hand stays until it is updated. -/
theorem commitPtrs_next (hok : InitsOthers s i) (hr : s.ctrl ≠ .ready)
    (hf : s.ctrl ≠ .freeNonAccepted) (hu : s.updates i = false) :
    (s.next i).commitPtrs s.entry.flowid = s.commitPtrs s.entry.flowid := by
  unfold next
  cases hn : i.newFlow with
  | none => simp [hu]
  | some x =>
    have hne : s.entry.flowid ≠ x.1 := fun he => hok x hn ⟨hr, hf, he⟩
    simp [hne]

theorem entry_next (h : s.ctrl ≠ .ready) : (s.next i).entry = s.entry := by
  have hc : s.cp.ctrl ≠ .ready := h
  show (s.cp.step s.queue.head? (s.cpIn i)).qEntry = s.cp.qEntry
  unfold StoreBufCp.step
  cases hs : s.cp.ctrl with
  | ready => exact absurd hs hc
  | commitPtrResp | dataCopyStart | dataCopyWait | updatePointer | freeNonAccepted =>
    simp only
    split <;> rfl
  | dataCopy =>
    simp only
    split
    · split <;> rfl
    · rfl

/-- A cycle in which nothing is handed over leaves the record as it is. -/
theorem cur_next_of_no_acts {r : CopyRecord} (h : s.ctrl ≠ .ready) (hc : s.cur = some r)
    (ha : s.acts i = []) : (s.next i).cur = some r := by
  rw [(next_of_busy h).1, hc, ha]
  simp

theorem AtLine.keep {t : Copier} {k : Nat} (h : AtLine s k) (hr : t.readAddr = s.readAddr)
    (hb : t.cp.bytesLeft = s.cp.bytesLeft) (he : t.entry = s.entry) : AtLine t k := by
  refine ⟨?_, ?_, ?_⟩
  · rw [hr, he]
    exact h.addr
  · rw [hb, he]
    exact h.left
  · rw [hb]
    exact h.pos

/-- The record in hand grows by what is handed over. -/
theorem inHand_next {as : List CopyAct} (h : InHand s as) (hr : s.ctrl ≠ .ready)
    (hp : (s.next i).cp.commitRd = s.cp.commitRd) : InHand (s.next i) (as ++ s.acts i) := by
  have he := entry_next (i := i) hr
  refine ⟨?_, ?_, ?_⟩
  · rw [(next_of_busy hr).1, h.cur, he]
    rfl
  · rw [he]
    exact h.accept
  · rw [hp]
    exact h.port

theorem opened_keep {t : Copier} (he : t.entry = s.entry) (hr : t.commitPtrReg = s.commitPtrReg)
    (n : Nat) : t.opened n = s.opened n := by
  rw [opened, opened, he, hr]

theorem ptrHeld_next (h : PtrHeld s) (hok : InitsOthers s i) (hr : s.ctrl ≠ .ready)
    (hf : s.ctrl ≠ .freeNonAccepted) (hu : s.updates i = false)
    (hreg : (s.next i).commitPtrReg = s.commitPtrReg) : PtrHeld (s.next i) := by
  unfold PtrHeld
  rw [hreg, entry_next hr, commitPtrs_next hok hr hf hu]
  exact h

theorem phase_ready (h : s.ctrl = .ready) (hp : Phase s)
    (hq : ∀ e ∈ s.queue, e.payloadEntry.payloadLen ≠ 0#16) : Phase (s.next i) := by
  have hc : s.cp.ctrl = .ready := h
  simp only [Phase, h] at hp
  obtain ⟨hport, hcur⟩ := hp
  cases hhead : s.queue.head? with
  | none =>
    have hpop : s.popped = none := by simp [popped, StoreBufCp.popped, hhead]
    have hcp : (s.next i).cp = s.cp := by simp [next, StoreBufCp.step, hc, hhead]
    have hcur' : (s.next i).cur = s.cur := by
      simp [next, hpop, acts, h]
    simp only [Phase, ctrl, hcp, hc, hcur']
    exact ⟨hport, hcur⟩
  | some e =>
    have he : e.payloadEntry.payloadLen ≠ 0#16 := hq e (List.mem_of_mem_head? hhead)
    have hpop : s.popped = some e := by simp [popped, StoreBufCp.popped, hc, hhead]
    have hcur' : (s.next i).cur = some { entry := e, acts := [] } := by simp [next, hpop]
    have hcp : (s.next i).cp = s.cp.start e := by simp [next, StoreBufCp.step, hc, hhead]
    cases hacc : e.acceptPayload with
    | false =>
      have hstart : s.cp.start e = { s.cp with ctrl := .freeNonAccepted, qEntry := e } := by
        simp [StoreBufCp.start, hacc, he]
      simp only [Phase, ctrl, entry, hcp, hstart]
      exact ⟨hcur', hacc, hport⟩
    | true =>
      have hstart : s.cp.start e =
          { ctrl := .commitPtrResp
            qEntry := e
            bytesLeft := e.payloadEntry.payloadLen
            commitRd := some e.flowid } := by
        simp [StoreBufCp.start, hacc, he, hport, Ram.reqRdy, Ram.next]
      have hinit : s.initMetadata = some e := by
        simp [initMetadata, hpop, he, hacc, hport, Ram.reqRdy]
      rw [hstart] at hcp
      have hent : (s.next i).entry = e := by simp [entry, hcp]
      have hread : (s.next i).readAddr = e.slabAddr := by
        simp [next, readAddrNext, hinit, RxStoreBufQ.slabAddr]
      have hpos : 0 < e.payloadEntry.payloadLen.toNat := by bv_omega
      simp only [Phase, ctrl, hcp, hent]
      refine ⟨trivial, hcur', hacc, ?_, ?_, ?_⟩
      · simp [hread, hent]
      · simp [hcp, hent, RxStoreBufQ.len]
      · simpa [hcp] using hpos

theorem phase_commitPtrResp (h : s.ctrl = .commitPtrResp) (hp : Phase s) (hok : InitsOthers s i) :
    Phase (s.next i) := by
  have hc : s.cp.ctrl = .commitPtrResp := h
  simp only [Phase, h] at hp
  obtain ⟨hport, hcur, hacc, hline⟩ := hp
  have hne : s.ctrl ≠ .ready := by simp [h]
  have hent := entry_next (i := i) hne
  have hcp : (s.next i).cp = { s.cp with ctrl := .dataCopyStart, commitRd := none } := by
    simp [next, StoreBufCp.step, hc, hport, StoreBufCp.commitRespRdy, Ram.next]
  have hread : (s.next i).readAddr = s.readAddr := by
    simp [next, readAddrNext, initMetadata_of_busy hne, h]
  have hreg : (s.next i).commitPtrReg = s.commitPtrs s.entry.flowid := by
    simp [next, h, hport]
  simp only [Phase, ctrl, hcp]
  refine ⟨⟨?_, by rw [hent]; exact hacc, by rw [hcp]⟩, ⟨?_, ?_, ?_⟩, ?_⟩
  · rw [hent]
    exact cur_next_of_no_acts hne hcur (by simp [acts, h])
  · rw [hread, hent]
    exact hline.addr
  · rw [hcp, hent]
    exact hline.left
  · rw [hcp]
    exact hline.pos
  · unfold PtrHeld
    rw [hreg, hent, commitPtrs_next hok hne (by simp [h]) (by simp [updates, h])]

theorem phase_dataCopyStart (h : s.ctrl = .dataCopyStart) (hp : Phase s)
    (hok : InitsOthers s i) : Phase (s.next i) := by
  have hc : s.cp.ctrl = .dataCopyStart := h
  simp only [Phase, h] at hp
  obtain ⟨hhand, hline, hptr⟩ := hp
  have hne : s.ctrl ≠ .ready := by simp [h]
  have hent := entry_next (i := i) hne
  have hread : (s.next i).readAddr = s.readAddr := by
    simp [next, readAddrNext, initMetadata_of_busy hne, h]
  have hreg : (s.next i).commitPtrReg = s.commitPtrReg := by simp [next, h]
  have hptr' := ptrHeld_next hptr hok hne (by simp [h]) (by simp [updates, h]) hreg
  cases hs : s.startRdy i with
  | false =>
    have hcp : (s.next i).cp = s.cp := by simp [next, StoreBufCp.step, hc, cpIn, hs]
    have hhand' := inHand_next (i := i) hhand hne (by rw [hcp])
    rw [show s.acts i = [] by simp [acts, h, hs]] at hhand'
    simp only [Phase, ctrl, hcp, hc]
    exact ⟨hhand', hline.keep hread (by rw [hcp]) hent, hptr'⟩
  | true =>
    have hcp : (s.next i).cp = { s.cp with ctrl := .dataCopy } := by
      simp [next, StoreBufCp.step, hc, cpIn, hs]
    have hhand' := inHand_next (i := i) hhand hne (by rw [hcp])
    rw [show s.acts i = s.opened 0 by simp [opened, acts, h, hs, RxStoreBufQ.lines],
      List.nil_append, ← opened_keep hent hreg] at hhand'
    have hrdy : s.reqRdy i = true := (Bool.and_eq_true_iff.mp hs).2
    simp only [Phase, ctrl, hcp]
    refine ⟨0, hhand', hline.keep hread (by rw [hcp]) hent, hptr', ?_⟩
    -- the request was accepted, so what was in flight before is gone
    intro a ha
    have hrd : (s.next i).tmpRd = some (tmpLine (s.readAddrNext i)) := by
      simp [next, tmpRdNext, tmpReq, h, hs, hrdy]
    rw [hrd, Option.mem_some_iff] at ha
    exact ha.symm

theorem lines_succ (e : RxStoreBufQ) (k : Nat) :
    e.lines (k + 1) = e.lines k ++ [.line (tmpLine (e.slabAddr + BitVec.ofNat 15 (64 * k)))] := by
  simp [RxStoreBufQ.lines, List.range_succ]

/-- In `DATA_COPY` the read in flight afterwards is for the line the copy stands at then. -/
theorem tmpRd_dataCopy (h : s.ctrl = .dataCopy)
    (hrd : ∀ a ∈ s.tmpRd, a = tmpLine s.readAddr)
    (hstay : s.beat i = false → s.readAddrNext i = s.readAddr) :
    ∀ a ∈ (s.next i).tmpRd, a = tmpLine (s.next i).readAddr := by
  intro a ha
  have ha : a ∈ s.tmpRdNext i := ha
  show a = tmpLine (s.readAddrNext i)
  have hreq : s.tmpReq i = some (tmpLine (s.readAddrNext i)) := by simp [tmpReq, h]
  unfold tmpRdNext at ha
  rw [hreq] at ha
  split at ha
  · exact (Option.mem_some_iff.mp ha).symm
  · split at ha
    · cases ha
    · rename_i hno
      have hbeat : s.beat i = false := by simpa [beat, respRdy, h] using hno
      rw [hstay hbeat]
      exact hrd a ha

/-- A line is passed on. -/
theorem phase_beat {k : Nat} (h : s.ctrl = .dataCopy) (hb : s.beat i = true)
    (hhand : InHand s (s.opened k)) (hline : AtLine s k)
    (hrd : ∀ a ∈ s.tmpRd, a = tmpLine s.readAddr) (hptr' : PtrHeld (s.next i)) :
    Phase (s.next i) := by
  have hc : s.cp.ctrl = .dataCopy := h
  have hne : s.ctrl ≠ .ready := by simp [h]
  have hent := entry_next (i := i) hne
  have hreg : (s.next i).commitPtrReg = s.commitPtrReg := by simp [next, h]
  obtain ⟨a, ha⟩ : ∃ a, s.tmpRd = some a := by
    have hval := (Bool.and_eq_true_iff.mp hb).1
    exact Option.isSome_iff_exists.mp (Bool.and_eq_true_iff.mp hval).2
  have hacts : s.opened k ++ s.acts i = (s.next i).opened (k + 1) := by
    have hthis : a = tmpLine s.readAddr := hrd a ha
    rw [opened_keep hent hreg, opened, opened, lines_succ]
    simp [acts, h, hb, ha, hthis, hline.addr]
  have hleft := hline.left
  have hpos := hline.pos
  cases hlast : s.lastTransfer with
  | true =>
    have hle : s.cp.bytesLeft ≤ nocDataBytes := by simpa [lastTransfer] using hlast
    have hcp : (s.next i).cp = { s.cp with ctrl := .dataCopyWait } := by
      simp only [next, StoreBufCp.step, hc, cpIn, hb, hle, if_true]
    have hhand' := inHand_next (i := i) hhand hne (by rw [hcp])
    have hcnt : (s.next i).entry.lineCnt = k + 1 := by
      have hle' : s.cp.bytesLeft.toNat ≤ 64 := hle
      rw [hent, RxStoreBufQ.lineCnt]
      omega
    rw [hacts] at hhand'
    simp only [Phase, ctrl, hcp, hcnt]
    exact ⟨hhand', hptr'⟩
  | false =>
    have hgt : ¬ s.cp.bytesLeft ≤ nocDataBytes := by simpa [lastTransfer] using hlast
    have hcp : (s.next i).cp = { s.cp with bytesLeft := s.cp.bytesLeft - nocDataBytes } := by
      simp only [next, StoreBufCp.step, hc, cpIn, hb, hgt, if_true, if_false]
    have hhand' := inHand_next (i := i) hhand hne (by rw [hcp])
    have hsub : (s.cp.bytesLeft - nocDataBytes).toNat = s.cp.bytesLeft.toNat - 64 ∧
        64 < s.cp.bytesLeft.toNat := by
      simp only [nocDataBytes] at hgt ⊢
      bv_omega
    have hread : (s.next i).readAddr = s.readAddr + 64 := by
      simp [next, readAddrNext, initMetadata_of_busy hne, h, hb, hlast]
    rw [hacts] at hhand'
    simp only [Phase, ctrl, hcp, hc]
    refine ⟨k + 1, hhand', ⟨?_, ?_, ?_⟩, hptr', tmpRd_dataCopy h hrd (by simp [hb])⟩
    · rw [hread, hline.addr, hent, Nat.mul_succ, BitVec.ofNat_add, BitVec.add_assoc]
      rfl
    · rw [hcp, hent]
      show (s.cp.bytesLeft - nocDataBytes).toNat + 64 * (k + 1) = _
      omega
    · rw [hcp]
      show 0 < (s.cp.bytesLeft - nocDataBytes).toNat
      omega

theorem phase_dataCopy (h : s.ctrl = .dataCopy) (hp : Phase s) (hok : InitsOthers s i) :
    Phase (s.next i) := by
  have hc : s.cp.ctrl = .dataCopy := h
  simp only [Phase, h] at hp
  obtain ⟨k, hhand, hline, hptr, hrd⟩ := hp
  have hne : s.ctrl ≠ .ready := by simp [h]
  have hent := entry_next (i := i) hne
  have hreg : (s.next i).commitPtrReg = s.commitPtrReg := by simp [next, h]
  have hptr' := ptrHeld_next hptr hok hne (by simp [h]) (by simp [updates, h]) hreg
  cases hb : s.beat i with
  | true => exact phase_beat h hb hhand hline hrd hptr'
  | false =>
    have hcp : (s.next i).cp = s.cp := by simp [next, StoreBufCp.step, hc, cpIn, hb]
    have hread : (s.next i).readAddr = s.readAddr := by
      simp [next, readAddrNext, initMetadata_of_busy hne, hb]
    have hhand' := inHand_next (i := i) hhand hne (by rw [hcp])
    rw [show s.acts i = [] by simp [acts, h, hb], List.append_nil,
      ← opened_keep hent hreg] at hhand'
    simp only [Phase, ctrl, hcp, hc]
    exact ⟨k, hhand', hline.keep hread (by rw [hcp]) hent, hptr',
      tmpRd_dataCopy h hrd fun _ => hread⟩

theorem phase_dataCopyWait (h : s.ctrl = .dataCopyWait) (hp : Phase s) (hok : InitsOthers s i) :
    Phase (s.next i) := by
  have hc : s.cp.ctrl = .dataCopyWait := h
  simp only [Phase, h] at hp
  obtain ⟨hhand, hptr⟩ := hp
  have hne : s.ctrl ≠ .ready := by simp [h]
  have hent := entry_next (i := i) hne
  have hreg : (s.next i).commitPtrReg = s.commitPtrReg := by simp [next, h]
  have hptr' := ptrHeld_next hptr hok hne (by simp [h]) (by simp [updates, h]) hreg
  have hcp : (s.next i).cp =
      { s.cp with ctrl := if i.wrBufDone then .updatePointer else .dataCopyWait } := by
    cases hd : i.wrBufDone <;> simp [next, StoreBufCp.step, hc, cpIn, hd]
    rw [← hc]
  have hhand' := inHand_next (i := i) hhand hne (by rw [hcp])
  rw [show s.acts i = [] by simp [acts, h], List.append_nil, ← opened_keep hent hreg,
    ← hent] at hhand'
  cases hd : i.wrBufDone <;> rw [hd] at hcp <;> simp only [Phase, ctrl, hcp] <;>
    exact ⟨hhand', hptr'⟩

theorem phase_updatePointer (h : s.ctrl = .updatePointer) (hp : Phase s)
    (hok : InitsOthers s i) : Phase (s.next i) := by
  have hc : s.cp.ctrl = .updatePointer := h
  simp only [Phase, h] at hp
  obtain ⟨hhand, hptr⟩ := hp
  have hne : s.ctrl ≠ .ready := by simp [h]
  have hent := entry_next (i := i) hne
  cases hu : s.updates i with
  | false =>
    have hcp : (s.next i).cp = s.cp := by
      have hu' : (commitWrRdy i && i.freeRdy) = false := by simpa [updates, h] using hu
      simp only [next, StoreBufCp.step, hc, cpIn, hu']
      rfl
    have hreg : (s.next i).commitPtrReg = s.commitPtrReg := by simp [next, h]
    have hptr' := ptrHeld_next hptr hok hne (by simp [h]) hu hreg
    have hhand' := inHand_next (i := i) hhand hne (by rw [hcp])
    rw [show s.acts i = [] by simp [acts, h, hu], List.append_nil, ← opened_keep hent hreg,
      ← hent] at hhand'
    simp only [Phase, ctrl, hcp, hc]
    exact ⟨hhand', hptr'⟩
  | true =>
    have hcp : (s.next i).cp = { s.cp with ctrl := .ready } := by
      have hu' : (commitWrRdy i && i.freeRdy) = true := by simpa [updates, h] using hu
      simp only [next, StoreBufCp.step, hc, cpIn, hu']
      rfl
    have hhand' := inHand_next (i := i) hhand hne (by rw [hcp])
    simp only [Phase, ctrl, hcp]
    refine ⟨hhand.port, fun r hr => ?_⟩
    rw [hhand'.cur, Option.mem_some_iff] at hr
    subst hr
    have hptr : s.commitPtrReg = s.commitPtrs s.entry.flowid := hptr
    refine ⟨s.commitPtrReg, ?_⟩
    simp only [hent, RxStoreBufQ.script, hhand.accept, if_true]
    simp [acts, h, hu, opened, commitWr, freeAddr, RxStoreBufQ.slabAddr, ← hptr, RxStoreBufQ.len]

theorem phase_freeNonAccepted (h : s.ctrl = .freeNonAccepted) (hp : Phase s) :
    Phase (s.next i) := by
  have hc : s.cp.ctrl = .freeNonAccepted := h
  simp only [Phase, h] at hp
  obtain ⟨hcur, hacc, hport⟩ := hp
  have hne : s.ctrl ≠ .ready := by simp [h]
  have hent := entry_next (i := i) hne
  cases hf : i.freeRdy with
  | false =>
    have hcp : (s.next i).cp = s.cp := by simp [next, StoreBufCp.step, hc, cpIn, hf]
    have hcur' := cur_next_of_no_acts (i := i) hne hcur (by simp [acts, h, hf])
    simp only [Phase, ctrl, hcp, hc, hent]
    exact ⟨hcur', hacc, hport⟩
  | true =>
    have hcp : (s.next i).cp = { s.cp with ctrl := .ready } := by
      simp [next, StoreBufCp.step, hc, cpIn, hf]
    have hcur' : (s.next i).cur = some { entry := s.entry, acts := [.free s.freeAddr] } := by
      rw [(next_of_busy hne).1, hcur]
      simp [acts, h, hf]
    simp only [Phase, ctrl, hcp, hcur']
    refine ⟨hport, fun r hr => ?_⟩
    rw [Option.mem_some_iff] at hr
    subst hr
    refine ⟨0, ?_⟩
    simp [RxStoreBufQ.script, hacc, freeAddr, RxStoreBufQ.slabAddr]

theorem phase_next (hp : Phase s) (hq : ∀ e ∈ s.queue, e.payloadEntry.payloadLen ≠ 0#16)
    (hok : InitsOthers s i) : Phase (s.next i) := by
  cases h : s.ctrl with
  | ready => exact phase_ready h hp hq
  | commitPtrResp => exact phase_commitPtrResp h hp hok
  | dataCopyStart => exact phase_dataCopyStart h hp hok
  | dataCopy => exact phase_dataCopy h hp hok
  | dataCopyWait => exact phase_dataCopyWait h hp hok
  | updatePointer => exact phase_updatePointer h hp hok
  | freeNonAccepted => exact phase_freeNonAccepted h hp

/-! ### Runs -/

structure Inv (s : Copier) : Prop where
  order : (s.done ++ s.cur.toList).map CopyRecord.entry ++ s.queue = s.queued
  done : ∀ r ∈ s.done, r.Handled
  queue : ∀ e ∈ s.queue, e.payloadEntry.payloadLen ≠ 0#16
  phase : Phase s

theorem Inv.sound (h : Inv s) : Sound s := by
  refine ⟨h.order, h.done, fun hr r hc => ?_⟩
  have hp := h.phase
  simp only [Phase, hr] at hp
  exact hp.2 r hc

theorem order_next (h : Inv s) :
    ((s.next i).done ++ (s.next i).cur.toList).map CopyRecord.entry ++ (s.next i).queue =
      (s.next i).queued := by
  have hord := h.order
  show _ = s.queued ++ i.enq.toList
  rw [← hord]
  cases hpop : s.popped with
  | none => cases hc : s.cur <;> simp [next, hpop, hc]
  | some e =>
    obtain ⟨t, ht⟩ : ∃ t, s.queue = e :: t := by
      unfold popped StoreBufCp.popped at hpop
      split at hpop
      · exact List.head?_eq_some_iff.mp hpop
      · cases hpop
    simp [next, hpop, ht]

theorem inv_next (h : Inv s) (hok : InitsOthers s i)
    (henq : ∀ e ∈ i.enq, e.payloadEntry.payloadLen ≠ 0#16) : Inv (s.next i) := by
  refine ⟨order_next h, ?_, ?_, phase_next h.phase h.queue hok⟩
  · intro r hr
    simp only [next] at hr
    split at hr
    · rename_i hpop
      have hready : s.ctrl = .ready := by
        by_contra hne
        simp [popped_of_busy hne] at hpop
      rcases List.mem_append.mp hr with hr | hr
      · exact h.done r hr
      · exact h.sound.latest hready r (Option.mem_toList.mp hr)
    · exact h.done r hr
  · intro e he
    have hmem : e ∈ s.queue ∨ e ∈ i.enq := by
      simp only [next, List.mem_append, Option.mem_toList] at he
      rcases he with he | he
      · split at he
        · exact .inl (List.mem_of_mem_tail he)
        · exact .inl he
      · exact .inr he
    rcases hmem with he | he
    · exact h.queue e he
    · exact henq e he

theorem inv_step {s' : Copier} (h : Inv s) (hok : InitsOthers s i) (hs : s.step i = some s') :
    Inv s' := by
  simp only [step, Option.ite_none_right_eq_some, Option.some.injEq] at hs
  obtain ⟨henq, rfl⟩ := hs
  exact inv_next h hok henq

theorem inv_init (h : s.Init) : Inv s := by
  obtain ⟨hc, hport, -, hq, hqd, hdone, hcur⟩ := h
  refine ⟨by simp [hq, hqd, hdone, hcur], by simp [hdone], by simp [hq], ?_⟩
  simp only [Phase, hc]
  exact ⟨hport, by simp [hcur]⟩

theorem inv_of_reach (h : Reach Init step InitsOthers s) : Inv s :=
  h.invariant (fun _ => inv_init) fun _ _ _ hi hok hs => inv_step hi hok hs

/-! ### Progress -/

/-- Lines still to be passed on. -/
def linesLeft (s : Copier) : Nat := (s.cp.bytesLeft.toNat + 63) / 64

/-- Handshakes still to come for the entry in hand, at most. -/
def work (s : Copier) : Nat :=
  match s.ctrl with
  | .ready => 0
  | .freeNonAccepted | .updatePointer => 1
  | .dataCopyWait => 2
  | .dataCopy => 2 + 2 * s.linesLeft + if s.tmpRd.isNone then 1 else 0
  | .dataCopyStart => 4 + 2 * s.linesLeft
  | .commitPtrResp => 5 + 2 * s.linesLeft

/-- No neighbour delays the copier in this cycle: the handshake the control state waits for, if
any, takes place. -/
def served (s : Copier) (i : CopierIn) : Bool :=
  match s.ctrl with
  | .ready | .commitPtrResp => true
  | .dataCopyStart => s.startRdy i
  | .dataCopy => if s.tmpRd.isSome then s.beat i else s.reqRdy i
  | .dataCopyWait => i.wrBufDone
  | .updatePointer => s.updates i
  | .freeNonAccepted => i.freeRdy

/-- The entry that is the `n`-th to be taken is finished. -/
def Finished (n : Nat) (s : Copier) : Prop :=
  n < s.done.length ∨ (n = s.done.length ∧ s.ctrl = .ready ∧ s.cur.isSome = true)

theorem finished_next {n : Nat} (h : Finished n s) : Finished n (s.next i) := by
  rcases h with h | ⟨hn, hc, hcur⟩
  · refine .inl ?_
    simp only [next]
    split
    · rw [List.length_append]
      omega
    · exact h
  · cases hpop : s.popped with
    | some e =>
      obtain ⟨r, hr⟩ := Option.isSome_iff_exists.mp hcur
      refine .inl ?_
      simp only [next, hpop, hr, Option.isSome_some, if_true, Option.toList_some,
        List.length_append, List.length_singleton]
      omega
    | none =>
      have hhead : s.queue.head? = none := by
        have hc' : s.cp.ctrl = .ready := hc
        simpa [popped, StoreBufCp.popped, hc'] using hpop
      have hctrl : (s.next i).ctrl = .ready := by
        have hc' : s.cp.ctrl = .ready := hc
        simp [ctrl, next, StoreBufCp.step, hc', hhead]
      refine .inr ⟨?_, hctrl, ?_⟩
      · simpa [next, hpop] using hn
      · simpa [next, hpop] using hcur

/-- The `n`-th entry is in hand. -/
def Busy (n : Nat) (s : Copier) : Prop :=
  s.ctrl ≠ .ready ∧ s.done.length = n ∧ s.cur.isSome = true

theorem Inv.busy (h : Inv s) (hr : s.ctrl ≠ .ready) : Busy s.done.length s := by
  have hp := h.phase
  refine ⟨hr, rfl, ?_⟩
  cases hc : s.ctrl with
  | ready => exact absurd hc hr
  | commitPtrResp =>
    simp only [Phase, hc] at hp
    simp [hp.2.1]
  | dataCopyStart =>
    simp only [Phase, hc] at hp
    simp [hp.1.cur]
  | dataCopy =>
    simp only [Phase, hc] at hp
    obtain ⟨k, hhand, -⟩ := hp
    simp [hhand.cur]
  | dataCopyWait =>
    simp only [Phase, hc] at hp
    simp [hp.1.cur]
  | updatePointer =>
    simp only [Phase, hc] at hp
    simp [hp.1.cur]
  | freeNonAccepted =>
    simp only [Phase, hc] at hp
    simp [hp.1]

/-- An entry in hand stays so, or is finished when the copier is ready. -/
theorem busy_next {n : Nat} (h : Busy n s) :
    ((s.next i).ctrl = .ready ∧ Finished n (s.next i)) ∨ Busy n (s.next i) := by
  obtain ⟨hr, hn, hcur⟩ := h
  obtain ⟨hcur', hdone', -⟩ := next_of_busy (i := i) hr
  have hcur'' : (s.next i).cur.isSome = true := by simp [hcur', hcur]
  have hn' : (s.next i).done.length = n := by rw [hdone', hn]
  by_cases hc : (s.next i).ctrl = .ready
  · exact .inl ⟨hc, .inr ⟨hn'.symm, hc, hcur''⟩⟩
  · exact .inr ⟨hc, hn', hcur''⟩

theorem linesLeft_sub (hgt : 64 < s.cp.bytesLeft.toNat) (hb : (s.next i).cp.bytesLeft =
    s.cp.bytesLeft - nocDataBytes) : (s.next i).linesLeft + 1 = s.linesLeft := by
  have hsub : (s.cp.bytesLeft - nocDataBytes).toNat = s.cp.bytesLeft.toNat - 64 := by
    simp only [nocDataBytes]
    bv_omega
  rw [linesLeft, linesLeft, hb, hsub]
  omega

/-- A line less, or the read that was missing. -/
theorem work_dataCopy (h : s.ctrl = .dataCopy) (hpos : 0 < s.cp.bytesLeft.toNat) :
    (s.next i).work + (if s.served i then 1 else 0) ≤ s.work := by
  have hc : s.cp.ctrl = .dataCopy := h
  cases hrd : s.tmpRd with
  | none =>
    have hb : s.beat i = false := by simp [beat, respVal, hrd]
    have hcp : (s.next i).cp = s.cp := by simp [next, StoreBufCp.step, hc, cpIn, hb]
    have hl : (s.next i).linesLeft = s.linesLeft := by simp [linesLeft, hcp]
    cases hq : s.reqRdy i with
    | false =>
      simp only [work, served, ctrl, hcp, hc, hl, hrd, hq, Option.isSome_none, Option.isNone_none,
        if_true, if_false, Bool.false_eq_true]
      split <;> omega
    | true =>
      have hrd' : (s.next i).tmpRd.isNone = false := by simp [next, tmpRdNext, tmpReq, h, hq]
      simp [work, served, ctrl, hcp, hc, hl, hrd, hq, hrd']
  | some a =>
    cases hb : s.beat i with
    | false =>
      have hcp : (s.next i).cp = s.cp := by simp [next, StoreBufCp.step, hc, cpIn, hb]
      have hl : (s.next i).linesLeft = s.linesLeft := by simp [linesLeft, hcp]
      have hno : (s.respVal i && s.respRdy i) = false := by simpa [beat, respRdy, h] using hb
      have hrd' : (s.next i).tmpRd = some a := by
        simp [next, tmpRdNext, reqRdy, hno, hrd]
      simp [work, served, ctrl, hcp, hc, hl, hrd, hrd', hb]
    | true =>
      have hserved : s.served i = true := by simp [served, h, hrd, hb]
      have hwork : s.work = 2 + 2 * s.linesLeft := by simp [work, h, hrd]
      rw [hserved, hwork, if_pos rfl]
      by_cases hle : s.cp.bytesLeft ≤ nocDataBytes
      · have hcp : (s.next i).cp = { s.cp with ctrl := .dataCopyWait } := by
          simp only [next, StoreBufCp.step, hc, cpIn, hb, hle, if_true]
        have hl : 0 < s.linesLeft := by
          rw [linesLeft]
          omega
        simp only [work, ctrl, hcp]
        omega
      · have hcp : (s.next i).cp = { s.cp with bytesLeft := s.cp.bytesLeft - nocDataBytes } := by
          simp only [next, StoreBufCp.step, hc, cpIn, hb, hle, if_true, if_false]
        have hgt : 64 < s.cp.bytesLeft.toNat := by
          simp only [nocDataBytes] at hle
          bv_omega
        have hl := linesLeft_sub (i := i) hgt (by rw [hcp])
        have hc' : (s.next i).ctrl = .dataCopy := by simp [ctrl, hcp, hc]
        simp only [work, hc']
        split <;> omega

/-- Every handshake the entry in hand waits for brings its end nearer. -/
theorem work_next {n : Nat} (h : Inv s) (hb : Busy n s) :
    Finished n (s.next i) ∨ Busy n (s.next i) ∧
      (s.next i).work + (if s.served i then 1 else 0) ≤ s.work := by
  rcases busy_next (i := i) hb with ⟨-, hf⟩ | hb'
  · exact .inl hf
  refine .inr ⟨hb', ?_⟩
  have hp := h.phase
  have hstay := hb'.1
  cases hc : s.ctrl with
  | ready => exact absurd hc hb.1
  | commitPtrResp =>
    have hc' : s.cp.ctrl = .commitPtrResp := hc
    simp only [Phase, hc] at hp
    have hcp : (s.next i).cp.ctrl = .dataCopyStart ∧
        (s.next i).cp.bytesLeft = s.cp.bytesLeft := by
      simp [next, StoreBufCp.step, hc', hp.1]
    simp only [work, served, ctrl, hcp.1, hc', linesLeft, hcp.2, if_true]
    omega
  | dataCopyStart =>
    have hc' : s.cp.ctrl = .dataCopyStart := hc
    cases hs : s.startRdy i with
    | false =>
      have hcp : (s.next i).cp = s.cp := by simp [next, StoreBufCp.step, hc', cpIn, hs]
      simp [work, served, ctrl, hcp, hc', linesLeft, hs]
    | true =>
      have hcp : (s.next i).cp = { s.cp with ctrl := .dataCopy } := by
        simp [next, StoreBufCp.step, hc', cpIn, hs]
      simp only [work, served, ctrl, hcp, hc', linesLeft, hs, if_true]
      split <;> omega
  | dataCopy =>
    simp only [Phase, hc] at hp
    obtain ⟨k, -, hline, -⟩ := hp
    exact work_dataCopy hc hline.pos
  | dataCopyWait =>
    have hc' : s.cp.ctrl = .dataCopyWait := hc
    cases hd : i.wrBufDone <;>
      simp [work, served, ctrl, next, StoreBufCp.step, hc', cpIn, hd]
  | updatePointer =>
    have hc' : s.cp.ctrl = .updatePointer := hc
    cases hu : s.updates i with
    | false =>
      have hu' : (commitWrRdy i && i.freeRdy) = false := by simpa [updates, hc] using hu
      have hcp : (s.next i).cp = s.cp := by
        simp only [next, StoreBufCp.step, hc', cpIn, hu']
        rfl
      simp [work, served, ctrl, hcp, hc', hu]
    | true =>
      have hu' : (commitWrRdy i && i.freeRdy) = true := by simpa [updates, hc] using hu
      refine absurd ?_ hstay
      simp only [ctrl, next, StoreBufCp.step, hc', cpIn, hu']
      rfl
  | freeNonAccepted =>
    have hc' : s.cp.ctrl = .freeNonAccepted := hc
    cases hf : i.freeRdy with
    | false => simp [work, served, ctrl, next, StoreBufCp.step, hc', cpIn, hf]
    | true =>
      refine absurd ?_ hstay
      simp [ctrl, next, StoreBufCp.step, hc', cpIn, hf]

/-- The record of the `n`-th entry taken. -/
def record (s : Copier) (n : Nat) : Option CopyRecord := (s.done ++ s.cur.toList)[n]?

theorem Inv.queued_of_record (h : Inv s) {n : Nat} {r : CopyRecord} (hr : s.record n = some r) :
    s.queued[n]? = some r.entry := by
  have hmap : ((s.done ++ s.cur.toList).map CopyRecord.entry)[n]? = some r.entry := by
    rw [List.getElem?_map]
    exact congrArg (Option.map CopyRecord.entry) hr
  obtain ⟨hlt, -⟩ := List.getElem?_eq_some_iff.mp hmap
  rw [← h.order, List.getElem?_append_left hlt]
  exact hmap

theorem record_length {r : CopyRecord} (hcur : s.cur = some r) : s.record s.done.length = some r := by
  simp [record, hcur]

theorem Inv.record_of_finished (h : Inv s) {n : Nat} (hf : Finished n s) :
    ∃ r, s.record n = some r ∧ r.Handled := by
  rcases hf with hlt | ⟨rfl, hc, hcur⟩
  · refine ⟨s.done[n], ?_, h.done _ (List.getElem_mem hlt)⟩
    rw [record, List.getElem?_append_left hlt, List.getElem?_eq_getElem hlt]
  · obtain ⟨r, hr⟩ := Option.isSome_iff_exists.mp hcur
    exact ⟨r, record_length hr, h.sound.latest hc r hr⟩

theorem queued_of_run {as : List CopierIn} {s' : Copier}
    (hr : run step InitsOthers s as = some s') : s.queued <+: s'.queued := by
  have hreach : Reach (fun t => t = s) step InitsOthers s' := Reach.of_run (.start rfl) hr
  refine hreach.invariant (I := fun t => s.queued <+: t.queued) ?_ ?_
  · rintro t rfl
    exact List.prefix_rfl
  · intro t i t' hpre _ hs
    simp only [step, Option.ite_none_right_eq_some, Option.some.injEq] at hs
    obtain ⟨-, rfl⟩ := hs
    exact hpre.trans (List.prefix_append t.queued i.enq.toList)

theorem finished_of_run {as : List CopierIn} {s' : Copier} (h : Inv s) (hb : s.ctrl ≠ .ready)
    (hr : run step InitsOthers s as = some s') (ht : s.work < tally step served s as) :
    Finished s.done.length s' := by
  refine run_finishes_busy (F := Finished s.done.length) (I := Inv) (B := Busy s.done.length)
    work ?_ ?_ ?_ h (h.busy hb) hr ht
  · exact fun t i t' hi hok hs => inv_step hi hok hs
  · intro t i t' hf hs
    simp only [step, Option.ite_none_right_eq_some, Option.some.injEq] at hs
    obtain ⟨-, rfl⟩ := hs
    exact finished_next hf
  · intro t i t' hi hbt _ hs
    simp only [step, Option.ite_none_right_eq_some, Option.some.injEq] at hs
    obtain ⟨-, rfl⟩ := hs
    exact work_next hi hbt

/-- Entries are handled once and in order, and the entry in hand is handled after at most `work`
cycles in which no neighbour delays the copier. -/
theorem entries_handled_once (h : Reach Init step InitsOthers s) :
    Sound s ∧ ∀ as s', run step InitsOthers s as = some s' → s.ctrl ≠ .ready →
      s.work < tally step served s as →
        ∃ r, s'.record s.done.length = some r ∧ s.cur.map CopyRecord.entry = some r.entry ∧
          r.Handled := by
  have hinv := inv_of_reach h
  refine ⟨hinv.sound, fun as s' hr hne ht => ?_⟩
  have hinv' : Inv s' := inv_of_reach (Reach.of_run h hr)
  obtain ⟨r, hrec, hhand⟩ := hinv'.record_of_finished (finished_of_run hinv hne hr ht)
  refine ⟨r, hrec, ?_, hhand⟩
  -- the entry is the same one as before, since entries stand where they were queued
  obtain ⟨q, hq⟩ := Option.isSome_iff_exists.mp (hinv.busy hne).2.2
  have hbefore := hinv.queued_of_record (record_length hq)
  have hafter := hinv'.queued_of_record hrec
  obtain ⟨hlt, -⟩ := List.getElem?_eq_some_iff.mp hbefore
  obtain ⟨more, hmore⟩ := queued_of_run hr
  rw [← hmore, List.getElem?_append_left hlt, hbefore] at hafter
  rw [hq, Option.map_some, hafter]

/-- After reset, with all pointers at zero. -/
def afterReset : Copier where
  cp := .reset
  commitPtrReg := 0
  readAddr := 0
  commitPtrs := fun _ => 0
  tmpRd := none
  queue := []
  queued := []
  done := []
  cur := none

theorem init_afterReset : Init afterReset := by simp [Init, afterReset, ctrl, StoreBufCp.reset]

/-- An accepted payload of 100 bytes of flow 3. -/
def entryOfTwoLines : RxStoreBufQ where
  flowid := 3
  acceptPayload := true
  payloadEntry := { payloadAddr := 2048, payloadLen := 100 }

/-- A cycle in which all neighbours are ready. -/
def readyCycle : CopierIn where
  enq := none
  newFlow := none
  tmpReqRdy := true
  tmpRespVal := true
  wrBufReqRdy := true
  wrBufDataRdy := true
  wrBufDone := true
  freeRdy := true

theorem entries_handled_once_two_lines :
    ∃ s s' as, Reach Init step InitsOthers s ∧ run step InitsOthers s as = some s' ∧
      s.ctrl ≠ .ready ∧ s.work < tally step served s as ∧
        ∃ r, s'.record s.done.length = some r ∧ s.cur.map CopyRecord.entry = some r.entry ∧
          r.Handled := by
  have hrun : (run step InitsOthers afterReset
      [{ readyCycle with enq := some entryOfTwoLines }, readyCycle]).any (fun s =>
        decide (s.ctrl ≠ .ready ∧
          s.work < tally step served s (List.replicate 12 readyCycle)) &&
        (run step InitsOthers s (List.replicate 12 readyCycle)).isSome) = true := by decide +kernel
  obtain ⟨s, hs, hp⟩ := (Option.any_eq_true _ _).mp hrun
  obtain ⟨hd, hsome⟩ := Bool.and_eq_true_iff.mp hp
  obtain ⟨hne, ht⟩ := of_decide_eq_true hd
  obtain ⟨s', hs'⟩ := Option.isSome_iff_exists.mp hsome
  have hreach : Reach Init step InitsOthers s := Reach.of_run (.start init_afterReset) hs
  exact ⟨s, s', _, hreach, hs', hne, ht, (entries_handled_once hreach).2 _ s' hs' hne ht⟩

/-- Flow 3 gets the pointer 10 while its entry is copied; the pointer is then moved to 100. -/
theorem init_during_copy_lost : ¬ ∀ s, Reach Init step Free s → Sound s := by
  intro hall
  have hrun : ∃ s, Reach Init step Free s ∧ decide (s.ctrl = .ready ∧ ∃ r ∈ s.cur,
      r.entry = entryOfTwoLines ∧ CopyAct.commit 3 10 100 ∈ r.acts) = true := by
    refine Reach.exists_of_run ([{ readyCycle with enq := some entryOfTwoLines }] ++
      List.replicate 3 readyCycle ++ [{ readyCycle with newFlow := some (3, 10) }] ++
      List.replicate 3 readyCycle) init_afterReset ?_
    decide +kernel
  obtain ⟨s, hs, hd⟩ := hrun
  obtain ⟨hc, r, hr, he, hmem⟩ := of_decide_eq_true hd
  obtain ⟨p, hp⟩ := (hall s hs).latest hc r hr
  rw [hp, he, RxStoreBufQ.script, if_pos (by rfl)] at hmem
  have hptr : (3 : FlowId) = entryOfTwoLines.flowid ∧ (10 : Ptr) = p ∧
      (100 : Ptr) = p + BitVec.ofNat 13 entryOfTwoLines.len := by
    simpa [RxStoreBufQ.lines] using hmem
  obtain ⟨-, rfl, hsum⟩ := hptr
  exact absurd hsum (by decide)

end Copier

end TcpHw
