import TcpHw.Common.WrCircBuf

/-!
# A write into a ring stores exactly its bytes

While a request is served, the bytes sent so far are in the ring and the rest of the memory is
as it was. The invariant follows the position in the request through the one or two memory
requests: the line saved is the one the position is in, and the shift is the position's residue.
-/
namespace TcpHw

open Bytes Trace

set_option autoImplicit false

/-- The first `pos` bytes of the request are stored and nothing else is. -/
structure Filled (W : Nat) (j : WrJob) (mem : Memory) (pos : Nat) : Prop where
  written : ∀ k < pos, mem (ringAddr W j.req.flowid j.req.wrPtr k) = streamByte j.lines k
  kept : ∀ x, (∀ k < pos, x ≠ ringAddr W j.req.flowid j.req.wrPtr k) → mem x = j.before x

/-- What a request is to have done at its completion. -/
structure WrJob.Exact (W : Nat) (j : WrJob) (after : Memory) : Prop where
  stored : Filled W j after j.req.size
  lines : j.lines.length = (j.req.size + 63) / 64
  memReqs : j.memReqs ≤ 2

namespace Filled

variable {W pos : Nat} {j : WrJob} {mem : Memory}

theorem start (r : WrReq) (m : Memory) : Filled W ⟨r, m, [], 0⟩ m 0 :=
  ⟨fun k hk => absurd hk (Nat.not_lt_zero k), fun _ _ => rfl⟩

/-- A further input line changes no byte stored before it. -/
theorem addLine (h : Filled W j mem pos) (hpos : pos ≤ 64 * j.lines.length) (d : Line) (n : Nat) :
    Filled W ⟨j.req, j.before, j.lines ++ [d], n⟩ mem pos := by
  refine ⟨fun k hk => ?_, h.kept⟩
  rw [h.written k hk]
  exact (streamByte_append _ _ (by omega)).symm

theorem memReqs (h : Filled W j mem pos) (n : Nat) :
    Filled W ⟨j.req, j.before, j.lines, n⟩ mem pos := ⟨h.written, h.kept⟩

/-- Storing a line adds its bytes up to the end of the message, if these are the next bytes of
the input and the message lies in the ring without a wrap. -/
theorem storeLine (h : Filled W j mem pos) {addr size k n : Nat} {d : Line}
    (hptr : j.req.wrPtr < 2 ^ W) (hn : n ≤ 64) (hsz : 64 * k + n = min size (64 * k + 64))
    (hfit : pos + n ≤ 2 ^ W)
    (haddr : ∀ i < n, addr + 64 * k + i = ringAddr W j.req.flowid j.req.wrPtr (pos + i))
    (hbyte : ∀ i < n, byte d i = streamByte j.lines (pos + i)) :
    Filled W j (TcpHw.storeLine mem addr size k d) (pos + n) := by
  have hin : ∀ x, (addr + 64 * k ≤ x ∧ x < addr + 64 * k + 64 ∧ x < addr + size) ↔
      ∃ i < n, x = addr + 64 * k + i := by
    intro x
    constructor
    · rintro ⟨h1, h2, h3⟩
      exact ⟨x - (addr + 64 * k), by omega, by omega⟩
    · rintro ⟨i, hi, rfl⟩
      omega
  constructor
  · intro q hq
    unfold TcpHw.storeLine
    split
    · rename_i hx
      obtain ⟨i, hi, hx⟩ := (hin _).mp hx
      have hqi : q = pos + i := by
        rw [haddr i hi] at hx
        exact ringAddr_inj hptr (by omega) (by omega) hx
      rw [hx, Nat.add_sub_cancel_left, hbyte i hi, hqi]
    · rename_i hx
      refine h.written q ?_
      by_contra hge
      refine hx ((hin _).mpr ⟨q - pos, by omega, ?_⟩)
      rw [haddr _ (by omega), Nat.add_sub_of_le (by omega)]
  · intro x hx
    unfold TcpHw.storeLine
    rw [if_neg ?_]
    · exact h.kept x fun q hq => hx q (by omega)
    · intro hc
      obtain ⟨i, hi, hxi⟩ := (hin x).mp hc
      rw [haddr i hi] at hxi
      exact hx _ (by omega) hxi

end Filled

/-! ### The registers of a request -/

namespace WrCircBuf

/-- Bytes of the request in memory requests completed before. -/
def base (b : WrCircBuf) (r : WrReq) : Nat := r.size - b.currWrReqRem

/-- The registers serve the request: its first memory request, or the second one behind the
wrap. -/
structure Serves (W : Nat) (b : WrCircBuf) (r : WrReq) : Prop where
  ptr : r.wrPtr < 2 ^ W
  size : r.size ≤ 2 ^ W
  flowid : b.reqFlowid = r.flowid
  rem : 0 < b.currWrReqRem
  half : b.currWrReqRem = r.size ∧ b.currWrReqPtr = r.wrPtr ∨
    b.currWrReqPtr = 0 ∧ b.currWrReqRem + (2 ^ W - r.wrPtr) = r.size
  shift : b.saveLineShift = 8 * (b.base r % 64)

variable {W : Nat} {b : WrCircBuf} {r : WrReq}

/-- The size of the current memory request. -/
def reqSize (W : Nat) (b : WrCircBuf) : Nat := (b.memReq W).memReqSize

theorem reqSize_eq : b.reqSize W = min (2 ^ W - b.currWrReqPtr) b.currWrReqRem := by
  unfold reqSize memReq splitReq bytesToEnd
  simp only [decide_eq_true_eq]
  split <;> omega

theorem splitReq_iff : b.splitReq W = true ↔ 2 ^ W - b.currWrReqPtr < b.currWrReqRem := by
  simp [splitReq, bytesToEnd]

namespace Serves

theorem ptr_lt (h : Serves W b r) : b.currWrReqPtr < 2 ^ W := by
  have hp := h.ptr
  rcases h.half with ⟨-, he⟩ | ⟨he, -⟩ <;> omega

theorem reqSize_pos (h : Serves W b r) : 0 < b.reqSize W := by
  have hp := h.ptr_lt
  have hr := h.rem
  rw [reqSize_eq]
  omega

theorem base_add_rem (h : Serves W b r) : b.base r + b.currWrReqRem = r.size := by
  have hp := h.ptr
  unfold base
  rcases h.half with ⟨hr, -⟩ | ⟨-, hr⟩ <;> omega

theorem base_add_reqSize (h : Serves W b r) : b.base r + b.reqSize W ≤ r.size := by
  have hb := h.base_add_rem
  rw [reqSize_eq]
  omega

/-- Only the first memory request stops at the end of the ring. -/
theorem of_split (h : Serves W b r) (hs : b.splitReq W = true) :
    b.base r = 0 ∧ b.currWrReqRem = r.size ∧ b.currWrReqPtr = r.wrPtr ∧
      b.reqSize W = 2 ^ W - r.wrPtr ∧ 2 ^ W - r.wrPtr < r.size := by
  have hp := h.ptr
  have hz := h.size
  rw [splitReq_iff] at hs
  rw [reqSize_eq]
  unfold base
  rcases h.half with ⟨hr, hq⟩ | ⟨hq, hr⟩ <;> omega

/-- Without a split the memory request is all that is left. -/
theorem of_not_split (h : Serves W b r) (hs : b.splitReq W = false) :
    b.base r + b.reqSize W = r.size := by
  have hb := h.base_add_rem
  have hn : ¬ 2 ^ W - b.currWrReqPtr < b.currWrReqRem := by
    rw [← splitReq_iff, hs]
    decide
  rw [reqSize_eq]
  omega

theorem ptr_eq (h : Serves W b r) : b.currWrReqPtr = (r.wrPtr + b.base r) % 2 ^ W := by
  have hp := h.ptr
  have hb := h.base_add_rem
  rw [wrap_eq hp (by have hz := h.size; omega)]
  rcases h.half with ⟨hr, hq⟩ | ⟨hq, hr⟩
  · rw [if_pos] <;> omega
  · rw [if_neg] <;> omega

/-- The addresses of the memory request are those of the next bytes of the ring. -/
theorem addr (h : Serves W b r) {i : Nat} (hi : i < b.reqSize W) :
    (b.memReq W).memReqAddr + i = ringAddr W r.flowid r.wrPtr (b.base r + i) := by
  have hfit : (r.wrPtr + b.base r) % 2 ^ W + i < 2 ^ W := by
    rw [reqSize_eq] at hi
    rw [← h.ptr_eq]
    omega
  rw [ringAddr_add hfit, ← h.ptr_eq, ← h.flowid]
  rfl

end Serves

end WrCircBuf

/-! ### The phases of a request -/

namespace WrSystem

variable {W : Nat} {s : WrSystem} {i : WrIn}

/-- Bytes of the request in memory requests completed before. -/
def base (s : WrSystem) : Nat := s.buf.base s.job.req

/-- The tile has the header of the request and as many of its lines as were sent. -/
structure Receives (m : WrMemNoc) (t : WrTile) : Prop where
  state : m.state = .sendWrPayload
  msgLen : t.msgLen = m.flitsToSend
  addr : t.addr = m.reqEntry.memReqAddr
  dataSize : t.dataSize = m.reqEntry.memReqSize
  count : t.count = m.flitsSent
  busy : t.busy = true

/-- A memory request of which `sent` bytes are gone. -/
structure InFlight (W : Nat) (b : WrCircBuf) (m : WrMemNoc) (t : WrTile) (sent : Nat) : Prop where
  entry : m.reqEntry = b.memReq W
  len : m.flitsToSend = (b.reqSize W + 63) / 64
  flits : sent = 64 * m.flitsSent
  lt : sent < b.reqSize W
  left : b.wrBytesRem = b.reqSize W - sent
  ctl : m.state = .sendWrHdr ∧ sent = 0 ∧ t.busy = false ∨ Receives m t

/-- Before a memory request is made. A line is kept from the first one if it ended inside it. -/
structure Making (W : Nat) (s : WrSystem) : Prop where
  state : s.buf.state = .makeReq
  noc : s.noc.state = .ready
  tile : s.tile.busy = false
  serves : s.buf.Serves W s.job.req
  filled : Filled W s.job s.tile.mem s.base
  lines : s.job.lines.length = (s.base + 63) / 64
  save : s.base % 64 ≠ 0 → s.buf.saveLine = s.job.lines.getD (s.base / 64) 0
  memReqs : s.job.memReqs = if s.base = 0 then 0 else 1

/-- Waiting for the line to save, which the request starts with. -/
structure Buffering (W : Nat) (s : WrSystem) : Prop where
  state : s.buf.state = .bufData
  serves : s.buf.Serves W s.job.req
  flight : InFlight W s.buf s.noc s.tile 0
  filled : Filled W s.job s.tile.mem s.base
  aligned : s.base % 64 = 0
  lines : s.job.lines.length = s.base / 64
  memReqs : s.job.memReqs = if s.base = 0 then 1 else 2

/-- The line the position is in is saved. -/
structure Sending (W : Nat) (s : WrSystem) (sent : Nat) : Prop where
  state : s.buf.state = .sendData
  serves : s.buf.Serves W s.job.req
  flight : InFlight W s.buf s.noc s.tile sent
  filled : Filled W s.job s.tile.mem (s.base + sent)
  lines : s.job.lines.length = (s.base + sent) / 64 + 1
  save : s.buf.saveLine = s.job.lines.getD ((s.base + sent) / 64) 0
  memReqs : s.job.memReqs = if s.base = 0 then 1 else 2

/-- All bytes of the memory request are stored. -/
structure Waiting (W : Nat) (s : WrSystem) : Prop where
  state : s.buf.state = .waitReq
  serves : s.buf.Serves W s.job.req
  ctl : s.noc.state = .waitWrResp ∧ s.tile.owesAck = true ∨
    s.noc.state = .outputWrDone ∧ s.tile.busy = false
  filled : Filled W s.job s.tile.mem (s.base + s.buf.reqSize W)
  lines : s.job.lines.length = (s.base + s.buf.reqSize W + 63) / 64
  left : s.buf.wrBytesRem % 64 = s.buf.reqSize W % 64
  save : s.base = 0 → s.buf.reqSize W % 64 ≠ 0 →
    s.buf.saveLine = s.job.lines.getD (s.buf.reqSize W / 64) 0
  memReqs : s.job.memReqs = if s.base = 0 then 1 else 2

inductive Phase (W : Nat) (s : WrSystem) : Prop
  | idle (hb : s.buf.state = .ready) (hn : s.noc.state = .ready) (ht : s.tile.busy = false)
  | making (h : s.Making W)
  | buffering (h : s.Buffering W)
  | sending (sent : Nat) (h : s.Sending W sent)
  | waiting (h : s.Waiting W)

/-- An upper bound on the favourable cycles still needed: eight for each byte left cover those
of each line and of each memory request. -/
def work (W : Nat) (s : WrSystem) : Nat :=
  match s.buf.state with
  | .ready => 0
  | .makeReq => 8 * s.buf.currWrReqRem + 5
  | .bufData => 8 * s.buf.currWrReqRem + (if s.noc.state = .sendWrHdr then 4 else 3)
  | .sendData =>
    8 * (s.buf.currWrReqRem + s.buf.wrBytesRem - s.buf.reqSize W) +
      (if s.noc.state = .sendWrHdr then 3 else 2)
  | .waitReq =>
    8 * (s.buf.currWrReqRem - s.buf.reqSize W) + (if s.noc.state = .waitWrResp then 7 else 6)

/-- What one cycle does to the phase and to the work left. -/
structure Advances (W : Nat) (s : WrSystem) (i : WrIn) : Prop where
  phase : (s.cycle W i).Phase W
  work : s.completes W i = true ∨
    (s.cycle W i).work W + (if s.smooth i then 1 else 0) ≤ s.work W

theorem resp_none (hok : s.Allowed W i) (ht : s.tile.owesAck = false) : i.resp = none := by
  cases hr : i.resp with
  | none => rfl
  | some t =>
    obtain ⟨-, hn⟩ := hok.2 t hr
    rw [ht] at hn
    cases hn

theorem not_owes_of_not_busy (h : s.tile.busy = false) : s.tile.owesAck = false := by
  simp [WrTile.owesAck, h]

theorem reqSize_le (hW : W < 28) (h : s.buf.Serves W s.job.req) : s.buf.reqSize W ≤ 2 ^ 27 := by
  have hb := h.base_add_reqSize
  have hz := h.size
  have hp : 2 ^ W ≤ 2 ^ 27 := Nat.pow_le_pow_right (by decide) (by omega)
  omega

theorem unused_iff (h : s.buf.Serves W s.job.req) :
    s.buf.saveRegHasUnused = true ↔ s.base % 64 ≠ 0 := by
  have hs := h.shift
  simp only [WrCircBuf.saveRegHasUnused, bne_iff_ne, base]
  omega

theorem Making.cycle_eq (h : s.Making W) (hok : s.Allowed W i) :
    s.cycle W i =
      { buf := { s.buf with
          state := if s.buf.saveRegHasUnused then .sendData else .bufData
          wrBytesRem := s.buf.reqSize W }
        noc := ⟨.sendWrHdr, s.buf.memReq W, msgFlits (s.buf.reqSize W), 0⟩
        tile := s.tile
        job := { s.job with memReqs := s.job.memReqs + 1 }
        finished := s.finished } := by
  have hresp := resp_none hok (not_owes_of_not_busy h.tile)
  simp [cycle, WrCircBuf.step, h.state, bufIn, WrMemNoc.reqRdy, h.noc, WrCircBuf.reqSize,
    WrMemNoc.step, memIn, WrCircBuf.memReqVal, tileStep, hresp, flit, WrMemNoc.nocReq, jobStep,
    takesLine, WrCircBuf.srcReqDataRdy, completes, WrCircBuf.srcDone]

theorem Making.advances (hW : W < 28) (h : s.Making W) (hok : s.Allowed W i) :
    s.Advances W i := by
  have hlen := msgFlits_eq (reqSize_le hW h.serves)
  have hserves : ∀ st n, WrCircBuf.Serves W { s.buf with state := st, wrBytesRem := n } s.job.req :=
    fun _ _ => ⟨h.serves.ptr, h.serves.size, h.serves.flowid, h.serves.rem, h.serves.half,
      h.serves.shift⟩
  have hreqs : s.job.memReqs + 1 = if s.base = 0 then 1 else 2 := by
    rw [h.memReqs]
    split <;> rfl
  have hwork : s.work W = 8 * s.buf.currWrReqRem + 5 := by simp only [work, h.state]
  have hc := h.cycle_eq hok
  by_cases hu : s.base % 64 = 0
  · have hf : s.buf.saveRegHasUnused = false := by
      rw [Bool.eq_false_iff, ne_eq, unused_iff h.serves]
      exact not_not_intro hu
    rw [hf, if_neg (by decide)] at hc
    have hl : s.job.lines.length = s.base / 64 := by
      rw [h.lines]
      omega
    refine ⟨?_, .inr ?_⟩
    · rw [hc]
      exact .buffering ⟨rfl, hserves _ _, ⟨rfl, hlen, rfl, h.serves.reqSize_pos, rfl,
        .inl ⟨rfl, rfl, h.tile⟩⟩, h.filled.memReqs _, hu, hl, hreqs⟩
    · rw [hc, hwork]
      show 8 * s.buf.currWrReqRem + 4 + _ ≤ _
      split <;> omega
  · rw [(unused_iff h.serves).mpr hu, if_pos rfl] at hc
    have hl : s.job.lines.length = (s.base + 0) / 64 + 1 := by
      rw [h.lines]
      omega
    refine ⟨?_, .inr ?_⟩
    · rw [hc]
      exact .sending 0 ⟨rfl, hserves _ _, ⟨rfl, hlen, rfl, h.serves.reqSize_pos, rfl,
        .inl ⟨rfl, rfl, h.tile⟩⟩, h.filled.memReqs _, hl, h.save hu, hreqs⟩
    · rw [hc, hwork]
      show 8 * (s.buf.currWrReqRem + s.buf.reqSize W - s.buf.reqSize W) + 3 + _ ≤ _
      split <;> omega

theorem InFlight.not_owes {b : WrCircBuf} {m : WrMemNoc} {t : WrTile} {sent : Nat}
    (h : InFlight W b m t sent) : t.owesAck = false := by
  rcases h.ctl with ⟨-, -, hb⟩ | hr
  · simp [WrTile.owesAck, hb]
  · have hne : t.count ≠ t.msgLen := by
      have hl := h.len
      have hf := h.flits
      have hlt := h.lt
      rw [hr.count, hr.msgLen]
      omega
    simp [WrTile.owesAck, hne]

/-- A cycle without a data flit at most sends the header. -/
theorem InFlight.hold {sent : Nat} (h : InFlight W s.buf s.noc s.tile sent)
    (hok : s.Allowed W i)
    (hm : s.noc.state = .sendWrPayload → (i.nocRdy && s.buf.memReqDataVal i.dataVal) = false) :
    InFlight W s.buf (s.cycle W i).noc (s.cycle W i).tile sent ∧
      (s.cycle W i).tile.mem = s.tile.mem ∧
      ((s.cycle W i).noc.state = .sendWrHdr → s.noc.state = .sendWrHdr ∧ i.nocRdy = false) := by
  have hresp := resp_none hok h.not_owes
  rcases h.ctl with ⟨hs, h0, hb⟩ | hr
  · cases hrdy : i.nocRdy with
    | false =>
      have hn : (s.cycle W i).noc = s.noc := by simp [cycle, WrMemNoc.step, hs, memIn, hrdy]
      have ht : (s.cycle W i).tile = s.tile := by simp [cycle, tileStep, flit, hrdy, hresp]
      rw [hn, ht]
      exact ⟨h, rfl, fun hs => ⟨hs, rfl⟩⟩
    | true =>
      have hn : (s.cycle W i).noc = { s.noc with state := .sendWrPayload } := by
        simp [cycle, WrMemNoc.step, hs, memIn, hrdy]
      have ht : (s.cycle W i).tile = s.tile.take (.hdr s.noc.flitsToSend
          s.noc.reqEntry.memReqAddr s.noc.reqEntry.memReqSize) := by
        simp [cycle, tileStep, flit, hrdy, hresp, WrMemNoc.nocReq, hs]
      have hz : s.noc.flitsSent = 0 := by
        have hf := h.flits
        omega
      rw [hn, ht]
      exact ⟨⟨h.entry, h.len, h.flits, h.lt, h.left, .inr ⟨rfl, rfl, rfl, rfl, hz.symm, rfl⟩⟩, rfl,
        (fun h => by cases h)⟩
  · have hno := hm hr.state
    have hn : (s.cycle W i).noc = s.noc := by simp [cycle, WrMemNoc.step, hr.state, memIn, hno]
    have ht : (s.cycle W i).tile = s.tile := by
      cases hrdy : i.nocRdy <;> simp_all [cycle, tileStep, flit, WrMemNoc.nocReq, hr.state, memIn]
    rw [hn, ht]
    refine ⟨h, rfl, fun hs => ?_⟩
    rw [hr.state] at hs
    cases hs

theorem Buffering.advances (h : s.Buffering W) (hok : s.Allowed W i) : s.Advances W i := by
  obtain ⟨hfl, hmem, hst⟩ := h.flight.hold (i := i) hok fun _ => by
    simp [WrCircBuf.memReqDataVal, h.state]
  have hwork : s.work W = 8 * s.buf.currWrReqRem + (if s.noc.state = .sendWrHdr then 4 else 3) := by
    simp only [work, h.state]
  cases hd : i.dataVal with
  | false =>
    have hb : (s.cycle W i).buf = s.buf := by simp [cycle, WrCircBuf.step, h.state, bufIn, hd]
    have hj : (s.cycle W i).job = s.job := by
      simp [cycle, jobStep, h.state, takesLine, hd, WrCircBuf.memReqVal]
    have hsm : s.smooth i = false := by simp [smooth, hd]
    refine ⟨.buffering ⟨?_, ?_, ?_, ?_, ?_, ?_, ?_⟩, .inr ?_⟩
    · rw [hb, h.state]
    · rw [hb, hj]
      exact h.serves
    · rw [hb]
      exact hfl
    · rw [hmem, hj, base, hb, hj]
      exact h.filled
    · rw [base, hb, hj]
      exact h.aligned
    · rw [base, hb, hj]
      exact h.lines
    · rw [base, hb, hj]
      exact h.memReqs
    · have hw : (s.cycle W i).work W = 8 * s.buf.currWrReqRem +
          (if (s.cycle W i).noc.state = .sendWrHdr then 4 else 3) := by
        simp only [work, hb, h.state]
      rw [hw, hwork, hsm]
      simp only [Bool.false_eq_true, if_false, Nat.add_zero]
      split
      · rename_i hs
        rw [if_pos (hst hs).1]
      · split <;> omega
  | true =>
    have hb : (s.cycle W i).buf = { s.buf with state := .sendData, saveLine := i.data } := by
      simp [cycle, WrCircBuf.step, h.state, bufIn, hd]
    have hj : (s.cycle W i).job = { s.job with lines := s.job.lines ++ [i.data] } := by
      simp [cycle, jobStep, h.state, takesLine, hd, WrCircBuf.memReqVal, WrCircBuf.srcReqDataRdy]
    have hbase : (s.cycle W i).base = s.base := by rw [base, hb, hj]; rfl
    have hfilled : Filled W (s.cycle W i).job (s.cycle W i).tile.mem s.base := by
      rw [hmem, hj]
      refine h.filled.addLine ?_ _ _
      have hl := h.lines
      have ha := h.aligned
      omega
    refine ⟨.sending 0 ⟨?_, ?_, ?_, ?_, ?_, ?_, ?_⟩, .inr ?_⟩
    · rw [hb]
    · rw [hb, hj]
      exact ⟨h.serves.ptr, h.serves.size, h.serves.flowid, h.serves.rem, h.serves.half,
        h.serves.shift⟩
    · rw [hb]
      exact ⟨hfl.entry, hfl.len, hfl.flits, hfl.lt, hfl.left, hfl.ctl⟩
    · rw [hbase]
      exact hfilled
    · rw [hbase, hj]
      show (s.job.lines ++ [i.data]).length = _
      rw [List.length_append, List.length_singleton, h.lines]
      rfl
    · rw [hbase, hb, hj]
      show i.data = (s.job.lines ++ [i.data]).getD (s.base / 64) 0
      rw [← h.lines]
      simp
    · rw [hbase, hj]
      exact h.memReqs
    · have hleft : s.buf.wrBytesRem = s.buf.reqSize W := h.flight.left
      have hw : (s.cycle W i).work W = 8 * s.buf.currWrReqRem +
          (if (s.cycle W i).noc.state = .sendWrHdr then 3 else 2) := by
        simp only [work, hb]
        show 8 * (s.buf.currWrReqRem + s.buf.wrBytesRem - s.buf.reqSize W) + _ = _
        rw [hleft, Nat.add_sub_cancel]
      rw [hw, hwork]
      split
      · rename_i hs
        rw [if_pos (hst hs).1]
        split <;> omega
      · split <;> split <;> omega

/-- A data flit goes out. -/
def moves (s : WrSystem) (i : WrIn) : Bool :=
  s.buf.memReqDataVal i.dataVal && s.noc.reqDataRdy i.nocRdy

theorem Sending.work_eq {sent : Nat} (h : s.Sending W sent) :
    s.work W = 8 * (s.buf.currWrReqRem - sent) +
      (if s.noc.state = .sendWrHdr then 3 else 2) := by
  have hl := h.flight.left
  have hlt := h.flight.lt
  simp only [work, h.state]
  rw [hl]
  congr 2
  omega

theorem Sending.advances_hold {sent : Nat} (h : s.Sending W sent) (hok : s.Allowed W i)
    (hm : s.moves i = false) : s.Advances W i := by
  obtain ⟨hfl, hmem, hst⟩ := h.flight.hold (i := i) hok fun hp => by
    simpa [moves, WrMemNoc.reqDataRdy, hp, Bool.and_comm] using hm
  have hb : (s.cycle W i).buf = s.buf := by
    simp only [moves] at hm
    simp [cycle, WrCircBuf.step, h.state, bufIn, hm]
  have hj : (s.cycle W i).job = s.job := by
    have ht : s.takesLine i = false := by
      cases hd : i.dataVal
      · simp [takesLine, hd]
      · cases hr : s.noc.reqDataRdy i.nocRdy
        · simp [takesLine, bufIn, WrCircBuf.srcReqDataRdy, h.state, hr]
        · simp [moves, WrCircBuf.memReqDataVal, h.state, hd, hr] at hm
    simp [cycle, jobStep, h.state, ht, WrCircBuf.memReqVal]
  have hbase : (s.cycle W i).base = s.base := by rw [base, hb, hj]; rfl
  have hnext : (s.cycle W i).Sending W sent := by
    refine ⟨?_, ?_, ?_, ?_, ?_, ?_, ?_⟩
    · rw [hb, h.state]
    · rw [hb, hj]
      exact h.serves
    · rw [hb]
      exact hfl
    · rw [hmem, hj, hbase]
      exact h.filled
    · rw [hj, hbase]
      exact h.lines
    · rw [hb, hj, hbase]
      exact h.save
    · rw [hj, hbase]
      exact h.memReqs
  refine ⟨.sending sent hnext, .inr ?_⟩
  -- a favourable cycle without a data flit sends the header
  have hsm : s.smooth i = true → s.noc.state = .sendWrHdr ∧ i.nocRdy = true := by
    intro hs
    simp only [smooth, Bool.and_eq_true] at hs
    obtain ⟨⟨⟨hd, -⟩, hr⟩, -⟩ := hs
    refine ⟨?_, hr⟩
    rcases h.flight.ctl with ⟨hs, -, -⟩ | hrec
    · exact hs
    · simp [moves, WrCircBuf.memReqDataVal, h.state, hd, WrMemNoc.reqDataRdy, hrec.state, hr] at hm
  rw [h.work_eq, hnext.work_eq, hb]
  by_cases hs : s.smooth i = true
  · obtain ⟨hh, hr⟩ := hsm hs
    rw [if_pos hs, if_pos hh, if_neg]
    intro hc
    rw [(hst hc).2] at hr
    cases hr
  · rw [if_neg hs]
    split
    · rename_i hc
      rw [if_pos (hst hc).1]
    · split <;> omega

/-- The line on the bus goes with the data flit unless the saved line holds the rest. -/
def needsLine (s : WrSystem) : Bool := !s.buf.lastWr || s.buf.needInput

/-- What holds while a data flit goes out. -/
theorem Sending.of_moves {sent : Nat} (h : s.Sending W sent) (hm : s.moves i = true) :
    Receives s.noc s.tile ∧ i.nocRdy = true ∧ s.buf.memReqDataVal i.dataVal = true ∧
      s.takesLine i = s.needsLine := by
  simp only [moves, WrMemNoc.reqDataRdy, Bool.and_eq_true, beq_iff_eq] at hm
  obtain ⟨hv, hs, hr⟩ := hm
  have hrec : Receives s.noc s.tile := by
    rcases h.flight.ctl with ⟨hh, -, -⟩ | hrec
    · rw [hs] at hh
      cases hh
    · exact hrec
  refine ⟨hrec, hr, hv, ?_⟩
  simp only [WrCircBuf.memReqDataVal, h.state, beq_self_eq_true, Bool.true_and] at hv
  simp only [takesLine, needsLine, WrCircBuf.srcReqDataRdy, h.state, bufIn, WrMemNoc.reqDataRdy, hs,
    hr, beq_self_eq_true, Bool.and_self, Bool.true_and]
  cases hl : s.buf.lastWr <;> cases hn : s.buf.needInput <;> simp_all

theorem Sending.cycle_job {sent : Nat} (h : s.Sending W sent) (hm : s.moves i = true) :
    (s.cycle W i).job = { s.job with
      lines := if s.needsLine then s.job.lines ++ [i.data] else s.job.lines } := by
  obtain ⟨-, -, -, ht⟩ := h.of_moves hm
  simp [cycle, jobStep, h.state, ht, WrCircBuf.memReqVal]

theorem Sending.cycle_tile {sent : Nat} (h : s.Sending W sent) (hok : s.Allowed W i)
    (hm : s.moves i = true) :
    (s.cycle W i).tile = s.tile.take (.payload (s.buf.memReqData i.data)) := by
  obtain ⟨hrec, hr, hv, -⟩ := h.of_moves hm
  simp [cycle, tileStep, flit, hr, WrMemNoc.nocReq, hrec.state, memIn, hv,
    resp_none hok h.flight.not_owes]

theorem Sending.pos_eq {sent : Nat} (h : s.Sending W sent) :
    s.base + sent = 64 * ((s.base + sent) / 64) + s.base % 64 := by
  have hf := h.flight.flits
  omega

/-- The bytes of a data flit are the next ones of the input. -/
theorem Sending.byte_eq {sent : Nat} (h : s.Sending W sent) (hm : s.moves i = true) {k : Nat}
    (hk : k < min 64 s.buf.wrBytesRem) :
    byte (s.buf.memReqData i.data) k =
      streamByte (s.cycle W i).job.lines (s.base + sent + k) := by
  have hpos := h.pos_eq
  have hlt : s.base % 64 ≤ 64 := (Nat.mod_lt _ (by decide)).le
  have hshift : s.buf.saveLineShift = 8 * (s.base % 64) := h.serves.shift
  rw [h.cycle_job hm]
  show byte (upperShl s.buf.saveLine i.data s.buf.saveLineShift) k = streamByte (ite _ _ _) _
  rw [hshift]
  split
  · -- the next line of the input is on the bus
    have hsave : s.buf.saveLine = (s.job.lines ++ [i.data]).getD ((s.base + sent) / 64) 0 := by
      rw [h.save, List.getD_append]
      rw [h.lines]
      omega
    have hdata : i.data = (s.job.lines ++ [i.data]).getD ((s.base + sent) / 64 + 1) 0 := by
      rw [← h.lines]
      simp
    have hb := byte_upperShl_stream (s.job.lines ++ [i.data]) (m := (s.base + sent) / 64) hlt
      (by omega : k < 64)
    rw [← hsave, ← hdata, ← hpos] at hb
    exact hb
  · -- the bytes left are all in the saved line
    rename_i hn
    have hin : s.base % 64 + k < 64 := by
      simp only [needsLine, WrCircBuf.needInput, WrCircBuf.saveRegHasUnused, WrCircBuf.lastWr,
        WrCircBuf.unusedInSaveReg, hshift] at hn
      simp at hn
      omega
    rw [byte_upperShl _ _ hlt (by omega), if_pos hin, h.save]
    unfold streamByte
    congr 1
    · congr 1
      omega
    · omega

theorem Sending.filled_next {sent : Nat} (h : s.Sending W sent) (hok : s.Allowed W i)
    (hm : s.moves i = true) :
    Filled W (s.cycle W i).job (s.cycle W i).tile.mem (s.base + sent + min 64 s.buf.wrBytesRem) := by
  obtain ⟨hrec, -⟩ := h.of_moves hm
  have hfl := h.flight
  have hleft := hfl.left
  have hflits := hfl.flits
  have hlt := hfl.lt
  have hsz := h.serves.base_add_reqSize
  have hW := h.serves.size
  have hbase : s.base = s.buf.base s.job.req := rfl
  have hq : s.noc.reqEntry.memReqSize = s.buf.reqSize W := by rw [hfl.entry]; rfl
  have hbytes : ∀ k < min 64 s.buf.wrBytesRem, byte (s.buf.memReqData i.data) k =
      streamByte (s.cycle W i).job.lines (s.base + sent + k) := fun k hk => h.byte_eq hm hk
  have hold : Filled W (s.cycle W i).job s.tile.mem (s.base + sent) := by
    rw [h.cycle_job hm]
    split
    · refine h.filled.addLine ?_ _ _
      rw [h.lines]
      omega
    · exact h.filled
  have hreq : (s.cycle W i).job.req = s.job.req := by rw [h.cycle_job hm]
  rw [h.cycle_tile hok hm]
  refine hold.storeLine ?_ (Nat.min_le_left _ _) ?_ ?_ ?_ hbytes
  · rw [hreq]
    exact h.serves.ptr
  · rw [hrec.count, hrec.dataSize, hq]
    omega
  · omega
  · intro k hk
    rw [hrec.addr, hrec.count, hfl.entry, hreq, ← hflits, Nat.add_assoc, h.serves.addr (by omega),
      hbase, Nat.add_assoc]

theorem Sending.cycle_noc (hW : W < 28) {sent : Nat} (h : s.Sending W sent)
    (hm : s.moves i = true) :
    (s.cycle W i).noc = { s.noc with
      flitsSent := s.noc.flitsSent + 1
      state := if s.buf.lastWr then .waitWrResp else .sendWrPayload } := by
  obtain ⟨hrec, hr, hv, -⟩ := h.of_moves hm
  have hlen := h.flight.len
  have hflits := h.flight.flits
  have hlt := h.flight.lt
  have hleft := h.flight.left
  have hle := reqSize_le hW h.serves
  have hs : (s.noc.flitsSent + 1) % 2 ^ 22 = s.noc.flitsSent + 1 := by omega
  have hlast : s.noc.flitsSent = (s.noc.flitsToSend + (2 ^ 22 - 1)) % 2 ^ 22 ↔
      s.buf.lastWr = true := by
    simp only [WrCircBuf.lastWr, decide_eq_true_eq]
    omega
  simp only [cycle, WrMemNoc.step, hrec.state, memIn, hr, hv, Bool.and_self, if_true, hs, hlast]

theorem Sending.serves_with {sent : Nat} (h : s.Sending W sent) (st : WrBufState) (x : Line)
    (n : Nat) : WrCircBuf.Serves W { s.buf with state := st, saveLine := x, wrBytesRem := n }
      s.job.req :=
  ⟨h.serves.ptr, h.serves.size, h.serves.flowid, h.serves.rem, h.serves.half, h.serves.shift⟩

/-- A line that is not the last one of the memory request goes out. -/
theorem Sending.buf_middle {sent : Nat} (h : s.Sending W sent) (hm : s.moves i = true)
    (hl : s.buf.lastWr = false) : (s.cycle W i).buf =
      { s.buf with saveLine := i.data, wrBytesRem := s.buf.wrBytesRem - 64 } := by
  obtain ⟨-, -, hv, -⟩ := h.of_moves hm
  have hrdy : (s.bufIn i).memDataRdy = true := (Bool.and_eq_true _ _ ▸ hm).2
  have hdata : (s.bufIn i).data = i.data := rfl
  have hval : (s.bufIn i).dataVal = i.dataVal := rfl
  simp only [cycle, WrCircBuf.step, h.state, hrdy, hval, hv, hdata, hl, Bool.and_self, if_true]
  rfl

theorem Sending.sending_next (hW : W < 28) {sent : Nat} (h : s.Sending W sent)
    (hok : s.Allowed W i) (hm : s.moves i = true) (hl : s.buf.lastWr = false) :
    (s.cycle W i).Sending W (sent + 64) := by
  obtain ⟨hrec, -, hv, -⟩ := h.of_moves hm
  have hfilled := h.filled_next hok hm
  have hnoc := h.cycle_noc hW hm
  have htile := h.cycle_tile hok hm
  have hjob := h.cycle_job hm
  have hb := h.buf_middle hm hl
  have hleft := h.flight.left
  have hlt := h.flight.lt
  have hflits := h.flight.flits
  have h64 : 64 < s.buf.wrBytesRem := by simpa [WrCircBuf.lastWr] using hl
  have hn : s.needsLine = true := by simp [needsLine, hl]
  rw [hn, if_pos rfl] at hjob
  rw [hl, if_neg Bool.false_ne_true] at hnoc
  rw [Nat.min_eq_left h64.le] at hfilled
  have hbase : (s.cycle W i).base = s.base := by rw [base, hb, hjob]; rfl
  refine ⟨?_, ?_, ?_, ?_, ?_, ?_, ?_⟩
  · rw [hb]
    exact h.state
  · rw [hb, hjob]
    exact h.serves_with s.buf.state _ _
  · rw [hb, hnoc, htile]
    refine ⟨h.flight.entry, h.flight.len, ?_, ?_, ?_, .inr ⟨rfl, hrec.msgLen, hrec.addr,
      hrec.dataSize, congrArg (· + 1) hrec.count, hrec.busy⟩⟩
    · show sent + 64 = 64 * (s.noc.flitsSent + 1)
      omega
    · show sent + 64 < s.buf.reqSize W
      omega
    · show s.buf.wrBytesRem - 64 = s.buf.reqSize W - (sent + 64)
      omega
  · rw [hbase]
    exact hfilled
  · rw [hbase, hjob]
    show (s.job.lines ++ [i.data]).length = _
    rw [List.length_append, List.length_singleton, h.lines]
    omega
  · rw [hbase, hb, hjob]
    show i.data = (s.job.lines ++ [i.data]).getD _ 0
    have he : (s.base + (sent + 64)) / 64 = s.job.lines.length := by
      rw [h.lines]
      omega
    rw [he]
    simp
  · rw [hbase, hjob]
    exact h.memReqs

/-- The last line of the memory request goes out. -/
theorem Sending.buf_last {sent : Nat} (h : s.Sending W sent) (hm : s.moves i = true)
    (hl : s.buf.lastWr = true) : (s.cycle W i).buf = { s.buf with state := .waitReq } := by
  obtain ⟨-, -, hv, -⟩ := h.of_moves hm
  have hrdy : (s.bufIn i).memDataRdy = true := (Bool.and_eq_true _ _ ▸ hm).2
  have hval : (s.bufIn i).dataVal = i.dataVal := rfl
  simp only [cycle, WrCircBuf.step, h.state, hrdy, hval, hv, hl, Bool.and_self, if_true]

/-- It needs another line of the source only if the saved bytes do not reach. -/
theorem Sending.needsLine_last {sent : Nat} (h : s.Sending W sent) (hl : s.buf.lastWr = true) :
    s.needsLine = true ↔ 64 < s.base % 64 + s.buf.wrBytesRem := by
  have h64 : s.buf.wrBytesRem ≤ 64 := by simpa [WrCircBuf.lastWr] using hl
  have hleft := h.flight.left
  have hlt := h.flight.lt
  have hshift : s.buf.saveLineShift = 8 * (s.base % 64) := h.serves.shift
  simp only [needsLine, hl, WrCircBuf.needInput, WrCircBuf.saveRegHasUnused,
    WrCircBuf.unusedInSaveReg, hshift, Bool.not_true, Bool.false_or, Bool.true_and,
    Bool.and_eq_true, bne_iff_ne, decide_eq_true_eq]
  omega

theorem Sending.waiting_next (hW : W < 28) {sent : Nat} (h : s.Sending W sent)
    (hok : s.Allowed W i) (hm : s.moves i = true) (hl : s.buf.lastWr = true) :
    (s.cycle W i).Waiting W := by
  obtain ⟨hrec, -, -, -⟩ := h.of_moves hm
  have hfilled := h.filled_next hok hm
  have hnoc := h.cycle_noc hW hm
  have htile := h.cycle_tile hok hm
  have hjob := h.cycle_job hm
  have hb := h.buf_last hm hl
  have hneed := h.needsLine_last hl
  have hleft := h.flight.left
  have hlt := h.flight.lt
  have hflits := h.flight.flits
  have hlen := h.flight.len
  have h64 : s.buf.wrBytesRem ≤ 64 := by simpa [WrCircBuf.lastWr] using hl
  have hpos : s.base + sent + s.buf.wrBytesRem = s.base + s.buf.reqSize W := by omega
  rw [hl, if_pos rfl] at hnoc
  rw [Nat.min_eq_right h64, hpos] at hfilled
  have hbase : (s.cycle W i).base = s.base := by rw [base, hb, hjob]; rfl
  refine ⟨?_, ?_, .inl ⟨?_, ?_⟩, ?_, ?_, ?_, ?_, ?_⟩
  · rw [hb]
  · rw [hb, hjob]
    exact h.serves_with .waitReq s.buf.saveLine s.buf.wrBytesRem
  · rw [hnoc]
  · rw [htile]
    have hc : s.tile.count + 1 = s.tile.msgLen := by
      rw [hrec.count, hrec.msgLen]
      omega
    simp [WrTile.owesAck, WrTile.take, hrec.busy, hc]
  · rw [hbase, hb]
    exact hfilled
  · rw [hbase, hb, hjob]
    show (if _ then _ else _ : List Line).length = (s.base + s.buf.reqSize W + 63) / 64
    split
    · rename_i hn
      rw [hneed] at hn
      rw [List.length_append, List.length_singleton, h.lines]
      omega
    · rename_i hn
      rw [hneed] at hn
      rw [h.lines]
      omega
  · rw [hb]
    show s.buf.wrBytesRem % 64 = s.buf.reqSize W % 64
    omega
  · rw [hbase, hb, hjob]
    intro h0 hq
    have hq : s.buf.reqSize W % 64 ≠ 0 := hq
    have hn : ¬ s.needsLine = true := by
      rw [hneed]
      omega
    show s.buf.saveLine = (if _ then _ else _ : List Line).getD (s.buf.reqSize W / 64) 0
    rw [if_neg hn, h.save]
    congr 1
    omega
  · rw [hbase, hjob]
    exact h.memReqs

theorem Sending.advances_move (hW : W < 28) {sent : Nat} (h : s.Sending W sent)
    (hok : s.Allowed W i) (hm : s.moves i = true) : s.Advances W i := by
  obtain ⟨hrec, -, -, -⟩ := h.of_moves hm
  have hnoc := h.cycle_noc hW hm
  have hlt := h.flight.lt
  have hrem : s.buf.reqSize W ≤ s.buf.currWrReqRem := by
    rw [WrCircBuf.reqSize_eq]
    omega
  cases hl : s.buf.lastWr with
  | false =>
    have hnext := h.sending_next hW hok hm hl
    have hlt' := hnext.flight.lt
    refine ⟨.sending _ hnext, .inr ?_⟩
    rw [h.work_eq, hnext.work_eq, h.buf_middle hm hl, hnoc, hl, hrec.state]
    show 8 * (s.buf.currWrReqRem - (sent + 64)) + 2 + _ ≤ 8 * (s.buf.currWrReqRem - sent) + 2
    split <;> omega
  | true =>
    refine ⟨.waiting (h.waiting_next hW hok hm hl), .inr ?_⟩
    rw [h.work_eq, hrec.state]
    simp only [work, h.buf_last hm hl, hnoc, hl]
    show 8 * (s.buf.currWrReqRem - s.buf.reqSize W) + 7 + _ ≤ 8 * (s.buf.currWrReqRem - sent) + 2
    split <;> omega

/-- The memory request is reported done. -/
def memDone (s : WrSystem) (i : WrIn) : Bool := s.noc.wrReqDone i.resp

theorem Waiting.resp (h : s.Waiting W) (hok : s.Allowed W i) :
    (s.noc.state = .waitWrResp ∧ i.resp = none ∧ s.tile.owesAck = true ∧ s.memDone i = false) ∨
      (s.noc.state = .waitWrResp ∧ i.resp = some .storeMemAck ∧ s.memDone i = true) ∨
      (s.noc.state = .outputWrDone ∧ i.resp = none ∧ s.tile.busy = false ∧ s.memDone i = true) := by
  rcases h.ctl with ⟨hs, ho⟩ | ⟨hs, hb⟩
  · cases hr : i.resp with
    | none => exact .inl ⟨hs, rfl, ho, by simp [memDone, WrMemNoc.wrReqDone, hs, hr]⟩
    | some t =>
      obtain ⟨rfl, -⟩ := hok.2 t hr
      exact .inr (.inl ⟨hs, rfl, by simp [memDone, WrMemNoc.wrReqDone, hs, hr]⟩)
  · have hr := resp_none hok (not_owes_of_not_busy hb)
    exact .inr (.inr ⟨hs, hr, hb, by simp [memDone, WrMemNoc.wrReqDone, hs]⟩)

theorem Waiting.cycle_noc (h : s.Waiting W) (hok : s.Allowed W i) :
    (s.cycle W i).noc = { s.noc with
      state := if s.memDone i then
          if s.buf.memDoneRdy W i.doneRdy then .ready else .outputWrDone
        else .waitWrResp } := by
  rcases h.resp hok with ⟨hs, hr, -, hd⟩ | ⟨hs, hr, hd⟩ | ⟨hs, hr, -, hd⟩
  · simp only [cycle, WrMemNoc.step, hs, memIn, hr, hd]
    exact congrArg (fun st => { s.noc with state := st }) hs
  · simp [cycle, WrMemNoc.step, hs, memIn, hr, hd]
  · cases hy : s.buf.memDoneRdy W i.doneRdy with
    | true => simp [cycle, WrMemNoc.step, hs, memIn, hd, hy]
    | false =>
      simp only [cycle, WrMemNoc.step, hs, memIn, hd, hy]
      exact congrArg (fun st => { s.noc with state := st }) hs

theorem Waiting.cycle_tile (h : s.Waiting W) (hok : s.Allowed W i) :
    (s.cycle W i).tile = { s.tile with busy := !s.memDone i && s.tile.busy } := by
  have hflit : s.flit W i = none := by
    have hc := h.ctl
    unfold flit WrMemNoc.nocReq
    rcases hc with ⟨hs, -⟩ | ⟨hs, -⟩ <;> simp [hs]
  rcases h.resp hok with ⟨-, hr, -, hd⟩ | ⟨-, hr, hd⟩ | ⟨-, hr, hb, hd⟩
  · simp [cycle, tileStep, hflit, hr, hd]
  · simp [cycle, tileStep, hflit, hr, hd]
  · simp [cycle, tileStep, hflit, hr, hd, ← hb]

theorem Waiting.cycle_job (h : s.Waiting W) : (s.cycle W i).job = s.job := by
  simp [cycle, jobStep, h.state, takesLine, WrCircBuf.srcReqDataRdy, WrCircBuf.memReqVal]

theorem Waiting.work_eq (h : s.Waiting W) : s.work W = 8 * (s.buf.currWrReqRem - s.buf.reqSize W) +
    (if s.noc.state = .waitWrResp then 7 else 6) := by
  simp only [work, h.state]

/-- The request is complete, and with it everything it was to do. -/
theorem Waiting.exact (h : s.Waiting W) (hs : s.buf.splitReq W = false) :
    s.job.Exact W s.tile.mem := by
  have hend := h.serves.of_not_split hs
  have hf := h.filled
  have hl := h.lines
  rw [base, hend] at hf hl
  refine ⟨hf, hl, ?_⟩
  rw [h.memReqs]
  split <;> decide

/-- The second memory request starts at the beginning of the ring with what is left of the line
saved. -/
theorem Waiting.second (h : s.Waiting W) (hs : s.buf.splitReq W = true) :
    WrCircBuf.Serves W { s.buf with
      state := .makeReq
      saveLineShift := s.buf.wrBytesRem * 8 % 2 ^ 9
      currWrReqRem := s.buf.currWrReqRem - s.buf.reqSize W
      currWrReqPtr := (s.buf.currWrReqPtr + s.buf.reqSize W) % 2 ^ W } s.job.req ∧
    s.job.req.size - (s.buf.currWrReqRem - s.buf.reqSize W) = s.buf.reqSize W := by
  obtain ⟨-, hrem, hptr, hq, hlt⟩ := h.serves.of_split hs
  have hp := h.serves.ptr
  have hl := h.left
  have hbase : s.job.req.size - (s.buf.currWrReqRem - s.buf.reqSize W) = s.buf.reqSize W := by omega
  refine ⟨⟨hp, h.serves.size, h.serves.flowid, ?_, .inr ⟨?_, ?_⟩, ?_⟩, hbase⟩
  · show 0 < s.buf.currWrReqRem - s.buf.reqSize W
    omega
  · show (s.buf.currWrReqPtr + s.buf.reqSize W) % 2 ^ W = 0
    rw [hptr, hq, Nat.add_sub_of_le hp.le, Nat.mod_self]
  · show s.buf.currWrReqRem - s.buf.reqSize W + (2 ^ W - s.job.req.wrPtr) = s.job.req.size
    omega
  · show s.buf.wrBytesRem * 8 % 2 ^ 9 =
      8 * ((s.job.req.size - (s.buf.currWrReqRem - s.buf.reqSize W)) % 64)
    rw [hbase]
    omega

/-- The second memory request of a wrapped write follows. -/
theorem Waiting.advances_split (h : s.Waiting W) (hok : s.Allowed W i) (hd : s.memDone i = true)
    (hr : s.buf.memDoneRdy W i.doneRdy = true) (hs : s.buf.splitReq W = true) :
    s.Advances W i := by
  have hnoc := h.cycle_noc hok
  have htile := h.cycle_tile hok
  have hd' : (s.bufIn i).memDone = true := hd
  have hr' : s.buf.memDoneRdy W (s.bufIn i).doneRdy = true := hr
  rw [if_pos hd, if_pos hr] at hnoc
  rw [hd] at htile
  have hjob := h.cycle_job (i := i)
  have hwork := h.work_eq
  obtain ⟨hserves, hbase⟩ := h.second hs
  obtain ⟨h0, -, -, -, -⟩ := h.serves.of_split hs
  have h0 : s.base = 0 := h0
  have hb : (s.cycle W i).buf = { s.buf with
      state := .makeReq
      saveLineShift := s.buf.wrBytesRem * 8 % 2 ^ 9
      currWrReqRem := s.buf.currWrReqRem - s.buf.reqSize W
      currWrReqPtr := (s.buf.currWrReqPtr + s.buf.reqSize W) % 2 ^ W } := by
    simp only [cycle, WrCircBuf.step, h.state, hd', hr', hs, Bool.and_self, if_true]
    rfl
  have hbase' : (s.cycle W i).base = s.buf.reqSize W := by
    rw [base, hb, hjob]
    exact hbase
  have hf := h.filled
  have hl := h.lines
  rw [h0, Nat.zero_add] at hf hl
  refine ⟨.making ⟨?_, ?_, ?_, ?_, ?_, ?_, ?_, ?_⟩, .inr ?_⟩
  · rw [hb]
  · rw [hnoc]
  · rw [htile]
    rfl
  · rw [hb, hjob]
    exact hserves
  · rw [hbase', htile, hjob]
    exact hf
  · rw [hbase', hjob]
    exact hl
  · rw [hbase', hb, hjob]
    exact h.save h0
  · have hpos := h.serves.reqSize_pos
    rw [hbase', hjob, h.memReqs, if_pos h0, if_neg (by omega)]
  · simp only [work, hb] at hwork ⊢
    rw [hwork]
    split <;> split <;> omega

/-- The write is done. -/
theorem Waiting.advances_done (h : s.Waiting W) (hok : s.Allowed W i) (hd : s.memDone i = true)
    (hr : s.buf.memDoneRdy W i.doneRdy = true) (hs : s.buf.splitReq W = false) :
    s.Advances W i := by
  have hnoc := h.cycle_noc hok
  have htile := h.cycle_tile hok
  have hd' : (s.bufIn i).memDone = true := hd
  have hr' : s.buf.memDoneRdy W (s.bufIn i).doneRdy = true := hr
  rw [if_pos hd, if_pos hr] at hnoc
  rw [hd] at htile
  have hb : (s.cycle W i).buf = { s.buf with state := .ready } := by
    simp only [cycle, WrCircBuf.step, h.state, hd', hr', hs, Bool.and_self, if_true]
    rfl
  have hdr : i.doneRdy = true := by simpa [WrCircBuf.memDoneRdy, h.state, hs] using hr
  refine ⟨.idle ?_ ?_ ?_, .inl ?_⟩
  · rw [hb]
  · rw [hnoc]
  · rw [htile]
    rfl
  · simp [completes, WrCircBuf.srcDone, h.state, hs, hd', hdr]

/-- The response is awaited, or nobody takes it. -/
theorem Waiting.advances_stay (h : s.Waiting W) (hok : s.Allowed W i)
    (hdn : ¬ (s.memDone i = true ∧ s.buf.memDoneRdy W i.doneRdy = true)) : s.Advances W i := by
  have hnoc := h.cycle_noc hok
  have htile := h.cycle_tile hok
  have hjob := h.cycle_job (i := i)
  have hwork := h.work_eq
  have hb : (s.cycle W i).buf = s.buf := by
    have hd' : ((s.bufIn i).memDone && s.buf.memDoneRdy W (s.bufIn i).doneRdy) = false := by
      rw [Bool.eq_false_iff, ne_eq, Bool.and_eq_true]
      exact hdn
    simp only [cycle, WrCircBuf.step, h.state, hd']
    rfl
  have hsm : s.smooth i = false := by
    rcases h.resp hok with ⟨-, hr, ho, -⟩ | ⟨-, -, hd⟩ | ⟨-, -, -, hd⟩
    · simp [smooth, hr, ho]
    all_goals
      have hr : ¬ s.buf.memDoneRdy W i.doneRdy = true := fun hr => hdn ⟨hd, hr⟩
      have hdr : i.doneRdy = false := by
        simp [WrCircBuf.memDoneRdy, h.state] at hr
        exact hr.2
      simp [smooth, hdr]
  have hbase : (s.cycle W i).base = s.base := by rw [base, hb, hjob]; rfl
  have hctl : (s.cycle W i).noc.state = .waitWrResp ∧ s.noc.state = .waitWrResp ∧
        (s.cycle W i).tile = s.tile ∨
      (s.cycle W i).noc.state = .outputWrDone ∧ (s.cycle W i).tile.busy = false := by
    rw [hnoc, htile]
    rcases h.resp hok with ⟨hs, -, -, hd⟩ | ⟨-, -, hd⟩ | ⟨-, -, -, hd⟩
    · refine .inl ⟨?_, hs, ?_⟩ <;> simp [hd]
    all_goals
      have hr : ¬ s.buf.memDoneRdy W i.doneRdy = true := fun hr => hdn ⟨hd, hr⟩
      exact .inr (by simp [hd, hr])
  have hnext : (s.cycle W i).Waiting W := by
    refine ⟨?_, ?_, ?_, ?_, ?_, ?_, ?_, ?_⟩
    · rw [hb, h.state]
    · rw [hb, hjob]
      exact h.serves
    · rcases hctl with ⟨hn, hs, ht⟩ | ho
      · rcases h.ctl with ⟨-, ho⟩ | ⟨hs', -⟩
        · rw [ht]
          exact .inl ⟨hn, ho⟩
        · rw [hs] at hs'
          cases hs'
      · exact .inr ho
    · rw [htile, hjob, hbase, hb]
      exact h.filled
    · rw [hjob, hbase, hb]
      exact h.lines
    · rw [hb]
      exact h.left
    · rw [hbase, hb, hjob]
      exact h.save
    · rw [hbase, hjob]
      exact h.memReqs
  refine ⟨.waiting hnext, .inr ?_⟩
  rw [hnext.work_eq, hwork, hb, hsm]
  simp only [Bool.false_eq_true, if_false, Nat.add_zero]
  rcases hctl with ⟨hn, hs, -⟩ | ⟨hn, -⟩
  · rw [if_pos hn, if_pos hs]
  · rw [if_neg (by rw [hn]; decide)]
    split <;> omega

theorem Waiting.advances (h : s.Waiting W) (hok : s.Allowed W i) : s.Advances W i := by
  by_cases hdn : s.memDone i = true ∧ s.buf.memDoneRdy W i.doneRdy = true
  · cases hs : s.buf.splitReq W with
    | true => exact h.advances_split hok hdn.1 hdn.2 hs
    | false => exact h.advances_done hok hdn.1 hdn.2 hs
  · exact h.advances_stay hok hdn

/-- An idle writer does nothing but take a request. -/
theorem phase_idle (hb : s.buf.state = .ready) (hn : s.noc.state = .ready)
    (ht : s.tile.busy = false) (hok : s.Allowed W i) : (s.cycle W i).Phase W := by
  have hresp := resp_none hok (not_owes_of_not_busy ht)
  have hnoc : (s.cycle W i).noc = s.noc := by
    simp [cycle, WrMemNoc.step, hn, memIn, WrCircBuf.memReqVal, hb]
  have htile : (s.cycle W i).tile = s.tile := by
    simp [cycle, tileStep, hresp, flit, WrMemNoc.nocReq, hn]
  cases hr : i.req with
  | none =>
    have hbuf : (s.cycle W i).buf = s.buf := by simp [cycle, WrCircBuf.step, hb, bufIn, hr]
    exact .idle (hbuf ▸ hb) (hnoc ▸ hn) (htile ▸ ht)
  | some r =>
    obtain ⟨hp, h0, hz⟩ := hok.1 r hr
    have hbuf : (s.cycle W i).buf = { s.buf with
        state := .makeReq
        reqFlowid := r.flowid
        currWrReqRem := r.size
        currWrReqPtr := r.wrPtr
        wrBytesRem := (s.buf.memReq W).memReqSize
        saveLineShift := 0 } := by
      simp [cycle, WrCircBuf.step, hb, bufIn, hr]
    have hjob : (s.cycle W i).job = ⟨r, s.tile.mem, [], 0⟩ := by
      simp [cycle, jobStep, hb, hr]
    have hbase : (s.cycle W i).base = 0 := by
      rw [base, hbuf, hjob]
      exact Nat.sub_self r.size
    refine .making ⟨?_, ?_, ?_, ?_, ?_, ?_, ?_, ?_⟩
    · rw [hbuf]
    · rw [hnoc, hn]
    · rw [htile, ht]
    · rw [hbuf, hjob]
      refine ⟨hp, hz, rfl, h0, .inl ⟨rfl, rfl⟩, ?_⟩
      show 0 = 8 * ((r.size - r.size) % 64)
      rw [Nat.sub_self]
    · rw [hbase, htile, hjob]
      exact .start r s.tile.mem
    · rw [hbase, hjob]
      rfl
    · rw [hbase]
      exact fun hne => absurd rfl hne
    · rw [hbase, hjob]
      rfl

theorem Phase.advances (hW : W < 28) (h : s.Phase W) (hok : s.Allowed W i) :
    s.buf.state = .ready ∧ (s.cycle W i).Phase W ∨ s.Advances W i := by
  cases h with
  | idle hb hn ht => exact .inl ⟨hb, phase_idle hb hn ht hok⟩
  | making h => exact .inr (h.advances hW hok)
  | buffering h => exact .inr (h.advances hok)
  | sending sent h =>
    cases hm : s.moves i with
    | false => exact .inr (h.advances_hold hok hm)
    | true => exact .inr (h.advances_move hW hok hm)
  | waiting h => exact .inr (h.advances hok)

/-- Only a request without a further part completes. -/
theorem Phase.completed (h : s.Phase W) (hc : s.completes W i = true) :
    s.job.Exact W s.tile.mem := by
  simp only [completes, WrCircBuf.srcDone, Bool.and_eq_true, beq_iff_eq, Bool.not_eq_true'] at hc
  obtain ⟨⟨⟨hw, hs⟩, -⟩, -⟩ := hc
  cases h with
  | idle hb _ _ => rw [hb] at hw; cases hw
  | making h => rw [h.state] at hw; cases hw
  | buffering h => rw [h.state] at hw; cases hw
  | sending _ h => rw [h.state] at hw; cases hw
  | waiting h => exact h.exact hs

/-- A busy writer becomes idle only by completing its request. -/
theorem completes_of_ready (hb : s.buf.state ≠ .ready) (h : (s.cycle W i).buf.state = .ready) :
    s.completes W i = true := by
  simp only [cycle, WrCircBuf.step] at h
  split at h
  · exact absurd (by assumption) hb
  · split at h
    · simp only at h
      split at h <;> cases h
    · simp_all
  · split at h <;> simp_all
  · split at h
    · split at h <;> simp_all
    · simp_all
  · rename_i hw
    split at h
    · rename_i hd
      rw [Bool.and_eq_true] at hd
      split at h
      · cases h
      · rename_i hs
        have hdr : i.doneRdy = true := by simpa [WrCircBuf.memDoneRdy, hw, hs, bufIn] using hd.2
        simp [completes, WrCircBuf.srcDone, hw, hs, hd.1, hdr]
    · rw [hw] at h
      cases h

/-! ### Whole runs -/

structure Inv (W : Nat) (s : WrSystem) : Prop where
  phase : s.Phase W
  finished : ∀ d ∈ s.finished, d.1.Exact W d.2

theorem inv_init (h : s.Init) : s.Inv W := by
  obtain ⟨hb, hn, ht, hf⟩ := h
  refine ⟨.idle hb hn ht, fun d hd => ?_⟩
  rw [hf] at hd
  cases hd

theorem inv_cycle (hW : W < 28) (h : s.Inv W) (hok : s.Allowed W i) : (s.cycle W i).Inv W := by
  constructor
  · rcases h.phase.advances hW hok with ⟨-, hp⟩ | ha
    · exact hp
    · exact ha.phase
  · intro d hd
    show d.1.Exact W d.2
    simp only [cycle] at hd
    split at hd
    · rename_i hc
      rcases List.mem_append.mp hd with hd | hd
      · exact h.finished d hd
      · rw [List.mem_singleton.mp hd]
        exact h.phase.completed hc
    · exact h.finished d hd

theorem work_le (h : s.Phase W) : s.work W ≤ 8 * s.job.req.size + 7 := by
  cases h with
  | idle hb _ _ => simp [work, hb]
  | making h =>
    have hr := h.serves.base_add_rem
    simp only [work, h.state]
    omega
  | buffering h =>
    have hr := h.serves.base_add_rem
    simp only [work, h.state]
    split <;> omega
  | sending _ h =>
    have hr := h.serves.base_add_rem
    rw [h.work_eq]
    split <;> omega
  | waiting h =>
    have hr := h.serves.base_add_rem
    rw [h.work_eq]
    split <;> omega

theorem cycle_req (hb : s.buf.state ≠ .ready) : (s.cycle W i).job.req = s.job.req := by
  simp only [cycle, jobStep]
  split
  · rename_i hs _
    exact absurd hs hb
  · rfl

/-- The completion number `n` is that of request `r`. -/
def Finished (n : Nat) (r : WrReq) (s : WrSystem) : Prop :=
  ∃ d, s.finished[n]? = some d ∧ d.1.req = r

theorem Finished.cycle {n : Nat} {r : WrReq} (h : s.Finished n r) :
    (s.cycle W i).Finished n r := by
  obtain ⟨d, hd, hr⟩ := h
  refine ⟨d, ?_, hr⟩
  simp only [WrSystem.cycle]
  split
  · rw [List.getElem?_append_left (List.getElem?_eq_some_iff.mp hd).1, hd]
  · exact hd

theorem finished_of_completes (hc : s.completes W i = true) :
    (s.cycle W i).Finished s.finished.length s.job.req := by
  refine ⟨(s.job, s.tile.mem), ?_, rfl⟩
  simp only [cycle, hc, if_true]
  exact List.getElem?_concat_length

/-- The request being served completes within a number of favourable cycles that its size
bounds. -/
theorem finishes (hW : W < 28) (h : s.Inv W) (hb : s.buf.state ≠ .ready) {is : List WrIn}
    {s' : WrSystem} (hr : run (step W) (Allowed W) s is = some s')
    (ht : 8 * s.job.req.size + 7 < tally (step W) smooth s is) :
    s'.Finished s.finished.length s.job.req := by
  -- until it completes the writer is busy with it
  refine run_finishes_busy (F := Finished s.finished.length s.job.req) (I := Inv W)
    (B := fun t => t.finished = s.finished ∧ t.buf.state ≠ .ready ∧ t.job.req = s.job.req)
    (work W) ?_ ?_ ?_ h ⟨rfl, hb, rfl⟩ hr (Nat.lt_of_le_of_lt (work_le h.phase) ht)
  · intro t i t' hinv hok hs
    cases hs
    exact inv_cycle hW hinv hok
  · intro t i t' hF hs
    cases hs
    exact hF.cycle
  · rintro t i t' hinv ⟨hf, hbt, hj⟩ hok hs
    cases hs
    cases hc : t.completes W i with
    | true =>
      rw [← hf, ← hj]
      exact .inl (finished_of_completes hc)
    | false =>
      right
      refine ⟨⟨?_, fun hready => ?_, (cycle_req hbt).trans hj⟩, ?_⟩
      · simp only [cycle, hc]
        exact hf
      · rw [completes_of_ready hbt hready] at hc
        cases hc
      · rcases hinv.phase.advances hW hok with ⟨hb', -⟩ | ha
        · exact absurd hb' hbt
        · exact ha.work.resolve_left (by simp [hc])

/-- The request goes into service on the memory as it stands. -/
structure Takes (W : Nat) (s : WrSystem) (i : WrIn) (r : WrReq) : Prop where
  busy : (s.cycle W i).buf.state ≠ .ready
  job : (s.cycle W i).job = ⟨r, s.tile.mem, [], 0⟩

/-- A ready writer takes the request and completes nothing. -/
theorem ready_takes (hs : s.buf.state = .ready) {r : WrReq} (hr : i.req = some r) :
    s.Takes W i r ∧ (s.cycle W i).finished = s.finished := by
  refine ⟨⟨?_, ?_⟩, ?_⟩
  · simp [cycle, WrCircBuf.step, bufIn, hs, hr]
  · simp [cycle, jobStep, hs, hr]
  · simp [cycle, completes, WrCircBuf.srcDone, hs]

/-- A request offered to a ready writer is taken, and its write completes within a number of
favourable cycles that its size bounds. -/
def Serves (W : Nat) (s : WrSystem) : Prop :=
  s.buf.state = .ready → ∀ i r, i.req = some r → s.Allowed W i →
    s.Takes W i r ∧ ∀ is s', run (step W) (Allowed W) (s.cycle W i) is = some s' →
      8 * r.size + 7 < tally (step W) smooth (s.cycle W i) is →
      s'.Finished s.finished.length r

theorem serves (hW : W < 28) (h : s.Inv W) : s.Serves W := by
  intro hs i r hreq hok
  obtain ⟨htakes, hfin⟩ := ready_takes (W := W) hs hreq
  refine ⟨htakes, fun is s' hr ht => ?_⟩
  have hjob : (s.cycle W i).job.req = r := by rw [htakes.job]
  rw [← hjob] at ht ⊢
  rw [← hfin]
  exact finishes hW (inv_cycle hW h hok) htakes.busy hr ht

/-- Every completed write has stored exactly its bytes, from its pointer on around the ring, from
the least number of input lines and with at most two memory requests; a request offered to the
ready writer goes into service and completes; and a request that is being served completes under
every schedule with enough favourable cycles. -/
theorem write_exact (hW : W < 28) (h : Reach Init (step W) (Allowed W) s) :
    (∀ d ∈ s.finished, d.1.Exact W d.2) ∧
    s.Serves W ∧
    (s.buf.state ≠ .ready → ∀ is s', run (step W) (Allowed W) s is = some s' →
      8 * s.job.req.size + 7 < tally (step W) smooth s is →
      s'.Finished s.finished.length s.job.req) := by
  have hinv : s.Inv W := by
    refine h.invariant (fun t ht => inv_init ht) ?_
    intro t i t' hI hok hs
    cases hs
    exact inv_cycle hW hI hok
  exact ⟨hinv.finished, serves hW hinv, fun hb is s' hr ht => finishes hW hinv hb hr ht⟩

/-- After reset, with a memory of zeros. -/
def reset : WrSystem where
  buf := default
  noc := default
  tile := ⟨fun _ => 0, false, 0, 0, 0, 0⟩
  job := ⟨⟨0, 0, 0⟩, fun _ => 0, [], 0⟩
  finished := []

/-- A cycle in which everything is ready, with or without an acknowledgement. -/
def ready (data : Line) (ack : Bool) : WrIn where
  req := none
  dataVal := true
  data := data
  doneRdy := true
  nocRdy := true
  resp := if ack then some .storeMemAck else none

/-- 100 bytes for flow 3 that start 6 bytes before the end of its ring. -/
def wrappedWrite : List WrIn :=
  { ready 0 false with req := some ⟨3, 4090, 100⟩ } ::
    [ready 5 false, ready 5 false, ready 7 false, ready 7 true, ready 7 false, ready 7 false,
      ready 7 false, ready 9 false, ready 9 true]

theorem write_exact_wrapped : ∃ s, Reach Init (step 12) (Allowed 12) s ∧
    s.finished.map (fun d => d.1.req) = [⟨3, 4090, 100⟩] ∧
    ∀ d ∈ s.finished, d.1.Exact 12 d.2 := by
  have hinit : reset.Init := ⟨rfl, rfl, rfl, rfl⟩
  have hrun : ∃ s, Reach Init (step 12) (Allowed 12) s ∧
      decide (s.finished.map (fun d => d.1.req) = [⟨3, 4090, 100⟩]) = true :=
    Reach.exists_of_run wrappedWrite hinit (by decide +kernel)
  obtain ⟨s, hs, hp⟩ := hrun
  exact ⟨s, hs, of_decide_eq_true hp, (write_exact (by decide) hs).1⟩

end WrSystem

end TcpHw
