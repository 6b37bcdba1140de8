import TcpHw.Common.CircBuf

/-!
# `rd_mem_noc_module` and the memory tile

A read request goes out as one header; the response is a header with the number of lines and
then the lines. The tile answers a request with the bytes from its address on, packed from the
most significant byte of each line; what fills the last line is not said.
-/
namespace TcpHw

open Bytes

set_option autoImplicit false

/-! ### `rd_mem_noc_module` -/

inductive RdMemState where
  | ready | sendRdReq | waitRdResp | recvRdResp
  deriving DecidableEq, Inhabited

/-- `respMsgLen` is the one field of `rd_resp_flit_reg` that is read. -/
structure RdMemNoc where
  state : RdMemState
  reqEntry : MemReq
  respMsgLen : Nat
  flitsRecv : Nat
  deriving Inhabited

/-- A cycle of the network: a flit on the response bus, as data and as a header. -/
structure NocIn where
  nocRdy : Bool
  resp : Bool
  respData : Line
  respMsgLen : Nat

namespace RdMemNoc

variable (m : RdMemNoc)

/-- `rd_mem_src_req_rdy` -/
def reqRdy : Bool := m.state == .ready

/-- `rd_mem_noc_req_noc0_val` -/
def nocReqVal : Bool := m.state == .sendRdReq

/-- `rd_mem_noc_resp_noc0_rdy` -/
def nocRespRdy (respRdy : Bool) : Bool :=
  match m.state with
  | .waitRdResp => true
  | .recvRdResp => respRdy
  | _ => false

/-- `rd_mem_src_resp_val` -/
def respVal (i : NocIn) : Bool := m.state == .recvRdResp && i.resp

def lastPadbytes : Nat :=
  if m.reqEntry.memReqSize % 64 = 0 then 0 else 64 - m.reqEntry.memReqSize % 64

/-- `rd_mem_src_resp_last`; `msg_len - 1` wraps. -/
def respLast (i : NocIn) (respRdy : Bool) : Bool :=
  m.respVal i && respRdy && m.flitsRecv == (m.respMsgLen + (2 ^ 22 - 1)) % 2 ^ 22

/-- `rd_mem_src_resp_padbytes` -/
def respPadbytes (i : NocIn) (respRdy : Bool) : Nat :=
  if m.respLast i respRdy then m.lastPadbytes else 0

def step (req : Option MemReq) (respRdy : Bool) (i : NocIn) : RdMemNoc :=
  match m.state with
  | .ready =>
    match req with
    | some r => { m with state := .sendRdReq, reqEntry := r, flitsRecv := 0 }
    | none => m
  | .sendRdReq => if i.nocRdy then { m with state := .waitRdResp } else m
  | .waitRdResp => if i.resp then { m with state := .recvRdResp, respMsgLen := i.respMsgLen } else m
  | .recvRdResp =>
    if respRdy && i.resp then
      { m with
        flitsRecv := (m.flitsRecv + 1) % 2 ^ 22
        state := if m.respLast i respRdy then .ready else .recvRdResp }
    else m

end RdMemNoc

/-! ### The memory tile -/

/-- The request being answered, whether the header of the answer is gone and how many lines. -/
structure RdTile where
  busy : Bool
  addr : Nat
  dataSize : Nat
  hdrSent : Bool
  count : Nat
  deriving Inhabited

namespace RdTile

def step (t : RdTile) (m : RdMemNoc) (respRdy : Bool) (i : NocIn) : RdTile :=
  if m.nocReqVal && i.nocRdy then
    { busy := true, addr := m.reqEntry.memReqAddr, dataSize := m.reqEntry.memReqSize,
      hdrSent := false, count := 0 }
  else if i.resp && m.nocRespRdy respRdy then
    if t.hdrSent then
      { t with count := t.count + 1, busy := t.count + 1 != msgFlits t.dataSize }
    else { t with hdrSent := true }
  else t

/-- A response flit belongs to a request: first the number of its lines, then its bytes. -/
def Answers (mem : Memory) (t : RdTile) (i : NocIn) : Prop :=
  i.resp = true → t.busy = true ∧
    (t.hdrSent = false → i.respMsgLen = msgFlits t.dataSize) ∧
    (t.hdrSent = true → ∀ j < 64, 64 * t.count + j < t.dataSize →
      byte i.respData j = mem (t.addr + 64 * t.count + j))

instance (mem : Memory) (t : RdTile) (i : NocIn) : Decidable (t.Answers mem i) := by
  unfold Answers
  infer_instance

end RdTile

/-! ### A request between the module and the tile -/

/-- Nothing is asked. -/
structure RdIdle (m : RdMemNoc) (t : RdTile) : Prop where
  state : m.state = .ready
  tile : t.busy = false

/-- Request `r` is being served and `c` of its lines have come. -/
structure RdServing (m : RdMemNoc) (t : RdTile) (r : MemReq) (c : Nat) : Prop where
  entry : m.reqEntry = r
  recv : m.flitsRecv = c
  more : 64 * c < r.memReqSize
  small : r.memReqSize ≤ 2 ^ 27
  ctl : m.state = .sendRdReq ∧ c = 0 ∧ t.busy = false ∨
    (t.busy = true ∧ t.addr = r.memReqAddr ∧ t.dataSize = r.memReqSize ∧ t.count = c ∧
      (m.state = .waitRdResp ∧ c = 0 ∧ t.hdrSent = false ∨
        m.state = .recvRdResp ∧ t.hdrSent = true ∧ m.respMsgLen = (r.memReqSize + 63) / 64))

/-- Cycles before the first line of a request at least. -/
def RdMemNoc.delay (m : RdMemNoc) : Nat :=
  match m.state with
  | .ready => 0
  | .sendRdReq => 2
  | .waitRdResp => 1
  | .recvRdResp => 0

theorem RdMemNoc.delay_le (m : RdMemNoc) : m.delay ≤ 2 := by
  unfold delay
  split <;> decide

/-- The network and the tile do what they can in this cycle. -/
def RdTile.smooth (t : RdTile) (i : NocIn) : Bool := i.nocRdy && (!t.busy || i.resp)

section port

variable {mem : Memory} {m : RdMemNoc} {t : RdTile} {r : MemReq} {c : Nat} {i : NocIn} {rdy : Bool}

theorem RdIdle.reqRdy (h : RdIdle m t) : m.reqRdy = true := by simp [RdMemNoc.reqRdy, h.state]

theorem RdIdle.resp (h : RdIdle m t) (hok : t.Answers mem i) : i.resp = false := by
  cases hr : i.resp with
  | false => rfl
  | true =>
    have hb := (hok hr).1
    rw [h.tile] at hb
    cases hb

theorem RdIdle.stay (h : RdIdle m t) (hok : t.Answers mem i) :
    RdIdle (m.step none rdy i) (t.step m rdy i) := by
  have hr := h.resp hok
  constructor
  · simp [RdMemNoc.step, h.state]
  · simp [RdTile.step, RdMemNoc.nocReqVal, h.state, hr, h.tile]

theorem RdIdle.ask (h : RdIdle m t) (hok : t.Answers mem i) (h0 : 0 < r.memReqSize)
    (hs : r.memReqSize ≤ 2 ^ 27) :
    RdServing (m.step (some r) rdy i) (t.step m rdy i) r 0 := by
  have hr := h.resp hok
  have hm : m.step (some r) rdy i = { m with state := .sendRdReq, reqEntry := r, flitsRecv := 0 } := by
    simp [RdMemNoc.step, h.state]
  have ht : t.step m rdy i = t := by simp [RdTile.step, RdMemNoc.nocReqVal, h.state, hr]
  rw [hm, ht]
  exact ⟨rfl, rfl, h0, hs, .inl ⟨rfl, rfl, h.tile⟩⟩

/-- Without a line the request is served on; the module and the tile come closer to the first
line if they can. -/
theorem RdServing.wait {q : Option MemReq} (h : RdServing m t r c) (hok : t.Answers mem i)
    (hno : (m.respVal i && rdy) = false) :
    RdServing (m.step q rdy i) (t.step m rdy i) r c ∧
      (m.step q rdy i).delay ≤ m.delay ∧
      (t.smooth i = true → rdy = true → (m.step q rdy i).delay < m.delay) := by
  obtain ⟨he, hc, hlt, hsm, hctl⟩ := h
  rcases hctl with ⟨hs, h0, hb⟩ | ⟨hb, ha, hd, hn, ⟨hs, h0, hh⟩ | ⟨hs, hh, hl⟩⟩
  · have hr : i.resp = false := by
      by_contra hr
      have hbt := (hok (by simpa using hr)).1
      rw [hb] at hbt
      cases hbt
    cases hrdy : i.nocRdy with
    | false =>
      have hm : m.step q rdy i = m := by simp [RdMemNoc.step, hs, hrdy]
      have ht : t.step m rdy i = t := by simp [RdTile.step, hr, hrdy]
      rw [hm, ht]
      exact ⟨⟨he, hc, hlt, hsm, .inl ⟨hs, h0, hb⟩⟩, Nat.le_refl _, by simp [RdTile.smooth, hrdy]⟩
    | true =>
      have hm : m.step q rdy i = { m with state := .waitRdResp } := by
        simp [RdMemNoc.step, hs, hrdy]
      have ht : t.step m rdy i = ⟨true, m.reqEntry.memReqAddr, m.reqEntry.memReqSize, false, 0⟩ := by
        simp [RdTile.step, RdMemNoc.nocReqVal, hs, hrdy]
      rw [hm, ht]
      refine ⟨⟨he, hc, hlt, hsm, .inr ⟨rfl, by rw [he], by rw [he], h0.symm, .inl ⟨rfl, h0, rfl⟩⟩⟩,
        ?_, fun _ _ => ?_⟩ <;> simp [RdMemNoc.delay, hs]
  · cases hr : i.resp with
    | false =>
      have hm : m.step q rdy i = m := by simp [RdMemNoc.step, hs, hr]
      have ht : t.step m rdy i = t := by simp [RdTile.step, RdMemNoc.nocReqVal, hs, hr]
      rw [hm, ht]
      exact ⟨⟨he, hc, hlt, hsm, .inr ⟨hb, ha, hd, hn, .inl ⟨hs, h0, hh⟩⟩⟩, Nat.le_refl _,
        by simp [RdTile.smooth, hr, hb]⟩
    | true =>
      have hlen := (hok hr).2.1 hh
      rw [hd, msgFlits_eq hsm] at hlen
      have hm : m.step q rdy i = { m with state := .recvRdResp, respMsgLen := i.respMsgLen } := by
        simp [RdMemNoc.step, hs, hr]
      have ht : t.step m rdy i = { t with hdrSent := true } := by
        simp [RdTile.step, RdMemNoc.nocReqVal, RdMemNoc.nocRespRdy, hs, hr, hh]
      rw [hm, ht]
      refine ⟨⟨he, hc, hlt, hsm, .inr ⟨hb, ha, hd, hn, .inr ⟨rfl, rfl, hlen⟩⟩⟩, ?_,
        fun _ _ => ?_⟩ <;> simp [RdMemNoc.delay, hs]
  · have hno' : (rdy && i.resp) = false := by
      simpa [RdMemNoc.respVal, hs, Bool.and_comm] using hno
    have hm : m.step q rdy i = m := by simp [RdMemNoc.step, hs, hno']
    have ht : t.step m rdy i = t := by
      simp [RdTile.step, RdMemNoc.nocReqVal, RdMemNoc.nocRespRdy, hs, Bool.and_comm _ rdy, hno']
    rw [hm, ht]
    refine ⟨⟨he, hc, hlt, hsm, .inr ⟨hb, ha, hd, hn, .inr ⟨hs, hh, hl⟩⟩⟩, Nat.le_refl _, ?_⟩
    intro hs' hrdy
    simp [RdTile.smooth, hb] at hs'
    simp [hrdy, hs'] at hno'

/-- A line carries the bytes of its place in the request; the last one ends the request and
tells how much of it is padding. -/
theorem RdServing.line {q : Option MemReq} (h : RdServing m t r c) (hok : t.Answers mem i)
    (hv : m.respVal i = true) (hrdy : rdy = true) :
    (∀ j < 64, 64 * c + j < r.memReqSize →
      byte i.respData j = mem (r.memReqAddr + 64 * c + j)) ∧
    (64 * (c + 1) < r.memReqSize → m.respLast i rdy = false ∧ m.respPadbytes i rdy = 0 ∧
      RdServing (m.step q rdy i) (t.step m rdy i) r (c + 1)) ∧
    (r.memReqSize ≤ 64 * (c + 1) → m.respLast i rdy = true ∧
      m.respPadbytes i rdy = (64 - r.memReqSize % 64) % 64 ∧
      RdIdle (m.step q rdy i) (t.step m rdy i)) := by
  subst hrdy
  obtain ⟨he, hc, hlt, hsm, hctl⟩ := h
  simp only [RdMemNoc.respVal, Bool.and_eq_true, beq_iff_eq] at hv
  obtain ⟨hs, hr⟩ := hv
  rcases hctl with ⟨hs', -, -⟩ | ⟨hb, ha, hd, hn, ⟨hs', -, -⟩ | ⟨-, hh, hl⟩⟩
  · rw [hs] at hs'
    cases hs'
  · rw [hs] at hs'
    cases hs'
  have hbytes := (hok hr).2.2 hh
  rw [hn, hd, ha] at hbytes
  have hlast : m.respLast i true = true ↔ r.memReqSize ≤ 64 * (c + 1) := by
    simp only [RdMemNoc.respLast, RdMemNoc.respVal, hs, hr, hc, hl, beq_self_eq_true, Bool.and_self,
      Bool.true_and, beq_iff_eq]
    omega
  have hm : m.step q true i = { m with
      flitsRecv := c + 1
      state := if m.respLast i true then .ready else .recvRdResp } := by
    have hc' : c + 1 < 4194304 := by omega
    simp [RdMemNoc.step, hs, hr, hc, Nat.mod_eq_of_lt, hc']
  have ht : t.step m true i =
      { t with count := c + 1, busy := c + 1 != (r.memReqSize + 63) / 64 } := by
    simp [RdTile.step, RdMemNoc.nocReqVal, RdMemNoc.nocRespRdy, hs, hr, hh, hn, hd, msgFlits_eq hsm]
  refine ⟨hbytes, fun hmore => ?_, fun hend => ?_⟩
  · have hf : m.respLast i true = false := by
      rw [Bool.eq_false_iff, ne_eq, hlast]
      omega
    have hbz : (c + 1 != (r.memReqSize + 63) / 64) = true := by
      rw [bne_iff_ne]
      omega
    rw [hm, ht, hf, hbz]
    refine ⟨rfl, by simp [RdMemNoc.respPadbytes, hf], ⟨he, rfl, hmore, hsm, .inr ⟨rfl, ha, hd, rfl,
      .inr ⟨rfl, hh, hl⟩⟩⟩⟩
  · have hf := hlast.mpr hend
    have hbz : (c + 1 != (r.memReqSize + 63) / 64) = false := by
      rw [bne_eq_false_iff_eq]
      omega
    rw [hm, ht, hf, hbz]
    refine ⟨rfl, ?_, ⟨rfl, rfl⟩⟩
    simp only [RdMemNoc.respPadbytes, hf, if_true, RdMemNoc.lastPadbytes, he]
    split <;> omega

/-- Behind the first line there is a line in every favourable cycle. -/
theorem RdServing.resp_of_smooth (h : RdServing m t r c) (hc : 0 < c)
    (hsm : t.smooth i = true) : m.respVal i = true := by
  rcases h.ctl with ⟨-, h0, -⟩ | ⟨hb, -, -, -, ⟨-, h0, -⟩ | ⟨hs, -, -⟩⟩
  · omega
  · omega
  · simp [RdTile.smooth, hb] at hsm
    simp [RdMemNoc.respVal, hs, hsm]

end port

end TcpHw
