import TcpHw.Dram.DramWrites

/-!
# The controller is a memory of bytes

The messages are served one after the other. While a store is served the memory holds its bytes up to
a position that every flit moves on; while a load is served the memory stands and the flits sent are
the bytes up to a position. A response can count at most `2 ^ 22` flits, so a longer load is cut off.
-/
namespace TcpHw

open Bytes Trace DramController

set_option autoImplicit false

/-! ### What is owed for a message -/

namespace DramMsg

variable (P : DramParams) (mem : Memory) (m : DramMsg)

/-- A store message. -/
structure Store : Prop where
  type : m.IsStore
  pos : 0 < m.size
  len : m.hdr.msgLen.toNat = m.flits
  payload : m.payload.length = m.flits

/-- A load message. -/
structure Load : Prop where
  type : m.IsLoad
  pos : 0 < m.size
  aligned : m.addr % 64 = 0
  payload : m.payload = []

def WellFormed : Prop := m.Store ∨ m.Load

/-- The flits of the answer to a load can be counted. -/
def Fits : Prop := m.IsLoad → m.size ≤ 2 ^ 28

/-- The memory after a message: a store changes the bytes from its address on. -/
def after : Memory := if m.IsStore then stored P m mem m.size else mem

/-- A header and the first flits of a load, with the bytes of the memory. -/
def Sent (fs : List RespFlit) (k n : Nat) : Prop :=
  ∃ ds : List Line, fs = .hdr (m.hdr.resp P) :: ds.map .data ∧ ds.length = k ∧
    ∀ j < n, streamByte ds j = mem (byteAddr P (m.addr + j))

/-- A store is answered with a header, a load also with its bytes. -/
def Answer (fs : List RespFlit) : Prop :=
  if m.IsStore then fs = [.hdr (m.hdr.resp P)] else m.Sent P mem fs m.flits m.size

end DramMsg

/-- The bytes of a store are in the memory, which has room for them, and no other byte has
changed. -/
structure DramMsg.StoredExactly (P : DramParams) (m : DramMsg) (mem mem' : Memory) : Prop where
  bytes : m.size ≤ 2 ^ (P.memAddrW + 7) →
    ∀ k < m.size, mem' (byteAddr P (m.addr + k)) = streamByte m.payload k
  others : ∀ x, (∀ k < m.size, byteAddr P (m.addr + k) ≠ x) → mem' x = mem x

theorem DramMsg.after_exact {P : DramParams} {mem : Memory} {m : DramMsg} (h : m.IsStore) :
    m.StoredExactly P mem (m.after P mem) := by
  rw [DramMsg.after, if_pos h]
  refine ⟨fun hfit k hk => ?_, fun x hx => storeBytes_frame hx⟩
  have hsize : m.size ≤ 2 ^ 48 := by
    have hlt : m.size < 2 ^ 30 := m.hdr.dataSize.isLt
    omega
  exact storeBytes_apply (byteAddr_inj hsize hfit) hk

/-- The memory after messages. -/
def memAfter (P : DramParams) (mem : Memory) (msgs : List DramMsg) : Memory :=
  msgs.foldl (fun mem m => m.after P mem) mem

theorem memAfter_snoc (P : DramParams) (mem : Memory) (msgs : List DramMsg) (m : DramMsg) :
    memAfter P mem (msgs ++ [m]) = m.after P (memAfter P mem msgs) := by
  rw [memAfter, List.foldl_append]
  rfl

/-- The messages are answered in order, each with the memory as the ones before it left it. -/
inductive Served (P : DramParams) (mem : Memory) : List DramMsg → List RespFlit → Prop
  | none : Served P mem [] []
  | more {msgs : List DramMsg} {out fs : List RespFlit} {m : DramMsg} (h : Served P mem msgs out)
      (hm : m.Answer P (memAfter P mem msgs) fs) : Served P mem (msgs ++ [m]) (out ++ fs)

namespace DramSystem

variable {P : DramParams} {mem : Memory} {msgs : List DramMsg} {s : DramSystem} {e : DramEnv}

/-- All messages that were taken are served, or all but the last one, which keeps the controller
busy: a store that has reached byte `p`, or a load that has sent `k` flits or not even its header. -/
inductive Progress (P : DramParams) (mem : Memory) (msgs : List DramMsg) (s : DramSystem) : Prop
  | idle (done : List DramMsg) (hm : msgs = done ++ s.src) (hmem : s.mem = memAfter P mem done)
      (hout : Served P mem done s.out)
  | store (done : List DramMsg) (m : DramMsg) (p : Nat) (hb : s.ctrl.state ≠ .ready)
      (hm : msgs = done ++ m :: s.src) (hs : m.IsStore) (hp : p ≤ m.size)
      (hmem : s.mem = stored P m (memAfter P mem done) p)
      (hout : Served P mem done s.out)
  | load (done : List DramMsg) (m : DramMsg) (out fs : List RespFlit) (k : Nat)
      (hb : s.ctrl.state ≠ .ready) (hm : msgs = done ++ m :: s.src) (hs : m.IsLoad) (hk : k ≤ m.flits)
      (hmem : s.mem = memAfter P mem done) (hout : s.out = out ++ fs) (hserved : Served P mem done out)
      (hfs : fs = [] ∨ m.Sent P s.mem fs k (64 * k))

/-! ### The phases of a message -/

/-- Where a store stands. -/
inductive StoreAt (P : DramParams) (mem : Memory) (m : DramMsg) (s : DramSystem) : Prop
  | first (hs : s.ctrl.state = .wrFirstData) (hcur : s.cur = m.payload)
      (hcount : s.ctrl.currFlitCount = 0) (haddr : s.ctrl.currOpAddr = m.addr)
      (hleft : s.ctrl.writeBytesLeft = m.size) (hmem : s.mem = mem)
  | copy (q : Nat) (hs : s.ctrl.state = .wrDataCopy) (hq : q + 1 < m.flits)
      (hcur : s.cur = m.payload.drop (q + 1)) (hcount : s.ctrl.currFlitCount = q + 1)
      (haddr : s.ctrl.currOpAddr = (m.addr + m.upTo (q + 1)) % 2 ^ 48)
      (hleft : s.ctrl.writeBytesLeft = m.size - m.upTo (q + 1))
      (hsave : s.ctrl.save1 = m.payload.getD q 0) (hmask : MaskOf m q s.ctrl.save1Mask)
      (hmem : s.mem = stored P m mem (m.upTo (q + 1)))
  | drain (q : Nat) (hs : s.ctrl.state = .wrDataDrain) (hq : q + 1 = m.flits)
      (hcur : s.cur = []) (hmore : m.upTo (q + 1) < m.size)
      (haddr : s.ctrl.currOpAddr = (m.addr + m.upTo (q + 1)) % 2 ^ 48)
      (hsave : s.ctrl.save1 = m.payload.getD q 0) (hmask : MaskOf m q s.ctrl.save1Mask)
      (hmem : s.mem = stored P m mem (m.upTo (q + 1)))
  | resp (hs : s.ctrl.state = .wrResp) (hcur : s.cur = []) (hmem : s.mem = stored P m mem m.size)

/-- The line of the current address is in the register. -/
def HasLine (P : DramParams) (s : DramSystem) : Prop :=
  s.ctrl.memReadData = readLine 128 s.mem (s.ctrl.memAddr P)

/-- Where a load stands that has sent `k` flits. -/
inductive LoadAt (P : DramParams) (m : DramMsg) (fs : List RespFlit) (k : Nat) (s : DramSystem) : Prop
  | issue (hs : s.ctrl.state = .rdOpIssue) (hpend : s.pending = [])
      (hfs : if k = 0 then fs = [] else m.Sent P s.mem fs k (64 * k))
  | wait (hs : s.ctrl.state = .rdOpWait)
      (hpend : s.pending = [readLine 128 s.mem (s.ctrl.memAddr P)])
      (hlen : s.ctrl.respMsgLen = m.hdr.respMsgLen)
      (hfs : if k = 0 then fs = [] else m.Sent P s.mem fs k (64 * k))
  | hdr (hs : s.ctrl.state = .rdHdrFlit) (hk : k = 0) (hpend : s.pending = [])
      (hlen : s.ctrl.respMsgLen = m.hdr.respMsgLen) (hline : HasLine P s) (hfs : fs = [])
  | payload (hs : s.ctrl.state = .rdPayloadResp) (hpend : s.pending = [])
      (hlen : s.ctrl.respMsgLen = m.hdr.respMsgLen) (hline : HasLine P s)
      (hfs : m.Sent P s.mem fs k (64 * k))

/-- A store is served. -/
structure Storing (P : DramParams) (mem : Memory) (msgs done : List DramMsg) (m : DramMsg)
    (s : DramSystem) : Prop where
  msgs : msgs = done ++ m :: s.src
  store : m.Store
  hdr : s.ctrl.hdrFlit = m.hdr
  pending : s.pending = []
  out : Served P mem done s.out

/-- A load is served that has sent `k` flits, `fs` with its header. -/
structure Loading (P : DramParams) (mem : Memory) (msgs done : List DramMsg) (m : DramMsg)
    (fs : List RespFlit) (k : Nat) (s : DramSystem) : Prop where
  msgs : msgs = done ++ m :: s.src
  load : m.Load
  hdr : s.ctrl.hdrFlit = m.hdr
  cur : s.cur = []
  memory : s.mem = memAfter P mem done
  more : k < m.flits
  count : s.ctrl.readFlitsSent = k
  addr : s.ctrl.currOpAddr = (m.addr + 64 * k) % 2 ^ 48
  out : ∃ out, s.out = out ++ fs ∧ Served P mem done out

/-- The controller is between two messages or serves the last one that was taken. -/
inductive Phase (P : DramParams) (mem : Memory) (msgs : List DramMsg) (s : DramSystem) : Prop
  | ready (done : List DramMsg) (hs : s.ctrl.state = .ready) (hm : msgs = done ++ s.src)
      (hcur : s.cur = []) (hpend : s.pending = []) (hmem : s.mem = memAfter P mem done)
      (hout : Served P mem done s.out)
  | store (done : List DramMsg) (m : DramMsg) (h : Storing P mem msgs done m s)
      (hat : StoreAt P (memAfter P mem done) m s)
  | load (done : List DramMsg) (m : DramMsg) (fs : List RespFlit) (k : Nat)
      (h : Loading P mem msgs done m fs k s) (hat : LoadAt P m fs k s)

/-- Cycles that the message in hand still takes. -/
def workInHand (s : DramSystem) : Nat :=
  let n := (s.ctrl.hdrFlit.dataSize.toNat + 63) / 64
  match s.ctrl.state with
  | .ready => 0
  | .rdOpIssue => 4 * (n - s.ctrl.readFlitsSent) + 3
  | .rdOpWait => 4 * (n - s.ctrl.readFlitsSent) + 2
  | .rdHdrFlit => 4 * (n - s.ctrl.readFlitsSent) + 1
  | .rdPayloadResp => 4 * (n - s.ctrl.readFlitsSent)
  | .wrFirstData => n + 2
  | .wrDataCopy => n - s.ctrl.currFlitCount + 2
  | .wrDataDrain => 2
  | .wrResp => 1
  | .und => 0

def workOf (m : DramMsg) : Nat := 4 * m.flits + 4

def work (s : DramSystem) : Nat := (s.src.map workOf).sum + s.workInHand

/-- A cycle in which everyone does what they can. -/
def smooth (_ : DramSystem) (e : DramEnv) : Bool := e.offer && e.respRdy && e.memRdy && e.answer

def Done (s : DramSystem) : Prop := s.ctrl.state = .ready ∧ s.src = [] ∧ s.cur = []

/-- What one cycle does. -/
def Advances (P : DramParams) (mem : Memory) (msgs : List DramMsg) (s : DramSystem) (e : DramEnv) :
    Prop :=
  Phase P mem msgs (s.cycle P e) ∧
    (s.Done ∨ (s.cycle P e).work + (if s.smooth e then 1 else 0) ≤ s.work)

/-! ### The wires -/

theorem rdDataVal_nil (h : s.pending = []) : s.rdDataVal e = false := by simp [rdDataVal, h]

theorem reqVal_eq_false (h : e.offer = false) : (s.signals e).reqVal = false := by
  simp [signals, h]

theorem offer_of_reqVal (h : (s.signals e).reqVal = true) : e.offer = true :=
  (Bool.and_eq_true_iff.mp h).1

/-- A data flit is offered. -/
theorem signals_flit {d : Line} {ds : List Line} (hcur : s.cur = d :: ds) (ho : e.offer = true) :
    (s.signals e).reqVal = true ∧ (s.signals e).reqData = d := by
  simp [signals, nextFlit, hcur, ho]

/-- A header flit is offered. -/
theorem signals_hdr {m : DramMsg} {rest : List DramMsg} (hcur : s.cur = []) (hsrc : s.src = m :: rest)
    (ho : e.offer = true) :
    (s.signals e).reqVal = true ∧ (s.signals e).reqData = m.hdrFlit := by
  simp [signals, nextFlit, hcur, hsrc, ho]

/-- No register of the datapath is written, but for the length of the response. -/
structure Still (c : DramCtl) (s : DramSystem) : Prop where
  state : c.state = s.ctrl.state
  storeHdrFlit : c.storeHdrFlit = false
  initMetadata : c.initMetadata = false
  updateMetadata : c.updateMetadata = false
  incrRecvFlits : c.incrRecvFlits = false
  incrSentFlits : c.incrSentFlits = false
  storeRdData : c.storeRdData = false
  storeSave1 : c.storeSave1 = false

/-- The length of the response is stored or not. -/
def withLen (P : DramParams) (s : DramSystem) (c : DramCtl) : DramSystem :=
  { s with ctrl := { s.ctrl with
      respMsgLen := if c.storeMsgLen then (s.ctrl.hdrFlit.resp P).msgLen else s.ctrl.respMsgLen } }

/-- A cycle in which nothing is handed over. -/
theorem edge_still {c : DramCtl} (h : Still c s) (htake : s.takes e c = false)
    (hwrite : (c.memWriteEn && e.memRdy) = false) (hread : (c.memReadEn && e.memRdy) = false)
    (hresp : (c.respVal && e.respRdy) = false) (hrd : s.rdDataVal e = false) :
    s.edge P e c = s.withLen P c := by
  simp [edge, withLen, DramController.next, hdrFlitNext, memNext, pendingNext, curNext, h.state,
    h.storeHdrFlit, h.initMetadata, h.updateMetadata, h.incrRecvFlits, h.incrSentFlits, h.storeRdData,
    h.storeSave1, htake, hwrite, hread, hresp, hrd]

theorem work_withLen (c : DramCtl) : (s.withLen P c).work = s.work := rfl

theorem Storing.withLen {done : List DramMsg} {m : DramMsg} (h : Storing P mem msgs done m s)
    (c : DramCtl) : Storing P mem msgs done m (s.withLen P c) :=
  ⟨h.msgs, h.store, h.hdr, h.pending, h.out⟩

theorem Loading.withLen {done : List DramMsg} {m : DramMsg} {fs : List RespFlit} {k : Nat}
    (h : Loading P mem msgs done m fs k s) (c : DramCtl) :
    Loading P mem msgs done m fs k (s.withLen P c) :=
  ⟨h.msgs, h.load, h.hdr, h.cur, h.memory, h.more, h.count, h.addr, h.out⟩

/-- No flit is taken. -/
theorem edge_source {c : DramCtl} (h : c.reqRdy = false) :
    (s.edge P e c).src = s.src ∧ (s.edge P e c).cur = s.cur := by
  simp [edge, curNext, takes, h]

theorem edge_mem {c : DramCtl} (h : c.memWriteEn = false) : (s.edge P e c).mem = s.mem := by
  simp [edge, memNext, h]

theorem edge_pending {c : DramCtl} (h : c.memReadEn = false) (hp : s.pending = []) :
    (s.edge P e c).pending = [] := by
  simp [edge, pendingNext, h, hp]

theorem edge_out {c : DramCtl} (h : c.respVal = false) : (s.edge P e c).out = s.out := by
  simp [edge, h]

theorem edge_sends {c : DramCtl} (h : c.respVal = true) (hr : e.respRdy = true) :
    (s.edge P e c).out = s.out ++ [s.ctrl.respFlit P c] := by
  simp [edge, h, hr]

/-- No flit is taken, and the message in hand goes on. -/
theorem work_edge {c : DramCtl} (h : c.reqRdy = false)
    (hless : (s.edge P e c).workInHand < s.workInHand) :
    (s.edge P e c).work + (if s.smooth e then 1 else 0) ≤ s.work := by
  simp only [work, (edge_source h).1]
  split <;> omega

/-- A cycle that waits for someone. -/
theorem advances_wait {c : DramCtl} (hctl : s.ctl e = c) (hedge : s.edge P e c = s.withLen P c)
    (hphase : Phase P mem msgs (s.withLen P c)) (hsm : s.smooth e = false) :
    Advances P mem msgs s e := by
  have hcyc : s.cycle P e = s.withLen P c := by rw [cycle, hctl, hedge]
  refine ⟨?_, .inr ?_⟩
  · rw [hcyc]
    exact hphase
  · rw [hcyc, work_withLen, hsm]
    exact Nat.le_refl _

/-! ### Between messages -/

theorem ready_waits (hs : s.ctrl.state = .ready) (hpend : s.pending = [])
    (hval : (s.signals e).reqVal = false) : s.cycle P e = s := by
  have hctl : s.ctl e = { state := .ready, reqRdy := true } := by
    simp [ctl, DramController.ctl, hs, hval]
  have hstill : Still { state := .ready, reqRdy := true } s :=
    ⟨hs.symm, rfl, rfl, rfl, rfl, rfl, rfl, rfl⟩
  rw [cycle, hctl]
  exact edge_still hstill (by simp [takes, hval]) rfl rfl rfl (rdDataVal_nil hpend)

/-- The state a header leads to. -/
def stateOf (m : DramMsg) : DramState :=
  if m.hdr.msgType = msgTypeLoadMem then .rdOpIssue
  else if m.hdr.msgType = msgTypeStoreMem then .wrFirstData
  else .und

/-- The header of the next message is taken. -/
structure Taken (m : DramMsg) (rest : List DramMsg) (s s' : DramSystem) : Prop where
  state : s'.ctrl.state = stateOf m
  hdr : s'.ctrl.hdrFlit = m.hdr
  count : s'.ctrl.currFlitCount = 0
  sent : s'.ctrl.readFlitsSent = 0
  addr : s'.ctrl.currOpAddr = m.addr
  left : s'.ctrl.writeBytesLeft = m.size
  mem : s'.mem = s.mem
  pending : s'.pending = []
  src : s'.src = rest
  cur : s'.cur = m.payload
  out : s'.out = s.out

theorem ready_takes {m : DramMsg} {rest : List DramMsg} (hs : s.ctrl.state = .ready)
    (hcur : s.cur = []) (hpend : s.pending = []) (hsrc : s.src = m :: rest)
    (ho : e.offer = true) : Taken m rest s (s.cycle P e) := by
  obtain ⟨hval, hdata⟩ := signals_hdr hcur hsrc ho
  have hctl : s.ctl e =
      { state := stateOf m, reqRdy := true, storeHdrFlit := true, initMetadata := true } := by
    simp only [ctl, DramController.ctl, hs, hval, hdata, if_true]
    rfl
  have hflit : NocHdrFlit.ofFlit (s.signals e).reqData = m.hdr := by
    rw [hdata]
    rfl
  have hrd := rdDataVal_nil (e := e) hpend
  rw [cycle, hctl]
  refine ⟨rfl, hflit, rfl, rfl, ?_, ?_, rfl, ?_, ?_, ?_, ?_⟩
  · exact congrArg (fun h => h.addr.toNat) hflit
  · exact congrArg (fun h => h.dataSize.toNat) hflit
  · simp [edge, pendingNext, hrd, hpend]
  · simp [edge, takes, hval, hcur, hsrc]
  · simp [edge, curNext, takes, hval, hcur, hsrc]
  · simp [edge]

theorem flits_eq (m : DramMsg) : m.flits = (m.size + 63) / 64 := rfl

/-- The flits counted by the header in hand. -/
theorem flits_of_hdr {m : DramMsg} (h : s.ctrl.hdrFlit = m.hdr) :
    (s.ctrl.hdrFlit.dataSize.toNat + 63) / 64 = m.flits := by
  rw [h]
  rfl

/-- The controller waits for a message or takes it. -/
theorem advances_ready {done : List DramMsg} (hwf : ∀ m ∈ msgs, m.WellFormed)
    (hs : s.ctrl.state = .ready) (hm : msgs = done ++ s.src) (hcur : s.cur = [])
    (hpend : s.pending = []) (hmem : s.mem = memAfter P mem done) (hout : Served P mem done s.out) :
    Advances P mem msgs s e := by
  cases hsrc : s.src with
  | nil =>
    have hval : (s.signals e).reqVal = false := by simp [signals, nextFlit, hcur, hsrc]
    refine ⟨?_, .inl ⟨hs, hsrc, hcur⟩⟩
    rw [ready_waits hs hpend hval]
    exact .ready done hs hm hcur hpend hmem hout
  | cons m rest =>
    cases ho : e.offer with
    | false =>
      have hcyc : s.cycle P e = s := ready_waits hs hpend (reqVal_eq_false ho)
      refine ⟨?_, .inr ?_⟩
      · rw [hcyc]
        exact .ready done hs hm hcur hpend hmem hout
      · rw [hcyc]
        simp [smooth, ho]
    | true =>
      have ht : Taken m rest s (s.cycle P e) := ready_takes hs hcur hpend hsrc ho
      have hm' : msgs = done ++ m :: (s.cycle P e).src := by rw [hm, hsrc, ht.src]
      have hmem' := ht.mem.trans hmem
      have hwork : s.work = workOf m + (rest.map workOf).sum := by
        simp [work, workInHand, hs, hsrc]
      have hn := flits_of_hdr ht.hdr
      rcases hwf m (by simp [hm, hsrc]) with hst | hld
      · have hstate : (s.cycle P e).ctrl.state = .wrFirstData := by
          rw [ht.state, stateOf, hst.type]
          rfl
        refine ⟨.store done m ⟨hm', hst, ht.hdr, ht.pending, ht.out ▸ hout⟩ ?_, .inr ?_⟩
        · exact .first hstate ht.cur ht.count ht.addr ht.left hmem'
        · rw [hwork]
          simp only [work, workInHand, hstate, hn, ht.src, workOf]
          split <;> omega
      · have hstate : (s.cycle P e).ctrl.state = .rdOpIssue := by
          rw [ht.state, stateOf, hld.type]
          rfl
        have hpos : 0 < m.flits := by
          have hp := hld.pos
          rw [flits_eq]
          omega
        have haddr : (s.cycle P e).ctrl.currOpAddr = (m.addr + 64 * 0) % 2 ^ 48 := by
          have hlt : m.addr < 2 ^ 48 := m.hdr.addr.isLt
          rw [ht.addr, Nat.mul_zero, Nat.add_zero, Nat.mod_eq_of_lt hlt]
        have hout' : (s.cycle P e).out = s.out ++ [] := by rw [ht.out, List.append_nil]
        refine ⟨.load done m [] 0 ⟨hm', hld, ht.hdr, ht.cur.trans hld.payload, hmem', hpos, ht.sent,
          haddr, s.out, hout', hout⟩ ?_, .inr ?_⟩
        · exact .issue hstate ht.pending (by rw [if_pos rfl])
        · rw [hwork]
          simp only [work, workInHand, hstate, hn, ht.src, ht.sent, workOf]
          split <;> omega

/-! ### Stores -/

/-- The state after flit `q` was written. -/
def flitState (m : DramMsg) (q : Nat) : DramState :=
  if q + 1 = m.flits then (if m.size - m.upTo (q + 1) = 0 then .wrResp else .wrDataDrain)
  else .wrDataCopy

/-- Where a store stands after flit `q` was written. -/
theorem storeAt_written {m : DramMsg} {q : Nat} (hst : m.Store) (hq : q < m.flits)
    (hstate : s.ctrl.state = flitState m q)
    (hcur : s.cur = m.payload.drop (q + 1)) (hcount : s.ctrl.currFlitCount = q + 1)
    (haddr : s.ctrl.currOpAddr = (m.addr + m.upTo (q + 1)) % 2 ^ 48)
    (hleft : s.ctrl.writeBytesLeft = m.size - m.upTo (q + 1))
    (hsave : s.ctrl.save1 = m.payload.getD q 0) (hmask : MaskOf m q s.ctrl.save1Mask)
    (hmem : s.mem = stored P m mem (min (m.upTo (q + 1)) m.size)) : StoreAt P mem m s := by
  have hflits := flits_eq m
  unfold flitState at hstate
  by_cases hend : q + 1 = m.flits
  · rw [if_pos hend] at hstate
    have hnil : s.cur = [] := by
      rw [hcur, hend, ← hst.payload]
      exact List.drop_length
    by_cases hz : m.size - m.upTo (q + 1) = 0
    · rw [if_pos hz] at hstate
      rw [Nat.min_eq_right (by omega)] at hmem
      exact .resp hstate hnil hmem
    · rw [if_neg hz] at hstate
      rw [Nat.min_eq_left (by omega)] at hmem
      exact .drain q hstate hend hnil (by omega) haddr hsave hmask hmem
  · rw [if_neg hend] at hstate
    have hmore : m.upTo (q + 1) < m.size := by
      unfold DramMsg.upTo
      omega
    rw [Nat.min_eq_left hmore.le] at hmem
    exact .copy q hstate (by omega) hcur hcount haddr hleft hsave hmask hmem

/-- The cycles that are left after flit `q` was written. -/
theorem workInHand_written {m : DramMsg} {q : Nat} (hh : s.ctrl.hdrFlit = m.hdr) (hq : q < m.flits)
    (hstate : s.ctrl.state = flitState m q) (hcount : s.ctrl.currFlitCount = q + 1) :
    s.workInHand < m.flits - q + 2 := by
  have hn := flits_of_hdr hh
  unfold flitState at hstate
  by_cases hend : q + 1 = m.flits
  · rw [if_pos hend] at hstate
    by_cases hz : m.size - m.upTo (q + 1) = 0
    · rw [if_pos hz] at hstate
      simp only [workInHand, hstate]
      omega
    · rw [if_neg hz] at hstate
      simp only [workInHand, hstate]
      omega
  · rw [if_neg hend] at hstate
    simp only [workInHand, hstate, hn, hcount]
    omega

/-- The signals of a write with which a flit is taken. -/
def takeFlit (s : DramSystem) (src : StoreSrc) (part storeLen : Bool) : DramCtl :=
  { state := s.ctrl.writeNext part, reqRdy := true, memWriteEn := true, storeMsgLen := storeLen
    selStoreSrc := src, incrRecvFlits := true, storeSave1 := true, updateMetadata := true
    metadataPart := part }

/-- Flit `q` of a store is written. -/
theorem advances_flit {done : List DramMsg} {m : DramMsg} {q : Nat} {src : StoreSrc}
    {part storeLen : Bool} (h : Storing P mem msgs done m s) (hq : q < m.flits)
    (hcur : s.cur = m.payload.drop q) (hcount : s.ctrl.currFlitCount = q)
    (ho : e.offer = true) (hr : e.memRdy = true)
    (hctl : s.ctl e = s.takeFlit src part storeLen)
    (haddr : s.ctrl.opAddrAfter part = (m.addr + m.upTo (q + 1)) % 2 ^ 48)
    (hleft : s.ctrl.bytesLeftAfter part = m.size - m.upTo (q + 1))
    (hmem : writeLine s.mem (s.ctrl.memAddr P) (s.ctrl.shiftedWrData src (m.payload.getD q 0))
      (s.ctrl.shiftedWrMask src) = stored P m (memAfter P mem done) (min (m.upTo (q + 1)) m.size))
    (hwork : s.workInHand = m.flits - q + 2) : Advances P mem msgs s e := by
  obtain ⟨hm, hst, hh, hpend, hout⟩ := h
  have hlen : q < m.payload.length := by rw [hst.payload]; exact hq
  have hflit : m.payload.drop q = m.payload.getD q 0 :: m.payload.drop (q + 1) := by
    rw [List.getD_eq_getElem _ _ hlen, List.drop_eq_getElem_cons hlen]
  rw [hflit] at hcur
  obtain ⟨hval, hdata⟩ := signals_flit hcur ho
  have hmax : m.flits < 2 ^ 22 := by
    rw [← hst.len]
    exact m.hdr.msgLen.isLt
  have hlast := lastReqFlit_iff hh hst.len (by omega)
  have hstate : s.ctrl.writeNext part = flitState m q := by
    simp only [DramController.writeNext, flitState, hlast, hcount, hleft]
  have hcyc : s.cycle P e = s.edge P e (s.takeFlit src part storeLen) := by rw [cycle, hctl]
  have hsrc : (s.cycle P e).src = s.src := by
    rw [hcyc]
    simp [edge, hcur]
  have hmask : MaskOf m q s.ctrl.noc0DataMask := by
    have hm' := maskOf_noc0DataMask hh hst.len (by rw [hcount]; exact hq)
    rw [hcount] at hm'
    exact hm'
  have hcount' : (s.cycle P e).ctrl.currFlitCount = q + 1 := by
    rw [hcyc]
    show (s.ctrl.currFlitCount + 1) % 2 ^ 22 = q + 1
    rw [hcount]
    omega
  have hstate' : (s.cycle P e).ctrl.state = flitState m q := by
    rw [hcyc]
    exact hstate
  have hat : StoreAt P (memAfter P mem done) m (s.cycle P e) := by
    rw [hcyc] at hcount' hstate' ⊢
    refine storeAt_written hst hq hstate' ?_ hcount' haddr hleft hdata hmask ?_
    · simp [edge, curNext, takes, takeFlit, hval, hcur]
    · rw [← hmem, ← hdata]
      simp [edge, memNext, takeFlit, hr]
  have hh' : (s.cycle P e).ctrl.hdrFlit = m.hdr := by
    rw [hcyc]
    exact hh
  refine ⟨.store done m ⟨by rw [hsrc]; exact hm, hst, hh', ?_, ?_⟩ hat, .inr ?_⟩
  · rw [hcyc]
    exact edge_pending rfl hpend
  · rw [hcyc, edge_out rfl]
    exact hout
  · have hless := workInHand_written hh' hq hstate' hcount'
    simp only [work, hsrc, hwork]
    split <;> omega

theorem flits_pos {m : DramMsg} (h : 0 < m.size) : 0 < m.flits := by
  rw [flits_eq]
  omega

/-- A write waits for a flit or for the memory. -/
theorem wait_flit {src : StoreSrc} {storeLen : Bool}
    (hpend : s.pending = []) (hno : ((s.signals e).reqVal && e.memRdy) = false) :
    s.edge P e { state := s.ctrl.state, reqRdy := e.memRdy, memWriteEn := (s.signals e).reqVal
                 storeMsgLen := storeLen, selStoreSrc := src } =
      s.withLen P { state := s.ctrl.state, reqRdy := e.memRdy, memWriteEn := (s.signals e).reqVal
                    storeMsgLen := storeLen, selStoreSrc := src } :=
  edge_still ⟨rfl, rfl, rfl, rfl, rfl, rfl, rfl, rfl⟩ hno hno rfl rfl (rdDataVal_nil hpend)

theorem not_smooth (hval : e.offer = true → (s.signals e).reqVal = true)
    (hno : ((s.signals e).reqVal && e.memRdy) = false) : s.smooth e = false := by
  cases ho : e.offer with
  | false => simp [smooth, ho]
  | true =>
    rw [hval ho, Bool.true_and] at hno
    simp [smooth, hno]

/-- The next flit of the message is there. -/
theorem flit_offered {m : DramMsg} {q : Nat} (hst : m.Store) (hq : q < m.flits)
    (hcur : s.cur = m.payload.drop q) : e.offer = true → (s.signals e).reqVal = true := by
  intro ho
  have hlen : q < m.payload.length := by rw [hst.payload]; exact hq
  rw [List.drop_eq_getElem_cons hlen] at hcur
  exact (signals_flit hcur ho).1

theorem advances_first {done : List DramMsg} {m : DramMsg} (h : Storing P mem msgs done m s)
    (hs : s.ctrl.state = .wrFirstData) (hcur : s.cur = m.payload)
    (hcount : s.ctrl.currFlitCount = 0) (haddr : s.ctrl.currOpAddr = m.addr)
    (hleft : s.ctrl.writeBytesLeft = m.size) (hmem : s.mem = memAfter P mem done) :
    Advances P mem msgs s e := by
  have hst := h.store
  have hh := h.hdr
  have hpos := flits_pos hst.pos
  have hfw := bytesFirstWr_eq (r := s.ctrl) hh
  have hu : m.unaligned < 64 := Nat.mod_lt _ (by decide)
  cases hgo : (s.signals e).reqVal && e.memRdy with
  | false =>
    have hctl : s.ctl e = { state := s.ctrl.state, reqRdy := e.memRdy
                            memWriteEn := (s.signals e).reqVal, storeMsgLen := true
                            selStoreSrc := .first } := by
      have hmr : (s.signals e).memRdy = e.memRdy := rfl
      simp [ctl, DramController.ctl, hs, hmr, hgo]
    refine advances_wait hctl (wait_flit h.pending hgo) ?_
      (not_smooth (flit_offered hst hpos hcur) hgo)
    exact .store done m (h.withLen _) (.first hs hcur hcount haddr hleft hmem)
  | true =>
    obtain ⟨hval, hr⟩ := Bool.and_eq_true_iff.mp hgo
    have ho := offer_of_reqVal hval
    have hctl : s.ctl e = s.takeFlit .first true true := by
      have hmr : (s.signals e).memRdy = e.memRdy := rfl
      simp [ctl, DramController.ctl, hs, hmr, hval, hr, takeFlit]
    refine advances_flit h hpos hcur hcount ho hr hctl ?_ ?_ ?_ ?_
    · simp only [opAddrAfter, if_true, haddr, hfw, DramMsg.upTo, Nat.zero_add, Nat.mul_one]
    · simp only [bytesLeftAfter, if_true, hleft, hfw, DramMsg.upTo, Nat.zero_add, Nat.mul_one]
      split <;> omega
    · rw [hmem]
      exact write_first hh hst.len hpos hcount haddr
    · simp only [workInHand, hs, hh]
      rfl

theorem advances_copy {done : List DramMsg} {m : DramMsg} {q : Nat}
    (h : Storing P mem msgs done m s) (hs : s.ctrl.state = .wrDataCopy) (hq : q + 1 < m.flits)
    (hcur : s.cur = m.payload.drop (q + 1)) (hcount : s.ctrl.currFlitCount = q + 1)
    (haddr : s.ctrl.currOpAddr = (m.addr + m.upTo (q + 1)) % 2 ^ 48)
    (hleft : s.ctrl.writeBytesLeft = m.size - m.upTo (q + 1))
    (hsave : s.ctrl.save1 = m.payload.getD q 0) (hmask : MaskOf m q s.ctrl.save1Mask)
    (hmem : s.mem = stored P m (memAfter P mem done) (m.upTo (q + 1))) : Advances P mem msgs s e := by
  have hst := h.store
  have hh := h.hdr
  have hu : m.unaligned < 64 := Nat.mod_lt _ (by decide)
  have hstep : m.upTo (q + 1 + 1) = m.upTo (q + 1) + 64 := by
    unfold DramMsg.upTo
    omega
  cases hgo : (s.signals e).reqVal && e.memRdy with
  | false =>
    have hctl : s.ctl e = { state := s.ctrl.state, reqRdy := e.memRdy
                            memWriteEn := (s.signals e).reqVal, storeMsgLen := false
                            selStoreSrc := .copy } := by
      have hmr : (s.signals e).memRdy = e.memRdy := rfl
      simp [ctl, DramController.ctl, hs, hmr, hgo]
    refine advances_wait hctl (wait_flit h.pending hgo) ?_
      (not_smooth (flit_offered hst hq hcur) hgo)
    exact .store done m (h.withLen _) (.copy q hs hq hcur hcount haddr hleft hsave hmask hmem)
  | true =>
    obtain ⟨hval, hr⟩ := Bool.and_eq_true_iff.mp hgo
    have ho := offer_of_reqVal hval
    have hctl : s.ctl e = s.takeFlit .copy false false := by
      have hmr : (s.signals e).memRdy = e.memRdy := rfl
      simp [ctl, DramController.ctl, hs, hmr, hval, hr, takeFlit]
    refine advances_flit h hq hcur hcount ho hr hctl ?_ ?_ ?_ ?_
    · rw [hstep]
      simp only [opAddrAfter, Bool.false_eq_true, if_false, haddr]
      omega
    · rw [hstep]
      simp only [bytesLeftAfter, Bool.false_eq_true, if_false, hleft]
      split <;> omega
    · rw [hmem]
      exact write_copy hh hst.len hq hcount haddr hsave hmask
    · simp only [workInHand, hs, hh, hcount]
      rfl

theorem advances_drain {done : List DramMsg} {m : DramMsg} {q : Nat}
    (h : Storing P mem msgs done m s) (hs : s.ctrl.state = .wrDataDrain) (hq : q + 1 = m.flits)
    (hcur : s.cur = []) (hmore : m.upTo (q + 1) < m.size)
    (haddr : s.ctrl.currOpAddr = (m.addr + m.upTo (q + 1)) % 2 ^ 48)
    (hsave : s.ctrl.save1 = m.payload.getD q 0) (hmask : MaskOf m q s.ctrl.save1Mask)
    (hmem : s.mem = stored P m (memAfter P mem done) (m.upTo (q + 1))) : Advances P mem msgs s e := by
  have hmr : (s.signals e).memRdy = e.memRdy := rfl
  cases hr : e.memRdy with
  | false =>
    have hctl : s.ctl e = { state := s.ctrl.state, memWriteEn := true, selStoreSrc := .drain } := by
      simp [ctl, DramController.ctl, hs, hmr, hr]
    refine advances_wait hctl (edge_still ⟨rfl, rfl, rfl, rfl, rfl, rfl, rfl, rfl⟩ (by simp [takes])
      (by simp [hr]) rfl rfl (rdDataVal_nil h.pending)) ?_ (by simp [smooth, hr])
    exact .store done m (h.withLen _) (.drain q hs hq hcur hmore haddr hsave hmask hmem)
  | true =>
    have hctl : s.ctl e = { state := .wrResp, memWriteEn := true, selStoreSrc := .drain } := by
      simp [ctl, DramController.ctl, hs, hmr, hr]
    have hwrite : writeLine _ _ (s.ctrl.shiftedWrData .drain (s.signals e).reqData) _ =
        stored P m (memAfter P mem done) m.size := write_drain h.hdr hq hmore haddr hsave hmask
    rw [Advances, cycle, hctl]
    obtain ⟨hsrc, hcur'⟩ := edge_source (P := P) (s := s) (e := e)
      (c := { state := .wrResp, memWriteEn := true, selStoreSrc := .drain }) rfl
    refine ⟨.store done m ⟨?_, h.store, h.hdr, edge_pending rfl h.pending, ?_⟩
      (.resp rfl (hcur'.trans hcur) ?_), .inr ?_⟩
    · rw [hsrc]
      exact h.msgs
    · rw [edge_out rfl]
      exact h.out
    · rw [← hwrite, ← hmem]
      simp [edge, memNext, hr]
    · refine work_edge rfl ?_
      show 1 < _
      simp only [workInHand, hs]
      omega

theorem advances_resp {done : List DramMsg} {m : DramMsg} (h : Storing P mem msgs done m s)
    (hs : s.ctrl.state = .wrResp) (hcur : s.cur = [])
    (hmem : s.mem = stored P m (memAfter P mem done) m.size) : Advances P mem msgs s e := by
  have hrr : (s.signals e).respRdy = e.respRdy := rfl
  cases hr : e.respRdy with
  | false =>
    have hctl : s.ctl e = { state := s.ctrl.state, respVal := true, sendHdrFlit := true } := by
      simp [ctl, DramController.ctl, hs, hrr, hr]
    refine advances_wait hctl (edge_still ⟨rfl, rfl, rfl, rfl, rfl, rfl, rfl, rfl⟩ (by simp [takes])
      rfl rfl (by simp [hr]) (rdDataVal_nil h.pending)) ?_ (by simp [smooth, hr])
    exact .store done m (h.withLen _) (.resp hs hcur hmem)
  | true =>
    have hctl : s.ctl e = { state := .ready, respVal := true, sendHdrFlit := true } := by
      simp [ctl, DramController.ctl, hs, hrr, hr]
    have hanswer : m.Answer P (memAfter P mem done) [.hdr (m.hdr.resp P)] := by
      rw [DramMsg.Answer, if_pos h.store.type]
    rw [Advances, cycle, hctl]
    obtain ⟨hsrc, hcur'⟩ := edge_source (P := P) (s := s) (e := e)
      (c := { state := .ready, respVal := true, sendHdrFlit := true }) rfl
    refine ⟨.ready (done ++ [m]) rfl ?_ (hcur'.trans hcur) (edge_pending rfl h.pending) ?_ ?_, .inr ?_⟩
    · rw [hsrc, List.append_assoc]
      exact h.msgs
    · rw [memAfter_snoc, DramMsg.after, if_pos h.store.type, ← hmem, edge_mem rfl]
    · rw [edge_sends rfl hr]
      have hflit : s.ctrl.respFlit P { state := .ready, respVal := true, sendHdrFlit := true } =
          .hdr (m.hdr.resp P) := by
        rw [← h.hdr]
        rfl
      rw [hflit]
      exact .more h.out hanswer
    · refine work_edge rfl ?_
      show 0 < _
      simp only [workInHand, hs]
      omega

/-! ### Loads -/

theorem respMsgLen_eq (m : DramMsg) : m.hdr.respMsgLen = BitVec.ofNat 22 m.flits := by
  have hn : (if m.size % 64 = 0 then m.size / 64 else m.size / 64 + 1) = m.flits := by
    rw [flits_eq]
    split <;> omega
  rw [← hn]
  rfl

theorem flits_le {m : DramMsg} (hld : m.Load) (hfit : m.Fits) : m.flits ≤ 2 ^ 22 := by
  have hsize := hfit hld.type
  rw [flits_eq]
  omega

/-- The last flit is the one with which all are sent. -/
theorem lastRespFlit_iff {m : DramMsg} (hpos : 0 < m.flits) (hle : m.flits ≤ 2 ^ 22)
    (hlen : s.ctrl.respMsgLen = m.hdr.respMsgLen) :
    s.ctrl.lastRespFlit = true ↔ s.ctrl.readFlitsSent + 1 = m.flits := by
  have hsub : (m.hdr.respMsgLen - 1).toNat = m.flits - 1 := by
    rw [respMsgLen_eq, BitVec.toNat_sub, BitVec.toNat_ofNat]
    show (2 ^ 22 - 1 + m.flits % 2 ^ 22) % 2 ^ 22 = m.flits - 1
    omega
  rw [lastRespFlit, hlen, hsub, beq_iff_eq]
  omega

/-- The header goes out before the first flit. -/
theorem firstRd_iff {m : DramMsg} {k : Nat} (hh : s.ctrl.hdrFlit = m.hdr) (hk : k < 2 ^ 22)
    (haddr : s.ctrl.currOpAddr = (m.addr + 64 * k) % 2 ^ 48) : s.ctrl.firstRd = true ↔ k = 0 := by
  have hlt : m.addr < 2 ^ 48 := m.hdr.addr.isLt
  rw [firstRd, hh, haddr, beq_iff_eq]
  show m.addr = _ ↔ _
  omega

/-- One more flit is sent. -/
theorem sent_push {m : DramMsg} {fs : List RespFlit} {k : Nat} {d : Line}
    (h : m.Sent P mem fs k (64 * k))
    (hd : ∀ j < 64, byte d j = mem (byteAddr P (m.addr + 64 * k + j))) :
    m.Sent P mem (fs ++ [.data d]) (k + 1) (64 * (k + 1)) := by
  obtain ⟨ds, hfs, hlen, hbytes⟩ := h
  refine ⟨ds ++ [d], by rw [hfs, List.map_append]; rfl, by rw [List.length_append, hlen]; rfl, ?_⟩
  intro j hj
  by_cases hlt : j < 64 * k
  · rw [streamByte_append _ _ (by rw [hlen]; exact hlt), hbytes j hlt]
  · have hdiv : j / 64 = ds.length := by omega
    have hmod : j % 64 = j - 64 * k := by omega
    unfold streamByte
    rw [hdiv, hmod, List.getD_append_right _ _ _ _ (Nat.le_refl _), Nat.sub_self]
    show byte d (j - 64 * k) = _
    rw [hd _ (by omega)]
    congr 2
    omega

/-- Signals that take no flit, write no line and count no data flit. -/
structure Waits (c : DramCtl) : Prop where
  reqRdy : c.reqRdy = false
  memWriteEn : c.memWriteEn = false
  storeHdrFlit : c.storeHdrFlit = false
  initMetadata : c.initMetadata = false
  updateMetadata : c.updateMetadata = false
  incrSentFlits : c.incrSentFlits = false

/-- A cycle of a load in which no data flit is sent. -/
theorem Loading.edge {done : List DramMsg} {m : DramMsg} {fs fs' : List RespFlit} {k : Nat}
    {c : DramCtl} (h : Loading P mem msgs done m fs k s) (hc : Waits c)
    (hout : ∀ out, s.out = out ++ fs → (s.edge P e c).out = out ++ fs') :
    Loading P mem msgs done m fs' k (s.edge P e c) := by
  obtain ⟨hsrc, hcur⟩ := edge_source (P := P) (s := s) (e := e) hc.reqRdy
  obtain ⟨out, hfs, hserved⟩ := h.out
  refine ⟨?_, h.load, ?_, hcur.trans h.cur, (edge_mem hc.memWriteEn).trans h.memory, h.more, ?_, ?_,
    out, hout out hfs, hserved⟩
  · rw [hsrc]
    exact h.msgs
  · rw [← h.hdr]
    simp [DramSystem.edge, DramController.next, hdrFlitNext, hc.storeHdrFlit]
  · rw [← h.count]
    simp [DramSystem.edge, DramController.next, hc.initMetadata, hc.incrSentFlits]
  · rw [← h.addr]
    simp [DramSystem.edge, DramController.next, hc.initMetadata, hc.updateMetadata]

/-- The signals with which a flit of a load is sent, if it is not the last one. -/
def sendFlit (st : DramState) : DramCtl :=
  { state := st, respVal := true, incrSentFlits := true, updateMetadata := true }

theorem advances_issue {done : List DramMsg} {m : DramMsg} {fs : List RespFlit} {k : Nat}
    (h : Loading P mem msgs done m fs k s) (hs : s.ctrl.state = .rdOpIssue) (hpend : s.pending = [])
    (hfs : if k = 0 then fs = [] else m.Sent P s.mem fs k (64 * k)) : Advances P mem msgs s e := by
  have hmr : (s.signals e).memRdy = e.memRdy := rfl
  have hrd := rdDataVal_nil (e := e) hpend
  cases hr : e.memRdy with
  | false =>
    have hctl : s.ctl e = { state := s.ctrl.state, memReadEn := true, storeMsgLen := true } := by
      simp [ctl, DramController.ctl, hs, hmr, hr]
    refine advances_wait hctl (edge_still ⟨rfl, rfl, rfl, rfl, rfl, rfl, rfl, rfl⟩ (by simp [takes])
      rfl (by simp [hr]) rfl hrd) ?_ (by simp [smooth, hr])
    exact .load done m fs k (h.withLen _) (.issue hs hpend hfs)
  | true =>
    have hctl : s.ctl e = { state := .rdOpWait, memReadEn := true, storeMsgLen := true } := by
      simp [ctl, DramController.ctl, hs, hmr, hr]
    rw [Advances, cycle, hctl]
    have hmem := edge_mem (P := P) (s := s) (e := e)
      (c := { state := .rdOpWait, memReadEn := true, storeMsgLen := true }) rfl
    refine ⟨.load done m fs k (h.edge ⟨rfl, rfl, rfl, rfl, rfl, rfl⟩ ?_) (.wait rfl ?_ ?_ ?_), .inr ?_⟩
    · intro out hout
      rw [edge_out rfl, hout]
    · rw [hmem]
      simp [edge, pendingNext, hpend, hr]
      rfl
    · show (s.ctrl.hdrFlit.resp P).msgLen = _
      rw [h.hdr]
      exact if_pos h.load.type
    · rw [hmem]
      exact hfs
    · refine work_edge rfl ?_
      show 4 * ((s.ctrl.hdrFlit.dataSize.toNat + 63) / 64 - s.ctrl.readFlitsSent) + 2 < _
      simp only [workInHand, hs]
      omega

theorem advances_read {done : List DramMsg} {m : DramMsg} {fs : List RespFlit} {k : Nat}
    (hfit : m.Fits) (h : Loading P mem msgs done m fs k s) (hs : s.ctrl.state = .rdOpWait)
    (hpend : s.pending = [readLine 128 s.mem (s.ctrl.memAddr P)])
    (hlen : s.ctrl.respMsgLen = m.hdr.respMsgLen)
    (hfs : if k = 0 then fs = [] else m.Sent P s.mem fs k (64 * k)) : Advances P mem msgs s e := by
  have hrv : (s.signals e).rdDataVal = s.rdDataVal e := rfl
  cases hr : s.rdDataVal e with
  | false =>
    have hctl : s.ctl e = { state := s.ctrl.state } := by
      simp [ctl, DramController.ctl, hs, hrv, hr]
    have hans : e.answer = false := by simpa [rdDataVal, hpend] using hr
    refine advances_wait hctl (edge_still ⟨rfl, rfl, rfl, rfl, rfl, rfl, rfl, rfl⟩ (by simp [takes])
      rfl rfl rfl hr) ?_ (by simp [smooth, hans])
    exact .load done m fs k (h.withLen _) (.wait hs hpend hlen hfs)
  | true =>
    have hmore := h.more
    have hle := flits_le h.load hfit
    have hfirst := firstRd_iff h.hdr (by omega) h.addr
    have hctl : s.ctl e =
        { state := if k = 0 then .rdHdrFlit else .rdPayloadResp, storeRdData := true } := by
      simp [ctl, DramController.ctl, hs, hrv, hr, hfirst]
    have hdata : (s.signals e).rdData = readLine 128 s.mem (s.ctrl.memAddr P) := by
      simp [signals, hr, hpend]
    rw [Advances, cycle, hctl]
    have hmem := edge_mem (P := P) (s := s) (e := e)
      (c := { state := if k = 0 then .rdHdrFlit else .rdPayloadResp, storeRdData := true }) rfl
    have hpend' : (s.edge P e { state := if k = 0 then .rdHdrFlit else .rdPayloadResp
                                storeRdData := true }).pending = [] := by
      simp [edge, pendingNext, hr, hpend]
    have hline : HasLine P (s.edge P e { state := if k = 0 then .rdHdrFlit else .rdPayloadResp
                                         storeRdData := true }) := by
      rw [HasLine, hmem]
      exact hdata
    refine ⟨.load done m fs k (h.edge ⟨rfl, rfl, rfl, rfl, rfl, rfl⟩ ?_) ?_, .inr ?_⟩
    · intro out hout
      rw [edge_out rfl, hout]
    · by_cases hk : k = 0
      · rw [if_pos hk] at hfs
        exact .hdr (if_pos hk) hk hpend' hlen hline hfs
      · rw [if_neg hk] at hfs
        exact .payload (if_neg hk) hpend' hlen hline (by rw [hmem]; exact hfs)
    · refine work_edge rfl ?_
      by_cases hk : k = 0
      · rw [if_pos hk]
        show 4 * ((s.ctrl.hdrFlit.dataSize.toNat + 63) / 64 - s.ctrl.readFlitsSent) + 1 < _
        simp only [workInHand, hs]
        omega
      · rw [if_neg hk]
        show 4 * ((s.ctrl.hdrFlit.dataSize.toNat + 63) / 64 - s.ctrl.readFlitsSent) < _
        simp only [workInHand, hs]
        omega

theorem advances_hdr {done : List DramMsg} {m : DramMsg} (h : Loading P mem msgs done m [] 0 s)
    (hs : s.ctrl.state = .rdHdrFlit) (hpend : s.pending = [])
    (hlen : s.ctrl.respMsgLen = m.hdr.respMsgLen) (hline : HasLine P s) :
    Advances P mem msgs s e := by
  have hrr : (s.signals e).respRdy = e.respRdy := rfl
  cases hr : e.respRdy with
  | false =>
    have hctl : s.ctl e = { state := s.ctrl.state, respVal := true, sendHdrFlit := true } := by
      simp [ctl, DramController.ctl, hs, hrr, hr]
    refine advances_wait hctl (edge_still ⟨rfl, rfl, rfl, rfl, rfl, rfl, rfl, rfl⟩ (by simp [takes])
      rfl rfl (by simp [hr]) (rdDataVal_nil hpend)) ?_ (by simp [smooth, hr])
    exact .load done m [] 0 (h.withLen _) (.hdr hs rfl hpend hlen hline rfl)
  | true =>
    have hctl : s.ctl e = { state := .rdPayloadResp, respVal := true, sendHdrFlit := true } := by
      simp [ctl, DramController.ctl, hs, hrr, hr]
    rw [Advances, cycle, hctl]
    have hmem := edge_mem (P := P) (s := s) (e := e)
      (c := { state := .rdPayloadResp, respVal := true, sendHdrFlit := true }) rfl
    have hflit : s.ctrl.respFlit P { state := .rdPayloadResp, respVal := true, sendHdrFlit := true } =
        .hdr (m.hdr.resp P) := by
      rw [← h.hdr]
      rfl
    refine ⟨.load done m [.hdr (m.hdr.resp P)] 0 (h.edge ⟨rfl, rfl, rfl, rfl, rfl, rfl⟩ ?_)
      (.payload rfl (edge_pending rfl hpend) hlen ?_ ?_), .inr ?_⟩
    · intro out hout
      rw [edge_sends rfl hr, hflit, hout, List.append_nil]
    · rw [HasLine, hmem]
      exact hline
    · exact ⟨[], rfl, rfl, fun j hj => absurd hj (Nat.not_lt_zero j)⟩
    · refine work_edge rfl ?_
      show 4 * ((s.ctrl.hdrFlit.dataSize.toNat + 63) / 64 - s.ctrl.readFlitsSent) < _
      simp only [workInHand, hs]
      omega

/-- The flit that is sent holds the next bytes of the memory. -/
theorem sent_flit {done : List DramMsg} {m : DramMsg} {fs : List RespFlit} {k : Nat}
    (h : Loading P mem msgs done m fs k s) (hline : HasLine P s)
    (hfs : m.Sent P s.mem fs k (64 * k)) :
    m.Sent P s.mem (fs ++ [.data s.ctrl.readFlit]) (k + 1) (64 * (k + 1)) := by
  have ha := h.load.aligned
  refine sent_push hfs fun j hj => ?_
  exact byte_readFlit h.addr (by omega) hline hj

/-- The last flit of a load. -/
theorem advances_last {done : List DramMsg} {m : DramMsg} {fs : List RespFlit} {k : Nat}
    (h : Loading P mem msgs done m fs k s) (hs : s.ctrl.state = .rdPayloadResp)
    (hpend : s.pending = []) (hline : HasLine P s) (hfs : m.Sent P s.mem fs k (64 * k)) (hr : e.respRdy = true)
    (hend : k + 1 = m.flits) (hlast : s.ctrl.lastRespFlit = true) : Advances P mem msgs s e := by
  have hrr : (s.signals e).respRdy = e.respRdy := rfl
  have hctl : s.ctl e = { state := .ready, respVal := true, incrSentFlits := true } := by
    simp [ctl, DramController.ctl, hs, hrr, hr, hlast]
  have hstore : ¬ m.IsStore := by
    rw [DramMsg.IsStore, h.load.type]
    decide
  have hanswer : m.Answer P (memAfter P mem done) (fs ++ [.data s.ctrl.readFlit]) := by
    rw [DramMsg.Answer, if_neg hstore, ← h.memory]
    obtain ⟨ds, hds, hlen, hbytes⟩ := sent_flit h hline hfs
    have hflits := flits_eq m
    exact ⟨ds, hds, hlen.trans hend, fun j hj => hbytes j (by omega)⟩
  rw [Advances, cycle, hctl]
  obtain ⟨hsrc, hcur⟩ := edge_source (P := P) (s := s) (e := e)
    (c := { state := .ready, respVal := true, incrSentFlits := true }) rfl
  refine ⟨.ready (done ++ [m]) rfl ?_ (hcur.trans h.cur) (edge_pending rfl hpend) ?_ ?_, .inr ?_⟩
  · rw [hsrc, List.append_assoc]
    exact h.msgs
  · rw [edge_mem rfl, memAfter_snoc, DramMsg.after, if_neg hstore]
    exact h.memory
  · obtain ⟨out, hout, hserved⟩ := h.out
    rw [edge_sends rfl hr, hout, List.append_assoc]
    exact .more hserved hanswer
  · refine work_edge rfl ?_
    have hn := flits_of_hdr h.hdr
    show 0 < _
    simp only [workInHand, hs, hn, h.count]
    omega

/-- A flit of a load with more to come. -/
theorem advances_more {done : List DramMsg} {m : DramMsg} {fs : List RespFlit} {k : Nat}
    (hle : m.flits ≤ 2 ^ 22) (h : Loading P mem msgs done m fs k s)
    (hs : s.ctrl.state = .rdPayloadResp) (hpend : s.pending = [])
    (hlen : s.ctrl.respMsgLen = m.hdr.respMsgLen) (hline : HasLine P s)
    (hfs : m.Sent P s.mem fs k (64 * k)) (hr : e.respRdy = true) (hmore : k + 1 < m.flits)
    (hlast : s.ctrl.lastRespFlit = false) : Advances P mem msgs s e := by
  have hrr : (s.signals e).respRdy = e.respRdy := rfl
  have hn := flits_of_hdr h.hdr
  have haddr : s.ctrl.opAddrAfter false = (m.addr + 64 * (k + 1)) % 2 ^ 48 := by
    simp only [opAddrAfter, Bool.false_eq_true, if_false, h.addr]
    omega
  have hcount : (s.ctrl.readFlitsSent + 1) % 2 ^ 22 = k + 1 := by
    rw [h.count]
    omega
  have hctl : s.ctl e = sendFlit (if s.ctrl.readNewLine then .rdOpIssue else .rdPayloadResp) := by
    simp [ctl, DramController.ctl, hs, hrr, hr, hlast, sendFlit]
  have hmem : ∀ st, (s.edge P e (sendFlit st)).mem = s.mem := fun st => edge_mem rfl
  have hloading : ∀ st, Loading P mem msgs done m (fs ++ [.data s.ctrl.readFlit]) (k + 1)
      (s.edge P e (sendFlit st)) := by
    intro st
    obtain ⟨hsrc, hcur⟩ := edge_source (P := P) (s := s) (e := e) (c := sendFlit st) rfl
    refine ⟨by rw [hsrc]; exact h.msgs, h.load, h.hdr, hcur.trans h.cur, (hmem st).trans h.memory,
      hmore, hcount, haddr, ?_⟩
    obtain ⟨out, hout, hserved⟩ := h.out
    refine ⟨out, ?_, hserved⟩
    rw [edge_sends rfl hr, hout, List.append_assoc]
    rfl
  have hsent := sent_flit h hline hfs
  rw [Advances, cycle, hctl]
  cases hnew : s.ctrl.readNewLine with
  | true =>
    refine ⟨.load done m _ (k + 1) (hloading .rdOpIssue)
      (.issue rfl (edge_pending rfl hpend) ?_), .inr (work_edge rfl ?_)⟩
    · rw [if_neg (by omega), hmem]
      exact hsent
    · show 4 * ((s.ctrl.hdrFlit.dataSize.toNat + 63) / 64 - (s.ctrl.readFlitsSent + 1) % 2 ^ 22) + 3 < _
      simp only [workInHand, hs, hn, h.count]
      omega
  | false =>
    -- the line goes on, so the register still holds it
    have hline' : HasLine P (s.edge P e (sendFlit .rdPayloadResp)) := by
      have hsame : s.ctrl.opAddrAfter false / 128 = s.ctrl.lineAddr := by
        simpa [readNewLine] using hnew
      have hma : (s.edge P e (sendFlit .rdPayloadResp)).ctrl.memAddr P = s.ctrl.memAddr P := by
        show s.ctrl.opAddrAfter false / 128 % _ = _
        rw [hsame]
        rfl
      rw [HasLine, hma, hmem]
      exact hline
    refine ⟨.load done m _ (k + 1) (hloading .rdPayloadResp)
      (.payload rfl (edge_pending rfl hpend) hlen hline' ?_), .inr (work_edge rfl ?_)⟩
    · rw [hmem]
      exact hsent
    · show 4 * ((s.ctrl.hdrFlit.dataSize.toNat + 63) / 64 - (s.ctrl.readFlitsSent + 1) % 2 ^ 22) < _
      simp only [workInHand, hs, hn, h.count]
      omega

theorem advances_payload {done : List DramMsg} {m : DramMsg} {fs : List RespFlit} {k : Nat}
    (hfit : m.Fits) (h : Loading P mem msgs done m fs k s) (hs : s.ctrl.state = .rdPayloadResp)
    (hpend : s.pending = []) (hlen : s.ctrl.respMsgLen = m.hdr.respMsgLen) (hline : HasLine P s)
    (hfs : m.Sent P s.mem fs k (64 * k)) : Advances P mem msgs s e := by
  have hrr : (s.signals e).respRdy = e.respRdy := rfl
  have hmore := h.more
  have hle := flits_le h.load hfit
  have hiff := lastRespFlit_iff (by omega) hle hlen
  rw [h.count] at hiff
  cases hr : e.respRdy with
  | false =>
    have hctl : s.ctl e = { state := s.ctrl.state, respVal := true } := by
      simp [ctl, DramController.ctl, hs, hrr, hr]
    refine advances_wait hctl (edge_still ⟨rfl, rfl, rfl, rfl, rfl, rfl, rfl, rfl⟩ (by simp [takes])
      rfl rfl (by simp [hr]) (rdDataVal_nil hpend)) ?_ (by simp [smooth, hr])
    exact .load done m fs k (h.withLen _) (.payload hs hpend hlen hline hfs)
  | true =>
    cases hlast : s.ctrl.lastRespFlit with
    | true => exact advances_last h hs hpend hline hfs hr (hiff.mp hlast) hlast
    | false =>
      have hne : k + 1 ≠ m.flits := fun hend => by
        rw [hiff.mpr hend] at hlast
        cases hlast
      exact advances_more hle h hs hpend hlen hline hfs hr (by omega) hlast

/-! ### Whole runs -/

theorem Phase.advances (hwf : ∀ m ∈ msgs, m.WellFormed) (hfit : ∀ m ∈ msgs, m.Fits)
    (h : Phase P mem msgs s) : Advances P mem msgs s e := by
  cases h with
  | ready done hs hm hcur hpend hmem hout =>
    exact advances_ready hwf hs hm hcur hpend hmem hout
  | store done m h hat =>
    cases hat with
    | first hs hcur hcount haddr hleft hmem => exact advances_first h hs hcur hcount haddr hleft hmem
    | copy q hs hq hcur hcount haddr hleft hsave hmask hmem =>
      exact advances_copy h hs hq hcur hcount haddr hleft hsave hmask hmem
    | drain q hs hq hcur hmore haddr hsave hmask hmem =>
      exact advances_drain h hs hq hcur hmore haddr hsave hmask hmem
    | resp hs hcur hmem => exact advances_resp h hs hcur hmem
  | load done m fs k h hat =>
    have hf : m.Fits := hfit m (by rw [h.msgs]; exact List.mem_append_right _ List.mem_cons_self)
    cases hat with
    | issue hs hpend hfs => exact advances_issue h hs hpend hfs
    | wait hs hpend hlen hfs => exact advances_read hf h hs hpend hlen hfs
    | hdr hs hk hpend hlen hline hfs =>
      subst hk hfs
      exact advances_hdr h hs hpend hlen hline
    | payload hs hpend hlen hline hfs => exact advances_payload hf h hs hpend hlen hline hfs

theorem phase_of_reach (hwf : ∀ m ∈ msgs, m.WellFormed) (hfit : ∀ m ∈ msgs, m.Fits)
    (h : Reach (fun t => t.Init mem msgs) (step P) Free s) : Phase P mem msgs s := by
  refine h.invariant ?_ ?_
  · rintro t ⟨hc, hmem, hpend, hsrc, hcur, hout⟩
    refine .ready [] (by rw [hc]; rfl) hsrc.symm hcur hpend hmem ?_
    rw [hout]
    exact .none
  · intro t e t' hp _ hs
    cases hs
    exact (hp.advances hwf hfit).1

theorem begun_of_sent {m : DramMsg} {fs : List RespFlit} {k : Nat}
    (h : if k = 0 then fs = [] else m.Sent P mem fs k (64 * k)) :
    fs = [] ∨ m.Sent P mem fs k (64 * k) := by
  split at h
  · exact .inl h
  · exact .inr h

/-- What was stored and sent at any time. -/
theorem Phase.progress (h : Phase P mem msgs s) : Progress P mem msgs s := by
  cases h with
  | ready done hs hm hcur hpend hmem hout => exact .idle done hm hmem hout
  | store done m h hat =>
    have hflits := flits_eq m
    cases hat with
    | first hs hcur hcount haddr hleft hmem =>
      exact .store done m 0 (by rw [hs]; decide) h.msgs h.store.type (Nat.zero_le _) hmem h.out
    | copy q hs hq hcur hcount haddr hleft hsave hmask hmem =>
      refine .store done m _ (by rw [hs]; decide) h.msgs h.store.type ?_ hmem h.out
      unfold DramMsg.upTo
      omega
    | drain q hs hq hcur hmore haddr hsave hmask hmem =>
      exact .store done m _ (by rw [hs]; decide) h.msgs h.store.type hmore.le hmem h.out
    | resp hs hcur hmem =>
      exact .store done m _ (by rw [hs]; decide) h.msgs h.store.type (Nat.le_refl _) hmem h.out
  | load done m fs k h hat =>
    obtain ⟨out, hout, hserved⟩ := h.out
    have hboth : s.ctrl.state ≠ .ready ∧ (fs = [] ∨ m.Sent P s.mem fs k (64 * k)) := by
      cases hat with
      | issue hs hpend hfs => exact ⟨by rw [hs]; decide, begun_of_sent hfs⟩
      | wait hs hpend hlen hfs => exact ⟨by rw [hs]; decide, begun_of_sent hfs⟩
      | hdr hs hk hpend hlen hline hfs => exact ⟨by rw [hs]; decide, .inl hfs⟩
      | payload hs hpend hlen hline hfs => exact ⟨by rw [hs]; decide, .inr hfs⟩
    exact .load done m out fs k hboth.1 h.msgs h.load.type h.more.le h.memory hout hserved hboth.2

/-- Nothing is left to do: every message was served. -/
theorem Phase.served (h : Phase P mem msgs s) (hdone : s.Done) :
    Served P mem msgs s.out ∧ s.mem = memAfter P mem msgs := by
  obtain ⟨hready, hsrc, -⟩ := hdone
  cases h.progress with
  | idle done hm hmem hout =>
    rw [hsrc, List.append_nil] at hm
    rw [hm]
    exact ⟨hout, hmem⟩
  | store done m p hb => exact absurd hready hb
  | load done m out fs k hb => exact absurd hready hb

/-- Nothing is left to do, and no read is pending. -/
def Rests (s : DramSystem) : Prop := s.Done ∧ s.pending = []

theorem Rests.cycle (h : s.Rests) : s.cycle P e = s := by
  obtain ⟨⟨hs, hsrc, hcur⟩, hpend⟩ := h
  exact ready_waits hs hpend (by simp [signals, nextFlit, hcur, hsrc])

theorem Phase.rests (h : Phase P mem msgs s) (hdone : s.Done) : s.Rests := by
  refine ⟨hdone, ?_⟩
  cases h with
  | ready done hs hm hcur hpend => exact hpend
  | store done m h hat => exact h.pending
  | load done m fs k h hat =>
    have hr := hdone.1
    cases hat with
    | issue hs hpend => exact hpend
    | wait hs => rw [hs] at hr; cases hr
    | hdr hs hk hpend => exact hpend
    | payload hs hpend => exact hpend

theorem sum_workOf {done : List DramMsg} {m : DramMsg} (h : msgs = done ++ m :: s.src) :
    (msgs.map workOf).sum =
      (done.map workOf).sum + ((4 * m.flits + 4) + (s.src.map workOf).sum) := by
  rw [h, List.map_append, List.sum_append, List.map_cons, List.sum_cons]
  rfl

theorem Phase.work_le (h : Phase P mem msgs s) : s.work ≤ (msgs.map workOf).sum := by
  cases h with
  | ready done hs hm =>
    rw [hm, List.map_append, List.sum_append]
    simp only [work, workInHand, hs]
    omega
  | store done m h hat =>
    have hn := flits_of_hdr h.hdr
    rw [sum_workOf h.msgs, work]
    cases hat with
    | first hs => simp only [workInHand, hs, hn]; omega
    | copy q hs => simp only [workInHand, hs, hn]; omega
    | drain q hs => simp only [workInHand, hs]; omega
    | resp hs => simp only [workInHand, hs]; omega
  | load done m fs k h hat =>
    have hn := flits_of_hdr h.hdr
    rw [sum_workOf h.msgs, work]
    cases hat with
    | issue hs => simp only [workInHand, hs, hn]; omega
    | wait hs => simp only [workInHand, hs, hn]; omega
    | hdr hs => simp only [workInHand, hs, hn]; omega
    | payload hs => simp only [workInHand, hs, hn]; omega

/-- A run with as many favourable cycles as the messages take leaves nothing to do. -/
theorem Phase.finishes (hwf : ∀ m ∈ msgs, m.WellFormed) (hfit : ∀ m ∈ msgs, m.Fits)
    (h : Phase P mem msgs s) {es : List DramEnv} {s' : DramSystem}
    (hr : run (step P) Free s es = some s')
    (ht : (msgs.map workOf).sum < tally (step P) smooth s es) : s'.Rests := by
  refine run_finishes (F := Rests) (I := Phase P mem msgs) work ?_ ?_ ?_ h hr
    (Nat.lt_of_le_of_lt h.work_le ht)
  · intro t e t' hp _ hs
    cases hs
    exact (hp.advances hwf hfit).1
  · intro t e t' hrest hs
    cases hs
    rw [hrest.cycle]
    exact hrest
  · intro t e t' hp _ hs
    cases hs
    rcases (hp.advances (e := e) hwf hfit).2 with hdone | hless
    · have hrest := hp.rests hdone
      rw [hrest.cycle]
      exact .inl hrest
    · exact .inr hless

end DramSystem

open DramSystem in
/-- In every run the memory and the responses are those of a memory of bytes that serves the messages
one after the other: a store changes exactly its bytes and a load is answered with the bytes that
were stored last. With enough favourable cycles all messages are served. -/
theorem dram_is_byte_memory {P : DramParams} {mem : Memory} {msgs : List DramMsg} {s : DramSystem}
    (hwf : ∀ m ∈ msgs, m.WellFormed) (hfit : ∀ m ∈ msgs, m.Fits)
    (h : Reach (fun t => t.Init mem msgs) (step P) Free s) :
    Progress P mem msgs s ∧
      (∀ m ∈ msgs, m.IsStore → ∀ mem', m.StoredExactly P mem' (m.after P mem')) ∧
      ∀ es s', run (step P) Free s es = some s' →
        (msgs.map workOf).sum < tally (step P) smooth s es →
        Served P mem msgs s'.out ∧ s'.mem = memAfter P mem msgs := by
  have hphase := phase_of_reach hwf hfit h
  refine ⟨hphase.progress, fun m _ hs mem' => DramMsg.after_exact hs, fun es s' hr ht => ?_⟩
  have hphase' := phase_of_reach hwf hfit (h.of_run hr)
  exact hphase'.served (hphase.finishes hwf hfit hr ht).1

/-- A header flit. -/
def dramHdr (msgType msgLen addr size : Nat) : Line :=
  BitVec.ofNat _ (msgLen * 2 ^ 200 + msgType * 2 ^ 192 + addr * 2 ^ 144 + size * 2 ^ 80)

/-- Three bytes across the end of a line, and a load of the last of them. -/
def acrossLines : List DramMsg :=
  [⟨dramHdr 20 1 126 3, [lineOf 64 fun j => BitVec.ofNat 8 (j + 1)]⟩, ⟨dramHdr 19 0 128 1, []⟩]

def smallDram : DramParams := ⟨12, 1, 2⟩

def DramSystem.reset (mem : Memory) (msgs : List DramMsg) : DramSystem :=
  ⟨.reset, mem, [], msgs, [], []⟩

open DramSystem in
theorem dram_is_byte_memory_across_lines : ∃ s,
    Reach (fun t => t.Init (fun _ => 0) acrossLines) (step smallDram) Free s ∧
    (s.ctrl.state = .ready ∧ s.src = [] ∧ s.out.length = 3 ∧
      (s.mem 125, s.mem 126, s.mem 127, s.mem 128, s.mem 129) = (0, 1, 2, 3, 0)) ∧
    Progress smallDram (fun _ => 0) acrossLines s := by
  have hrun : ∃ s, Reach (fun t => t.Init (fun _ => 0) acrossLines) (step smallDram) Free s ∧
      decide (s.ctrl.state = .ready ∧ s.src = [] ∧ s.out.length = 3 ∧
        (s.mem 125, s.mem 126, s.mem 127, s.mem 128, s.mem 129) = (0, 1, 2, 3, 0)) = true :=
    Reach.exists_of_run (List.replicate 9 DramEnv.calm) (s := reset (fun _ => 0) acrossLines)
      ⟨rfl, rfl, rfl, rfl, rfl, rfl⟩ (by decide +kernel)
  obtain ⟨s, hs, hp⟩ := hrun
  refine ⟨s, hs, of_decide_eq_true hp, (dram_is_byte_memory ?_ ?_ hs).1⟩
  · intro m hm
    simp only [acrossLines, List.mem_cons, List.not_mem_nil, or_false] at hm
    rcases hm with rfl | rfl
    · exact .inl ⟨by decide +kernel, by decide +kernel, by decide +kernel, by decide +kernel⟩
    · exact .inr ⟨by decide +kernel, by decide +kernel, by decide +kernel, rfl⟩
  · intro m hm
    simp only [acrossLines, List.mem_cons, List.not_mem_nil, or_false] at hm
    rcases hm with rfl | rfl
    · exact fun _ => by decide +kernel
    · exact fun _ => by decide +kernel

/-! ### A load that is too long to be counted -/

/-- The flits of the response. -/
def DramMsg.respFlits (m : DramMsg) : Nat := if m.IsStore then 1 else m.flits + 1

theorem Served.length_out {P : DramParams} {mem : Memory} {msgs : List DramMsg} {out : List RespFlit}
    (h : Served P mem msgs out) : out.length = (msgs.map DramMsg.respFlits).sum := by
  induction h with
  | none => rfl
  | @more msgs out fs m h hm ih =>
    have hfs : fs.length = m.respFlits := by
      unfold DramMsg.Answer at hm
      unfold DramMsg.respFlits
      split at hm
      · rename_i hs
        rw [hm, if_pos hs]
        rfl
      · rename_i hs
        obtain ⟨ds, rfl, hlen, -⟩ := hm
        rw [if_neg hs, List.length_cons, List.length_map, hlen]
    rw [List.length_append, ih, hfs, List.map_append, List.sum_append, List.map_singleton,
      List.sum_singleton]

/-- A load of `2 ^ 28 + 1` bytes. -/
def longLoad : DramMsg := ⟨dramHdr 19 0 0 (2 ^ 28 + 1), []⟩

open DramSystem in
/-- The number of its flits does not fit into the field of the response: one flit is sent instead of
`2 ^ 22 + 1`. -/
theorem dram_long_load_cut : longLoad.WellFormed ∧ ∃ s,
    Reach (fun t => t.Init (fun _ => 0) [longLoad]) (step smallDram) Free s ∧ s.Done ∧
    s.out.length = 2 ∧ ¬ Progress smallDram (fun _ => 0) [longLoad] s := by
  have hload : longLoad.Load :=
    ⟨by decide +kernel, by decide +kernel, by decide +kernel, rfl⟩
  have hrun : ∃ s, Reach (fun t => t.Init (fun _ => 0) [longLoad]) (step smallDram) Free s ∧
      decide ((s.ctrl.state = .ready ∧ s.src = [] ∧ s.cur = []) ∧ s.out.length = 2) = true :=
    Reach.exists_of_run (List.replicate 5 DramEnv.calm) (s := reset (fun _ => 0) [longLoad])
      ⟨rfl, rfl, rfl, rfl, rfl, rfl⟩ (by decide +kernel)
  obtain ⟨s, hs, hp⟩ := hrun
  obtain ⟨hdone, hlen⟩ := of_decide_eq_true hp
  refine ⟨.inr hload, s, hs, hdone, hlen, fun hprog => ?_⟩
  cases hprog with
  | idle done hm hmem hout =>
    rw [hdone.2.1, List.append_nil] at hm
    have hcount := hout.length_out
    rw [← hm, hlen] at hcount
    exact absurd hcount (by decide +kernel)
  | store done m p hb => exact hb hdone.1
  | load done m out fs k hb => exact hb hdone.1

end TcpHw
