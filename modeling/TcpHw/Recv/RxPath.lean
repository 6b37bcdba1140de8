import TcpHw.Lib.Ring
import TcpHw.Lib.Trace
import TcpHw.Recv.EstCompute

/-!
# The receive path at packet granularity

A packet of an established flow is decided by `est_pipe`, queued in
`rx_store_buf_q`, and copied by `rx_payload_store_buf_cp` into the flow's ring at
the commit pointer. Each of these is one step here, as is a head-pointer update of
the application. All flows share the queue. A packet travels together with the
contents of the slab that `tcp_tmp_rx_buf` allocated for it.
-/
namespace TcpHw.RxPath

open Trace

set_option autoImplicit false

abbrev Byte := BitVec 8

/-- Entries of `rx_store_buf_q`. -/
abbrev storeBufQEls : Nat := 32

/-- A packet and the bytes of its slab. -/
structure RxPkt where
  pkt : EstPkt
  slab : List Byte
  length_eq : slab.length = pkt.payloadEntry.payloadLen.toNat

/-- An entry of `rx_store_buf_q` and the bytes of its slab. -/
structure QEntry where
  entry : RxStoreBufQ
  slab : List Byte
  length_eq : slab.length = entry.payloadEntry.payloadLen.toNat

/-- The receive memories of all flows and the queue between the two pipes. A flow's
memories hold nothing meaningful until it is `live`. `startAck` and `committed` are not
registers: they record the initial acknowledgement number and every byte copied so far. -/
structure Path where
  live : FlowId → Bool
  recvState : FlowId → RecvState
  headPtr : FlowId → Ptr
  tailPtr : FlowId → Ptr
  commitPtr : FlowId → Ptr
  ring : FlowId → BitVec 12 → Byte
  queue : List QEntry
  startAck : FlowId → BitVec 32
  committed : FlowId → List Byte

inductive RxAct where
  | newFlow (f : FlowId) (ackNum : BitVec 32)
  | packet (p : RxPkt) (tx : TxState)
  | copyOut
  | appHead (f : FlowId) (headPtr : Ptr)

def Path.ackNum (s : Path) (f : FlowId) : BitVec 32 := (s.recvState f).rxCurrAckNum

/-- `rx_state_init` of `rx_fsm_pipe`; `tcp_engine_wrapper` ties the initial pointers to 0. -/
def Path.newFlow (s : Path) (f : FlowId) (n : BitVec 32) : Path :=
  { s with
    live := Function.update s.live f true
    recvState := Function.update s.recvState f { rxCurrAckNum := n, rxCurrWndSize := 0x1000#16 }
    headPtr := Function.update s.headPtr f 0
    tailPtr := Function.update s.tailPtr f 0
    commitPtr := Function.update s.commitPtr f 0
    startAck := Function.update s.startAck f n }

/-- Stage C of `est_pipe` on the memories of the packet's flow. The transmit state is
whatever its own memories return; the receive half does not depend on it. -/
def Path.estNext (s : Path) (p : EstPkt) (tx : TxState) : EstNext :=
  estCompute (s.recvState p.flowid) tx.txCurrSeqNum tx.txCurrAckState (s.headPtr p.flowid)
    (s.tailPtr p.flowid) p

/-- The queue entry of stage W. -/
def Path.qEntry (s : Path) (p : RxPkt) (tx : TxState) : QEntry where
  entry :=
    { flowid := p.pkt.flowid
      acceptPayload := (s.estNext p.pkt tx).acceptPayload
      payloadEntry := p.pkt.payloadEntry }
  slab := p.slab
  length_eq := p.length_eq

/-- `est_pipe` on one packet, up to the writes of stage W. -/
def Path.packet (s : Path) (p : RxPkt) (tx : TxState) : Path :=
  { s with
    recvState :=
      Function.update s.recvState p.pkt.flowid (s.estNext p.pkt tx).nextRecvState
    tailPtr :=
      if (s.estNext p.pkt tx).acceptPayload then
        Function.update s.tailPtr p.pkt.flowid (s.estNext p.pkt tx).nextTailPtr
      else s.tailPtr
    queue :=
      if 0 < p.pkt.payloadEntry.payloadLen.toNat then s.queue ++ [s.qEntry p tx]
      else s.queue }

/-- `rx_payload_store_buf_cp` on an entry it accepts: the slab goes to the ring at the
commit pointer, which then moves past it. -/
def Path.commit (s : Path) (e : QEntry) : Path :=
  { s with
    ring :=
      Function.update s.ring e.entry.flowid
        (Ring.write (s.ring e.entry.flowid) ((s.commitPtr e.entry.flowid).setWidth 12) e.slab)
    commitPtr :=
      Function.update s.commitPtr e.entry.flowid
        (s.commitPtr e.entry.flowid + e.entry.payloadEntry.payloadLen.setWidth 13)
    committed :=
      Function.update s.committed e.entry.flowid (s.committed e.entry.flowid ++ e.slab) }

/-- One entry of the queue: a zero length or a payload that was not accepted only frees
the slab. -/
def Path.copyOut (s : Path) (e : QEntry) (q : List QEntry) : Path :=
  if e.entry.payloadEntry.payloadLen == 0 || !e.entry.acceptPayload then { s with queue := q }
  else { s.commit e with queue := q }

/-- The application releases bytes, at most the committed ones. -/
def appHeadOk (s : Path) (f : FlowId) (h : Ptr) : Prop :=
  (h - s.headPtr f).toNat ≤ (s.commitPtr f - s.headPtr f).toNat

instance (s : Path) (f : FlowId) (h : Ptr) : Decidable (appHeadOk s f h) :=
  inferInstanceAs (Decidable (_ ≤ _))

/-- One step of the path. A flow is initialised once, its packets come afterwards, and a
full queue holds `est_pipe` back. -/
def rxStep (s : Path) : RxAct → Option Path
  | .newFlow f n => if s.live f then none else some (s.newFlow f n)
  | .packet p tx =>
    if s.live p.pkt.flowid ∧ s.queue.length < storeBufQEls then some (s.packet p tx) else none
  | .copyOut =>
    match s.queue with
    | [] => none
    | e :: q => some (s.copyOut e q)
  | .appHead f h =>
    if s.live f ∧ appHeadOk s f h then some { s with headPtr := Function.update s.headPtr f h }
    else none

/-- After reset no flow is live and nothing is queued; the memories hold anything. -/
def rxInit (s : Path) : Prop :=
  (∀ f, s.live f = false) ∧ s.queue = [] ∧ ∀ f, s.committed f = []

/-- The path after reset with cleared memories. -/
def emptyPath : Path where
  live _ := false
  recvState _ := default
  headPtr _ := 0
  tailPtr _ := 0
  commitPtr _ := 0
  ring _ _ := 0
  queue := []
  startAck _ := 0
  committed _ := []

theorem emptyPath_init : rxInit emptyPath := ⟨fun _ => rfl, rfl, fun _ => rfl⟩

/-- A data packet whose slab holds the given bytes. -/
def dataPkt (f : FlowId) (seq : BitVec 32) (bytes : List Byte) (h : bytes.length < 2 ^ 16) :
    RxPkt where
  pkt :=
    { flowid := f
      tcpHdr := { (default : TcpPktHdr) with seqNum := seq }
      payloadVal := true
      payloadEntry := { payloadAddr := 0, payloadLen := BitVec.ofNat 16 bytes.length } }
  slab := bytes
  length_eq := by rw [BitVec.toNat_ofNat, Nat.mod_eq_of_lt h]

/-! ### The accepted packets that wait to be copied -/

/-- The entry is an accepted one of flow `f`. -/
def QEntry.isFor (f : FlowId) (e : QEntry) : Bool :=
  e.entry.flowid == f && e.entry.acceptPayload

def QEntry.len (e : QEntry) : Nat := e.entry.payloadEntry.payloadLen.toNat

/-- Accepted bytes of flow `f` in the queue. -/
def waitingLen (f : FlowId) (q : List QEntry) : Nat :=
  ((q.filter (QEntry.isFor f)).map QEntry.len).sum

@[simp] theorem waitingLen_nil (f : FlowId) : waitingLen f [] = 0 := rfl

theorem waitingLen_cons (f : FlowId) (e : QEntry) (q : List QEntry) :
    waitingLen f (e :: q) = (if e.isFor f then e.len else 0) + waitingLen f q := by
  unfold waitingLen
  by_cases h : e.isFor f <;> simp [h]

theorem waitingLen_append (f : FlowId) (q r : List QEntry) :
    waitingLen f (q ++ r) = waitingLen f q + waitingLen f r := by
  simp [waitingLen]

theorem waitingLen_eq_zero {f : FlowId} {q : List QEntry}
    (h : ∀ e ∈ q, e.entry.flowid ≠ f) : waitingLen f q = 0 := by
  have hf : q.filter (QEntry.isFor f) = [] := by
    rw [List.filter_eq_nil_iff]
    intro e he
    simp [QEntry.isFor, h e he]
  simp [waitingLen, hf]

end TcpHw.RxPath
