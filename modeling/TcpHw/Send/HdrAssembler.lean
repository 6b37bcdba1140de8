import TcpHw.Ram
import TcpHw.Send.PipeStalls

/-!
# `hdr_assembler_pipe`

A descriptor passes the stages ACK (R)ead, (A)CK, (L)ookup, (T)CP header and (O)utput. The receive
state is asked for in stage R and taken in stage A, the addresses and ports are asked for in stage A
and taken in stage L. The pipe is ready for the next descriptor unless stage L is stalled, while the
first register loads unless stage R is stalled; the two agree because of the ready signals of the two
memories. The time at which a descriptor was taken and the histories of the memories are not hardware.
-/
namespace TcpHw

open Trace

set_option autoImplicit false

/-- A descriptor with the cycle in which it was taken. -/
structure TakenDesc where
  time : Nat
  desc : TxDescriptor

/-- `assembler_dst_tx_*` -/
structure TxPacket where
  flowid : FlowId
  srcIp : BitVec 32
  dstIp : BitVec 32
  tcpHdr : TcpPktHdr
  payload : PayloadBuf

/-- `tcp_hdr_assembler` -/
def tcpHdrAssembler (hostPort destPort : BitVec 16) (seqNum ackNum : BitVec 32) (flags : BitVec 9)
    (window : BitVec 16) : TcpPktHdr where
  srcPort := hostPort
  dstPort := destPort
  seqNum := seqNum
  ackNum := ackNum
  rawDataOffset := 5
  reserved := 0
  flags := flags
  winSize := window
  chksum := 0
  urgPointer := 0

/-- `win_size_t`: the window is never closed completely, so that the other side goes on sending. -/
def openWindow (wnd : BitVec 16) : BitVec 16 := if wnd = 0 then 1 else wnd

/-- The stages. -/
structure HdrAssemblerPipe where
  r : Option TakenDesc
  a : Option TakenDesc
  l : Option (TakenDesc × RecvState)
  t : Option (TakenDesc × RecvState × FourTuple)
  o : Option (TakenDesc × TxPacket)

/-- The packet that stage T assembles. -/
def assembledPacket (x : TakenDesc × RecvState × FourTuple) : TakenDesc × TxPacket :=
  (x.1,
    { flowid := x.1.desc.flowid
      srcIp := x.2.2.hostIp
      dstIp := x.2.2.destIp
      tcpHdr := tcpHdrAssembler x.2.2.hostPort x.2.2.destPort x.1.desc.seqNum x.2.1.rxCurrAckNum
        (tcpAck ||| tcpPsh) (openWindow x.2.1.rxCurrWndSize)
      payload := x.1.desc.payload })

namespace HdrAssemblerPipe

variable (p : HdrAssemblerPipe)

def stallO (dstRdy : Bool) : Bool := !dstRdy

/-- `tcp_hdr_req_rdy_t` is the ready of the output stage. -/
def stallT (dstRdy : Bool) : Bool := p.t.isSome && (stallO dstRdy || !!stallO dstRdy)

def stallL (dstRdy addrRespVal : Bool) : Bool := p.l.isSome && (p.stallT dstRdy || !addrRespVal)

def stallA (stallL recvRespVal addrReqRdy : Bool) : Bool :=
  p.a.isSome && (stallL || !recvRespVal || !addrReqRdy)

def stallR (stallA recvReqRdy : Bool) : Bool := p.r.isSome && (stallA || !recvReqRdy)

end HdrAssemblerPipe

/-- A packet that was taken by the destination, with its descriptor and the cycle. -/
structure SentPacket where
  taken : TakenDesc
  time : Nat
  pkt : TxPacket

/-- The pipe with its port of `rx_state_store` and with `flowid_to_addr`, the descriptors it has
taken, the packets that were sent, and what the memories held in each cycle. -/
structure AssemblerSystem where
  pipe : HdrAssemblerPipe
  recvCore : Ram.Core FlowId RecvState
  recvPort : Ram.Port FlowId
  addrCore : Ram.Core FlowId FourTuple
  addrPort : Ram.Port FlowId
  accepted : List TakenDesc
  sent : List SentPacket
  recvHist : List (FlowId → RecvState)
  addrHist : List (FlowId → FourTuple)

/-- What the surroundings do in one cycle: the descriptor that waits in `protocol_logic_pipe`, the
writes to the memories, and the ready of the destination. -/
structure AssemblerIn where
  offer : Option TxDescriptor
  recvWr : Option (FlowId × RecvState)
  newFlowRecv : Option (FlowId × RecvState)
  addrWr : Option (FlowId × FourTuple)
  dstRdy : Bool

/-- The write port of `rx_state_store`; a new flow comes first. -/
def AssemblerIn.memWr (i : AssemblerIn) : Option (FlowId × RecvState) := i.newFlowRecv.or i.recvWr

namespace AssemblerSystem

variable (s : AssemblerSystem) (i : AssemblerIn)

def now : Nat := s.recvHist.length

def stallT : Bool := s.pipe.stallT i.dstRdy

def stallL : Bool := s.pipe.stallL i.dstRdy s.addrPort.reg.isSome

/-- `flowid_lookup_assembler_rd_req_rdy` -/
def addrReqRdy : Bool := Ram.reqRdy s.addrPort.reg !s.stallL i

def stallA : Bool := s.pipe.stallA (s.stallL i) s.recvPort.reg.isSome (s.addrReqRdy i)

/-- `recv_state_send_pipe_rd_req_rdy` -/
def recvReqRdy : Bool := Ram.reqRdy s.recvPort.reg !s.stallA i

def stallR : Bool := s.pipe.stallR (s.stallA i) (s.recvReqRdy i)

/-- `assembler_main_pipe_tx_rdy`; `stall_i` is `stall_l`. -/
def txRdy : Bool := !s.stallL i

/-- `protocol_logic_pipe` is valid only when the pipe is ready. -/
def tx : Option TakenDesc := if s.txRdy i then i.offer.map (TakenDesc.mk s.now) else none

def rOut : Option TakenDesc := if s.stallR i then none else s.pipe.r

def aOut : Option (TakenDesc × RecvState) :=
  if s.stallA i then none else s.pipe.a.map fun d => (d, s.recvPort.respData s.recvCore)

def lOut : Option (TakenDesc × RecvState × FourTuple) :=
  if s.stallL i then none else s.pipe.l.map fun x => (x.1, x.2, s.addrPort.respData s.addrCore)

/-- The packet that the destination takes. -/
def oOut : Option (TakenDesc × TxPacket) := if i.dstRdy then s.pipe.o else none

def pipeNext : HdrAssemblerPipe where
  r := if s.stallR i then s.pipe.r else s.tx i
  a := if s.stallA i then s.pipe.a else s.rOut i
  l := if s.stallL i then s.pipe.l else s.aOut i
  t := if s.stallT i then s.pipe.t else s.lOut i
  o := if HdrAssemblerPipe.stallO i.dstRdy then s.pipe.o else s.pipe.t.map assembledPacket

/-- One clock edge. -/
def cycle : AssemblerSystem where
  pipe := s.pipeNext i
  recvCore := s.recvCore.step i.memWr
  recvPort := s.recvPort.step i.memWr (s.pipe.r.map fun d => d.desc.flowid) !s.stallA i
  addrCore := s.addrCore.step i.addrWr
  addrPort := s.addrPort.step i.addrWr (s.pipe.a.map fun d => d.desc.flowid) !s.stallL i
  accepted := s.accepted ++ (s.tx i).toList
  sent := s.sent ++ ((s.oOut i).map fun x => ⟨x.1, s.now, x.2⟩).toList
  recvHist := s.recvHist ++ [s.recvCore.mem]
  addrHist := s.addrHist ++ [s.addrCore.mem]

def step (s : AssemblerSystem) (i : AssemblerIn) : Option AssemblerSystem := some (s.cycle i)

/-- After reset; the memories hold anything. -/
def Init (s : AssemblerSystem) : Prop :=
  s.pipe = ⟨none, none, none, none, none⟩ ∧ s.recvPort.reg = none ∧ s.addrPort.reg = none ∧
    s.accepted = [] ∧ s.sent = [] ∧ s.recvHist = [] ∧ s.addrHist = []

end AssemblerSystem

/-! ### What a packet should be -/

/-- The value was in the memory for the flow in one of the cycles from `first` to `last`. -/
def ReadBetween {D : Type} (hist : List (FlowId → D)) (first last : Nat) (f : FlowId) (x : D) :
    Prop :=
  ∃ t m, first ≤ t ∧ t ≤ last ∧ hist[t]? = some m ∧ m f = x

/-- A packet belongs to its descriptor. The header has the ports and addresses of its flow and the
acknowledgement number and the window of one receive state of its flow; `win` is what becomes of
the window. -/
structure SentPacket.Belongs (win : BitVec 16 → BitVec 16) (s : AssemblerSystem) (x : SentPacket) :
    Prop where
  flowid : x.pkt.flowid = x.taken.desc.flowid
  payload : x.pkt.payload = x.taken.desc.payload
  seqNum : x.pkt.tcpHdr.seqNum = x.taken.desc.seqNum
  addr : ∃ a, ReadBetween s.addrHist x.taken.time x.time x.pkt.flowid a ∧ x.pkt.srcIp = a.hostIp ∧
    x.pkt.dstIp = a.destIp ∧ x.pkt.tcpHdr.srcPort = a.hostPort ∧ x.pkt.tcpHdr.dstPort = a.destPort
  recv : ∃ st, ReadBetween s.recvHist x.taken.time x.time x.pkt.flowid st ∧
    x.pkt.tcpHdr.ackNum = st.rxCurrAckNum ∧ x.pkt.tcpHdr.winSize = win st.rxCurrWndSize

/-- What the destination takes are the descriptors, in order and each once, each with its own
header; nothing is held back for ever while the destination gets ready again and again. -/
structure AssemblerSystem.LosesNothing (win : BitVec 16 → BitVec 16) (s : AssemblerSystem) :
    Prop where
  order : s.sent.map SentPacket.taken <+: s.accepted
  belongs : ∀ x ∈ s.sent, x.Belongs win s
  ends : ∀ sched, Fair (fun i (_ : Unit) => i.dstRdy = true) sched → ∃ n,
    s.accepted <+: (exec AssemblerSystem.cycle s sched n).sent.map SentPacket.taken

namespace AssemblerSystem

variable {s : AssemblerSystem} {i : AssemblerIn}

/-- The descriptors in the pipe, the oldest first. -/
def inFlight (s : AssemblerSystem) : List TakenDesc :=
  (s.pipe.o.map Prod.fst).toList ++ (s.pipe.t.map Prod.fst).toList ++
    (s.pipe.l.map Prod.fst).toList ++ s.pipe.a.toList ++ s.pipe.r.toList

/-- The value was read for the descriptor since it was taken. -/
def ReadSince {D : Type} (hist : List (FlowId → D)) (d : TakenDesc) (x : D) : Prop :=
  ∃ t m, d.time ≤ t ∧ hist[t]? = some m ∧ m d.desc.flowid = x

/-- Each port answers for the descriptor in the stage that takes the response. What a stage holds
was read since the descriptor was taken. -/
structure Inv (s : AssemblerSystem) : Prop where
  recvReg : s.recvPort.reg = s.pipe.a.map fun d => d.desc.flowid
  addrReg : s.addrPort.reg = s.pipe.l.map fun x => x.1.desc.flowid
  recvOk : Ram.Coherent s.recvCore s.recvPort
  addrOk : Ram.Coherent s.addrCore s.addrPort
  hist : s.addrHist.length = s.now
  order : s.sent.map SentPacket.taken ++ s.inFlight = s.accepted
  times : ∀ d ∈ s.accepted, d.time < s.now
  stageL : ∀ x ∈ s.pipe.l, ReadSince s.recvHist x.1 x.2
  stageT : ∀ x ∈ s.pipe.t, ReadSince s.recvHist x.1 x.2.1 ∧ ReadSince s.addrHist x.1 x.2.2
  stageO : ∀ x ∈ s.pipe.o, ∃ y, x = assembledPacket y ∧ ReadSince s.recvHist y.1 y.2.1 ∧
    ReadSince s.addrHist y.1 y.2.2
  belongs : ∀ x ∈ s.sent, x.Belongs openWindow s

/-! ### The stalls agree -/

theorem stallT_eq : s.stallT i = (s.pipe.t.isSome && !i.dstRdy) := by
  simp [stallT, HdrAssemblerPipe.stallT, HdrAssemblerPipe.stallO]

theorem Inv.stallL_eq (hi : s.Inv) : s.stallL i = (s.pipe.l.isSome && s.stallT i) := by
  simp only [stallL, HdrAssemblerPipe.stallL, hi.addrReg, stallT]
  cases s.pipe.l <;> simp

/-- Stage A is stalled by stage L only: the response is there, and the lookup takes a request. -/
theorem Inv.stallA_eq (hi : s.Inv) : s.stallA i = (s.pipe.a.isSome && s.stallL i) := by
  simp only [stallA, HdrAssemblerPipe.stallA, addrReqRdy, Ram.reqRdy, hi.recvReg]
  cases s.pipe.a with
  | none => rfl
  | some d => cases s.stallL i <;> simp

theorem stallR_eq : s.stallR i = (s.pipe.r.isSome && s.stallA i) := by
  simp only [stallR, HdrAssemblerPipe.stallR, recvReqRdy, Ram.reqRdy]
  cases s.stallA i <;> simp

/-! ### One cycle -/

/-- A stage that is stalled gets nothing, so nothing is lost or doubled there. -/
theorem stage_keeps {α : Type} {stall : Bool} {cur inp : Option α} (h : stall = true → inp = none) :
    (if stall then none else cur).toList ++ (if stall then cur else inp).toList =
      cur.toList ++ inp.toList := by
  cases stall with
  | false => rfl
  | true => simp [h rfl]

theorem map_ite {α β : Type} (b : Bool) (x y : Option α) (f : α → β) :
    (if b then x else y).map f = if b then x.map f else y.map f := by
  cases b <;> rfl

/-- The descriptor that leaves stage T. -/
def tOut (s : AssemblerSystem) (i : AssemblerIn) : Option TakenDesc :=
  if i.dstRdy then s.pipe.t.map Prod.fst else none

theorem stageO_keeps : ((s.oOut i).map Prod.fst).toList ++ ((s.pipeNext i).o.map Prod.fst).toList =
    (s.pipe.o.map Prod.fst).toList ++ (s.tOut i).toList := by
  have hmap : (s.pipe.t.map assembledPacket).map Prod.fst = s.pipe.t.map Prod.fst := by
    cases s.pipe.t <;> rfl
  cases hr : i.dstRdy with
  | false => simp [oOut, pipeNext, tOut, HdrAssemblerPipe.stallO, hr]
  | true => simp [oOut, pipeNext, tOut, HdrAssemblerPipe.stallO, hr, hmap]

theorem Inv.stageT_keeps (hi : s.Inv) :
    (s.tOut i).toList ++ ((s.pipeNext i).t.map Prod.fst).toList =
      (s.pipe.t.map Prod.fst).toList ++ ((s.lOut i).map Prod.fst).toList := by
  have hout : s.tOut i = if s.stallT i then none else s.pipe.t.map Prod.fst := by
    rw [stallT_eq, tOut]
    cases s.pipe.t <;> cases i.dstRdy <;> rfl
  have hl : s.stallT i = true → (s.lOut i).map Prod.fst = none := by
    intro ht
    rw [lOut, hi.stallL_eq, ht]
    cases s.pipe.l <;> rfl
  rw [hout, ← stage_keeps hl]
  simp only [pipeNext, map_ite]

theorem Inv.stageL_keeps (hi : s.Inv) :
    ((s.lOut i).map Prod.fst).toList ++ ((s.pipeNext i).l.map Prod.fst).toList =
      (s.pipe.l.map Prod.fst).toList ++ ((s.aOut i).map Prod.fst).toList := by
  have hout : (s.lOut i).map Prod.fst = if s.stallL i then none else s.pipe.l.map Prod.fst := by
    rw [lOut, map_ite]
    cases s.pipe.l <;> rfl
  have ha : s.stallL i = true → (s.aOut i).map Prod.fst = none := by
    intro hl
    rw [aOut, hi.stallA_eq, hl]
    cases s.pipe.a <;> rfl
  rw [hout, ← stage_keeps ha]
  simp only [pipeNext, map_ite]

theorem stageA_keeps :
    ((s.aOut i).map Prod.fst).toList ++ (s.pipeNext i).a.toList =
      s.pipe.a.toList ++ (s.rOut i).toList := by
  have hout : (s.aOut i).map Prod.fst = if s.stallA i then none else s.pipe.a := by
    rw [aOut, map_ite]
    cases s.pipe.a <;> rfl
  have hr : s.stallA i = true → s.rOut i = none := by
    intro ha
    rw [rOut, stallR_eq, ha]
    cases s.pipe.r <;> rfl
  rw [hout, ← stage_keeps hr]
  rfl

/-- A descriptor that is taken is loaded. -/
theorem Inv.stageR_keeps (hi : s.Inv) :
    (s.rOut i).toList ++ (s.pipeNext i).r.toList = s.pipe.r.toList ++ (s.tx i).toList := by
  have htx : s.stallR i = true → s.tx i = none := by
    intro hr
    rw [stallR_eq, hi.stallA_eq] at hr
    have hl : s.stallL i = true := by
      simp only [Bool.and_eq_true] at hr
      exact hr.2.2
    simp [tx, txRdy, hl]
  exact stage_keeps htx

theorem Inv.inFlight_cycle (hi : s.Inv) :
    ((s.oOut i).map Prod.fst).toList ++ (s.cycle i).inFlight = s.inFlight ++ (s.tx i).toList := by
  have ho := stageO_keeps (s := s) (i := i)
  have ht := hi.stageT_keeps (i := i)
  have hl := hi.stageL_keeps (i := i)
  have ha := stageA_keeps (s := s) (i := i)
  have hr := hi.stageR_keeps (i := i)
  show _ ++ (((s.pipeNext i).o.map Prod.fst).toList ++ _ ++ _ ++ _ ++ _) = _
  calc _ = (((s.oOut i).map Prod.fst).toList ++ ((s.pipeNext i).o.map Prod.fst).toList) ++
        ((s.pipeNext i).t.map Prod.fst).toList ++ ((s.pipeNext i).l.map Prod.fst).toList ++
        (s.pipeNext i).a.toList ++ (s.pipeNext i).r.toList := by
        simp only [List.append_assoc]
        rfl
    _ = (s.pipe.o.map Prod.fst).toList ++
        ((s.tOut i).toList ++ ((s.pipeNext i).t.map Prod.fst).toList) ++
        ((s.pipeNext i).l.map Prod.fst).toList ++ (s.pipeNext i).a.toList ++
        (s.pipeNext i).r.toList := by
        rw [ho]
        simp only [List.append_assoc]
    _ = (s.pipe.o.map Prod.fst).toList ++ (s.pipe.t.map Prod.fst).toList ++
        (((s.lOut i).map Prod.fst).toList ++ ((s.pipeNext i).l.map Prod.fst).toList) ++
        (s.pipeNext i).a.toList ++ (s.pipeNext i).r.toList := by
        rw [ht]
        simp only [List.append_assoc]
    _ = (s.pipe.o.map Prod.fst).toList ++ (s.pipe.t.map Prod.fst).toList ++
        (s.pipe.l.map Prod.fst).toList ++
        (((s.aOut i).map Prod.fst).toList ++ (s.pipeNext i).a.toList) ++
        (s.pipeNext i).r.toList := by
        rw [hl]
        simp only [List.append_assoc]
    _ = (s.pipe.o.map Prod.fst).toList ++ (s.pipe.t.map Prod.fst).toList ++
        (s.pipe.l.map Prod.fst).toList ++ s.pipe.a.toList ++
        ((s.rOut i).toList ++ (s.pipeNext i).r.toList) := by
        rw [ha]
        simp only [List.append_assoc]
    _ = s.inFlight ++ (s.tx i).toList := by
        rw [hr]
        simp only [inFlight, List.append_assoc]

/-! ### What was read -/

theorem getElem?_append_of_some {α : Type} {l l' : List α} {n : Nat} {x : α} (h : l[n]? = some x) :
    (l ++ l')[n]? = some x := by
  rw [List.getElem?_append_left (List.getElem?_eq_some_iff.mp h).1, h]

theorem ReadSince.mono {D : Type} {hist : List (FlowId → D)} {d : TakenDesc} {x : D}
    (h : ReadSince hist d x) (m : FlowId → D) : ReadSince (hist ++ [m]) d x := by
  obtain ⟨t, m', hle, hm, hx⟩ := h
  exact ⟨t, m', hle, getElem?_append_of_some hm, hx⟩

theorem ReadSince.between {D : Type} {hist : List (FlowId → D)} {d : TakenDesc} {x : D} {n : Nat}
    (h : ReadSince hist d x) (hn : hist.length = n) :
    ReadBetween hist d.time n d.desc.flowid x := by
  obtain ⟨t, m, hle, hm, hx⟩ := h
  have hlt : t < hist.length := (List.getElem?_eq_some_iff.mp hm).1
  exact ⟨t, m, hle, by omega, hm, hx⟩

/-- What a port answers with in this cycle. -/
theorem readSince_now {D : Type} [Inhabited D] {core : Ram.Core FlowId D} {port : Ram.Port FlowId}
    {hist : List (FlowId → D)} {d : TakenDesc} (hc : Ram.Coherent core port)
    (hr : port.reg = some d.desc.flowid) (ht : d.time ≤ hist.length) :
    ReadSince (hist ++ [core.mem]) d (port.respData core) := by
  refine ⟨hist.length, core.mem, ht, by simp, ?_⟩
  exact (Ram.respData_eq hc hr).symm

theorem readBetween_mono {D : Type} {hist : List (FlowId → D)} {j k : Nat} {f : FlowId}
    {x : D} (h : ReadBetween hist j k f x) (m : FlowId → D) : ReadBetween (hist ++ [m]) j k f x := by
  obtain ⟨t, m', hj, hk, hm, hx⟩ := h
  exact ⟨t, m', hj, hk, getElem?_append_of_some hm, hx⟩

theorem Inv.time_le (hi : s.Inv) {d : TakenDesc} (hd : d ∈ s.inFlight) : d.time ≤ s.now := by
  have hmem : d ∈ s.accepted := by
    rw [← hi.order]
    exact List.mem_append_right _ hd
  exact Nat.le_of_lt (hi.times d hmem)

theorem Inv.stageL_next (hi : s.Inv) :
    ∀ x ∈ (s.pipeNext i).l, ReadSince (s.recvHist ++ [s.recvCore.mem]) x.1 x.2 := by
  intro x hx
  simp only [pipeNext] at hx
  split at hx
  · exact (hi.stageL x hx).mono _
  · simp only [aOut] at hx
    split at hx
    · cases hx
    · obtain ⟨d, hd, rfl⟩ := Option.map_eq_some_iff.mp hx
      have hreg : s.recvPort.reg = some d.desc.flowid := by rw [hi.recvReg, hd]; rfl
      exact readSince_now hi.recvOk hreg (hi.time_le (by simp [inFlight, hd]))

theorem Inv.stageT_next (hi : s.Inv) : ∀ x ∈ (s.pipeNext i).t,
    ReadSince (s.recvHist ++ [s.recvCore.mem]) x.1 x.2.1 ∧
      ReadSince (s.addrHist ++ [s.addrCore.mem]) x.1 x.2.2 := by
  intro x hx
  simp only [pipeNext] at hx
  split at hx
  · exact ⟨(hi.stageT x hx).1.mono _, (hi.stageT x hx).2.mono _⟩
  · simp only [lOut] at hx
    split at hx
    · cases hx
    · obtain ⟨y, hy, rfl⟩ := Option.map_eq_some_iff.mp hx
      have hreg : s.addrPort.reg = some y.1.desc.flowid := by rw [hi.addrReg, hy]; rfl
      refine ⟨(hi.stageL y hy).mono _, readSince_now hi.addrOk hreg ?_⟩
      rw [hi.hist]
      exact hi.time_le (by simp [inFlight, hy])

theorem Inv.stageO_next (hi : s.Inv) : ∀ x ∈ (s.pipeNext i).o, ∃ y, x = assembledPacket y ∧
    ReadSince (s.recvHist ++ [s.recvCore.mem]) y.1 y.2.1 ∧
      ReadSince (s.addrHist ++ [s.addrCore.mem]) y.1 y.2.2 := by
  intro x hx
  simp only [pipeNext] at hx
  split at hx
  · obtain ⟨y, rfl, hr, ha⟩ := hi.stageO x hx
    exact ⟨y, rfl, hr.mono _, ha.mono _⟩
  · obtain ⟨y, hy, rfl⟩ := Option.map_eq_some_iff.mp hx
    exact ⟨y, rfl, (hi.stageT y hy).1.mono _, (hi.stageT y hy).2.mono _⟩

/-- A packet that leaves stage O belongs to its descriptor. -/
theorem Inv.belongs_of_mem (hi : s.Inv) {x : TakenDesc × TxPacket} (hx : x ∈ s.pipe.o) :
    SentPacket.Belongs openWindow s ⟨x.1, s.now, x.2⟩ := by
  obtain ⟨y, rfl, hr, ha⟩ := hi.stageO x hx
  exact ⟨rfl, rfl, rfl, ⟨y.2.2, ha.between hi.hist, rfl, rfl, rfl, rfl⟩,
    y.2.1, hr.between rfl, rfl, rfl⟩

theorem belongs_mono {win : BitVec 16 → BitVec 16} {x : SentPacket} (h : x.Belongs win s) :
    x.Belongs win (s.cycle i) := by
  obtain ⟨hf, hp, hs, ⟨a, ha, haddr⟩, st, hst, hrecv⟩ := h
  exact ⟨hf, hp, hs, ⟨a, readBetween_mono ha _, haddr⟩, st, readBetween_mono hst _, hrecv⟩

/-! ### All cycles -/

/-- A port answers for the stage behind the one that asks. -/
theorem port_next {α β : Type} {reg : Option FlowId} {stall : Bool} {cur : Option α} {inp : Option β}
    {f : α → FlowId} {g : β → FlowId} {out : Option α} (hreg : reg = cur.map f)
    (hstall : stall = true → cur.isSome = true) (hout : stall = false → out.map f = inp.map g) :
    Ram.next reg (inp.map g) (!stall) = (if stall then cur else out).map f := by
  subst hreg
  cases stall with
  | false => simp [Ram.next, hout rfl]
  | true => simp [Ram.next, hstall rfl]

theorem Inv.recvReg_cycle (hi : s.Inv) :
    (s.cycle i).recvPort.reg = (s.cycle i).pipe.a.map fun d => d.desc.flowid := by
  show (s.recvPort.step _ _ _).reg = (if s.stallA i then s.pipe.a else s.rOut i).map _
  rw [Ram.step_reg]
  refine port_next hi.recvReg ?_ ?_
  · rw [hi.stallA_eq]
    intro h
    exact (Bool.and_eq_true_iff.mp h).1
  · intro h
    have hr : s.stallR i = false := by rw [stallR_eq, h, Bool.and_false]
    simp [rOut, hr]

theorem Inv.addrReg_cycle (hi : s.Inv) :
    (s.cycle i).addrPort.reg = (s.cycle i).pipe.l.map fun x => x.1.desc.flowid := by
  show (s.addrPort.step _ _ _).reg = (if s.stallL i then s.pipe.l else s.aOut i).map _
  rw [Ram.step_reg]
  refine port_next hi.addrReg ?_ ?_
  · rw [hi.stallL_eq]
    intro h
    exact (Bool.and_eq_true_iff.mp h).1
  · intro h
    have ha : s.stallA i = false := by rw [hi.stallA_eq, h, Bool.and_false]
    simp [aOut, ha, Function.comp_def]

theorem Inv.cycle (hi : s.Inv) : (s.cycle i).Inv where
  recvReg := hi.recvReg_cycle
  addrReg := hi.addrReg_cycle
  recvOk := Ram.coherent_step _ _ _ _ _
  addrOk := Ram.coherent_step _ _ _ _ _
  hist := by
    have hlen : s.addrHist.length = s.recvHist.length := hi.hist
    simp [AssemblerSystem.cycle, now, hlen]
  order := by
    have hsent : (s.cycle i).sent.map SentPacket.taken =
        s.sent.map SentPacket.taken ++ ((s.oOut i).map Prod.fst).toList := by
      simp only [AssemblerSystem.cycle, List.map_append]
      cases s.oOut i <;> rfl
    rw [hsent, List.append_assoc, hi.inFlight_cycle, ← List.append_assoc, hi.order]
    rfl
  times := by
    intro d hd
    have hnow : (s.cycle i).now = s.now + 1 := by simp [AssemblerSystem.cycle, now]
    rw [hnow]
    rcases List.mem_append.mp hd with hd | hd
    · exact Nat.lt_succ_of_lt (hi.times d hd)
    · simp only [tx, Option.mem_toList] at hd
      split at hd
      · obtain ⟨x, -, rfl⟩ := Option.map_eq_some_iff.mp hd
        exact Nat.lt_succ_self _
      · cases hd
  stageL := hi.stageL_next
  stageT := hi.stageT_next
  stageO := hi.stageO_next
  belongs := by
    intro x hx
    rcases List.mem_append.mp hx with hx | hx
    · exact belongs_mono (hi.belongs x hx)
    · simp only [oOut, Option.mem_toList] at hx
      obtain ⟨y, hy, rfl⟩ := Option.map_eq_some_iff.mp hx
      split at hy
      · exact belongs_mono (hi.belongs_of_mem hy)
      · cases hy

theorem Init.inv (h : s.Init) : s.Inv := by
  obtain ⟨hp, hr, ha, hacc, hsent, hrh, hah⟩ := h
  refine ⟨by simp [hr, hp], by simp [ha, hp], ?_, ?_, by simp [now, hrh, hah],
    by simp [hsent, hacc, inFlight, hp], by simp [hacc], by simp [hp], by simp [hp], by simp [hp],
    by simp [hsent]⟩
  · intro f hf
    rw [hr] at hf
    cases hf
  · intro f hf
    rw [ha] at hf
    cases hf

theorem inv_of_reach (h : Reach Init step Free s) : s.Inv := by
  refine h.invariant (fun _ h0 => h0.inv) ?_
  intro s i s' hi _ hstep
  cases hstep
  exact hi.cycle

/-! ### Progress -/

/-- How many of the descriptors were taken before cycle `n`. -/
def old (n : Nat) (ds : List TakenDesc) : Nat := ds.countP fun d => d.time < n

/-- The stages that the descriptors taken before cycle `n` have still to pass. -/
def work (n : Nat) (s : AssemblerSystem) : Nat :=
  5 * old n s.pipe.r.toList + 4 * old n s.pipe.a.toList +
    3 * old n (s.pipe.l.map Prod.fst).toList + 2 * old n (s.pipe.t.map Prod.fst).toList +
    old n (s.pipe.o.map Prod.fst).toList

theorem old_tx {n : Nat} (hn : n ≤ s.now) : old n (s.tx i).toList = 0 := by
  unfold tx
  split
  · cases i.offer with
    | none => rfl
    | some d => simp [old, hn]
  · rfl

/-- Nothing in the pipe was taken before cycle `n`. -/
theorem time_of_work {n : Nat} (hw : work n s = 0) {d : TakenDesc} (hd : d ∈ s.inFlight) :
    n ≤ d.time := by
  have hold : ∀ {ds : List TakenDesc}, old n ds = 0 → d ∈ ds → n ≤ d.time := by
    intro ds hx hd
    have hnot := List.countP_eq_zero.mp hx d hd
    simpa using hnot
  unfold work at hw
  simp only [inFlight, List.mem_append] at hd
  rcases hd with (((hd | hd) | hd) | hd) | hd
  · exact hold (by omega) hd
  · exact hold (by omega) hd
  · exact hold (by omega) hd
  · exact hold (by omega) hd
  · exact hold (by omega) hd

/-- What moves on has one stage less to pass. -/
theorem Inv.work_cycle (hi : s.Inv) {n : Nat} (hn : n ≤ s.now) :
    work n (s.cycle i) + old n (s.rOut i).toList + old n ((s.aOut i).map Prod.fst).toList +
      old n ((s.lOut i).map Prod.fst).toList + old n (s.tOut i).toList +
      old n ((s.oOut i).map Prod.fst).toList = work n s := by
  have happ : ∀ {w x y z : List TakenDesc}, w ++ x = y ++ z →
      old n w + old n x = old n y + old n z := by
    intro w x y z h
    have hc := congrArg (old n) h
    simpa only [old, List.countP_append] using hc
  have ho := happ (stageO_keeps (s := s) (i := i))
  have ht := happ (hi.stageT_keeps (i := i))
  have hl := happ (hi.stageL_keeps (i := i))
  have ha := happ (stageA_keeps (s := s) (i := i))
  have hr := happ (hi.stageR_keeps (i := i))
  have htx := old_tx (i := i) hn
  show 5 * old n (s.pipeNext i).r.toList + 4 * old n (s.pipeNext i).a.toList +
    3 * old n ((s.pipeNext i).l.map Prod.fst).toList +
    2 * old n ((s.pipeNext i).t.map Prod.fst).toList +
    old n ((s.pipeNext i).o.map Prod.fst).toList + _ + _ + _ + _ + _ = _
  unfold work
  omega

/-- When the destination is ready, everything moves on. -/
theorem Inv.work_lt (hi : s.Inv) {n : Nat} (hn : n ≤ s.now) (hr : i.dstRdy = true)
    (hw : work n s ≠ 0) : work n (s.cycle i) < work n s := by
  have hle := hi.work_cycle (i := i) hn
  have ht : s.stallT i = false := by simp [stallT_eq, hr]
  have hl : s.stallL i = false := by rw [hi.stallL_eq, ht, Bool.and_false]
  have ha : s.stallA i = false := by rw [hi.stallA_eq, hl, Bool.and_false]
  have hR : s.stallR i = false := by rw [stallR_eq, ha, Bool.and_false]
  have hrOut : s.rOut i = s.pipe.r := by simp [rOut, hR]
  have haOut : (s.aOut i).map Prod.fst = s.pipe.a := by simp [aOut, ha, Function.comp_def]
  have hlOut : (s.lOut i).map Prod.fst = s.pipe.l.map Prod.fst := by
    simp [lOut, hl, Function.comp_def]
  have htOut : s.tOut i = s.pipe.t.map Prod.fst := by simp [tOut, hr]
  have hoOut : s.oOut i = s.pipe.o := by simp [oOut, hr]
  rw [hrOut, haOut, hlOut, htOut, hoOut] at hle
  unfold work at hw hle ⊢
  omega

/-- The descriptors taken before `s` come first. -/
structure Since (s t : AssemblerSystem) : Prop where
  inv : t.Inv
  now : s.now ≤ t.now
  accepted : ∃ later, t.accepted = s.accepted ++ later

/-- What was taken before `s` was sent. -/
def AllSent (s t : AssemblerSystem) : Prop := s.accepted <+: t.sent.map SentPacket.taken

theorem Since.allSent {t : AssemblerSystem} (h : Since s t) (hs : s.Inv) (hw : work s.now t = 0) :
    AllSent s t := by
  obtain ⟨later, hl⟩ := h.accepted
  have horder := h.inv.order
  rw [hl] at horder
  rcases List.append_eq_append_iff.mp horder with ⟨mid, hacc, hfl⟩ | ⟨mid, hsent, -⟩
  · cases mid with
    | nil => simp [AllSent, hacc]
    | cons d mid =>
      have hd : d ∈ t.inFlight := by simp [hfl]
      have hd' : d ∈ s.accepted := by simp [hacc]
      have hle := time_of_work hw hd
      have hlt := hs.times d hd'
      omega
  · exact ⟨mid, hsent.symm⟩

theorem Inv.ends (hi : s.Inv) {sched : Nat → AssemblerIn}
    (hf : Fair (fun i (_ : Unit) => i.dstRdy = true) sched) :
    ∃ n, AllSent s (exec AssemblerSystem.cycle s sched n) := by
  have hfree : ∀ n, Free (exec AssemblerSystem.cycle s sched n) (sched n) := fun _ => trivial
  apply exec_reaches (I := Since s) (work s.now) (fun _ => ()) ?_ ?_
    ⟨hi, Nat.le_refl _, [], (List.append_nil _).symm⟩ hfree hf
  · rintro t i ⟨hinv, hnow, later, hl⟩ _
    refine ⟨hinv.cycle, Nat.le_trans hnow ?_, later ++ (t.tx i).toList, ?_⟩
    · simp [AssemblerSystem.cycle, AssemblerSystem.now]
    · show t.accepted ++ _ = _
      rw [hl, List.append_assoc]
  · intro t i ht _ hn
    have hle := ht.inv.work_cycle (i := i) ht.now
    by_cases hr : i.dstRdy = true
    · left
      apply ht.inv.work_lt ht.now hr
      intro hw
      exact hn (ht.allSent hi hw)
    · exact .inr ⟨by omega, rfl, hr⟩

end AssemblerSystem

/-- The packets that come out are the descriptors that were taken; the window of a header is the one
of the receive state, except that a closed one is sent as 1. -/
theorem hdr_assembler_loses_nothing {s : AssemblerSystem}
    (h : Reach AssemblerSystem.Init AssemblerSystem.step Free s) : s.LosesNothing openWindow := by
  have hi := AssemblerSystem.inv_of_reach h
  exact ⟨⟨_, hi.order⟩, hi.belongs, fun sched hf => hi.ends hf⟩

/-! ### Fixed runs -/

namespace AssemblerSystem

def reset (wnd : BitVec 16) : AssemblerSystem where
  pipe := ⟨none, none, none, none, none⟩
  recvCore := ⟨fun f => ⟨.ofNat 32 f.val, wnd⟩, none, by rintro a d ⟨⟩⟩
  recvPort := ⟨none, none⟩
  addrCore := ⟨fun f => ⟨1, 2, .ofNat 16 f.val, 4⟩, none, by rintro a d ⟨⟩⟩
  addrPort := ⟨none, none⟩
  accepted := []
  sent := []
  recvHist := []
  addrHist := []

theorem init_reset (wnd : BitVec 16) : (reset wnd).Init := ⟨rfl, rfl, rfl, rfl, rfl, rfl, rfl⟩

end AssemblerSystem

/-- A cycle with an offer and without writes. -/
def AssemblerIn.quiet (offer : Option TxDescriptor) (dstRdy : Bool) : AssemblerIn :=
  ⟨offer, none, none, none, dstRdy⟩

/-- Two descriptors, and a destination that holds the first packet back. -/
def assemblerSchedule : List AssemblerIn :=
  [.quiet (some ⟨3, 100, default⟩) true, .quiet (some ⟨5, 200, default⟩) false, .quiet none true,
    .quiet none true, .quiet none false, .quiet none true, .quiet none false, .quiet none true,
    .quiet none true, .quiet none true]

theorem hdr_assembler_loses_nothing_two :
    ∃ s, Reach AssemblerSystem.Init AssemblerSystem.step Free s ∧
      s.sent.map (fun x => (x.pkt.flowid, x.pkt.tcpHdr.seqNum, x.pkt.tcpHdr.ackNum,
        x.pkt.tcpHdr.winSize, x.pkt.tcpHdr.srcPort)) = [(3, 100, 3, 7, 3), (5, 200, 5, 7, 5)] ∧
      s.LosesNothing openWindow := by
  have hs : ∃ s, Reach AssemblerSystem.Init AssemblerSystem.step Free s ∧
      decide (s.sent.map (fun x => (x.pkt.flowid, x.pkt.tcpHdr.seqNum, x.pkt.tcpHdr.ackNum,
        x.pkt.tcpHdr.winSize, x.pkt.tcpHdr.srcPort)) =
          [(3, 100, 3, 7, 3), (5, 200, 5, 7, 5)]) = true :=
    Reach.exists_of_run assemblerSchedule (AssemblerSystem.init_reset 7) (by decide +kernel)
  obtain ⟨s, hs, hp⟩ := hs
  exact ⟨s, hs, of_decide_eq_true hp, hdr_assembler_loses_nothing hs⟩

/-- A closed window is not sent as it is. -/
theorem hdr_assembler_opens_window :
    ¬ ∀ s, Reach AssemblerSystem.Init AssemblerSystem.step Free s → s.LosesNothing id := by
  intro h
  have hs : ∃ s, Reach AssemblerSystem.Init AssemblerSystem.step Free s ∧
      (s.recvHist.all (fun m => decide ((m 3).rxCurrWndSize = 0)) && s.sent.any fun x =>
        decide (x.pkt.flowid = 3 ∧ x.pkt.tcpHdr.winSize = 1)) = true :=
    Reach.exists_of_run assemblerSchedule (AssemblerSystem.init_reset 0) (by decide +kernel)
  obtain ⟨s, hs, hp⟩ := hs
  obtain ⟨hall, hany⟩ := Bool.and_eq_true_iff.mp hp
  obtain ⟨x, hx, hdec⟩ := List.any_eq_true.mp hany
  obtain ⟨hflow, hwin⟩ := of_decide_eq_true hdec
  obtain ⟨st, ⟨t, m, -, -, hm, hst⟩, -, hw⟩ := ((h s hs).belongs x hx).recv
  have hzero := of_decide_eq_true (List.all_eq_true.mp hall m (List.mem_of_getElem? hm))
  rw [hflow] at hst
  rw [hwin, ← hst, hzero] at hw
  exact absurd hw (by decide)

end TcpHw
