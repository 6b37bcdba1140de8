import TcpHw.Common.CircBuf
import TcpHw.Lib.Trace

/-!
# `wr_circ_buf` with `wr_mem_noc_module` and the memory tile

The writer takes a request for a piece of a ring and its data in lines. A piece that reaches
over the end of the ring becomes two memory requests; the lines of the second are stitched from
the line saved at the split and the next one. `wr_mem_noc_module` sends each request as a header
and its lines and waits for the acknowledgement. The tile stores the bytes of each line, as many
as the header's size leaves, from the header's address on.
-/
namespace TcpHw

open Bytes

set_option autoImplicit false

/-! ### `wr_mem_noc_module` -/

inductive WrMemState where
  | ready | sendWrHdr | sendWrPayload | waitWrResp | outputWrDone | und
  deriving DecidableEq, Inhabited

/-- What goes to the tile: the header with its length, address and size, and the data. -/
inductive WrFlit where
  | hdr (msgLen addr dataSize : Nat)
  | payload (data : Line)
  deriving DecidableEq

structure WrMemNoc where
  state : WrMemState
  reqEntry : MemReq
  flitsToSend : Nat
  flitsSent : Nat
  deriving Inhabited

/-- The inputs of `wr_mem_noc_module` in one cycle. -/
structure WrMemIn where
  req : Option MemReq
  dataVal : Bool
  data : Line
  nocRdy : Bool
  resp : Option MsgType
  doneRdy : Bool

namespace WrMemNoc

/-- `wr_mem_src_req_rdy` -/
def reqRdy (m : WrMemNoc) : Bool := m.state == .ready

/-- `wr_mem_src_req_data_rdy` -/
def reqDataRdy (m : WrMemNoc) (nocRdy : Bool) : Bool := m.state == .sendWrPayload && nocRdy

/-- The flit offered to the network. -/
def nocReq (m : WrMemNoc) (dataVal : Bool) (data : Line) : Option WrFlit :=
  match m.state with
  | .sendWrHdr => some (.hdr m.flitsToSend m.reqEntry.memReqAddr m.reqEntry.memReqSize)
  | .sendWrPayload => if dataVal then some (.payload data) else none
  | _ => none

/-- `wr_req_done` -/
def wrReqDone (m : WrMemNoc) (resp : Option MsgType) : Bool :=
  match m.state with
  | .waitWrResp => resp == some .storeMemAck
  | .outputWrDone => true
  | _ => false

def step (m : WrMemNoc) (i : WrMemIn) : WrMemNoc :=
  match m.state with
  | .ready =>
    match i.req with
    | some r =>
      { state := .sendWrHdr, reqEntry := r, flitsToSend := msgFlits r.memReqSize, flitsSent := 0 }
    | none => m
  | .sendWrHdr => if i.nocRdy then { m with state := .sendWrPayload } else m
  | .sendWrPayload =>
    if i.nocRdy && i.dataVal then
      { m with
        flitsSent := (m.flitsSent + 1) % 2 ^ 22
        -- `flits_to_send_reg - 1` wraps
        state := if m.flitsSent = (m.flitsToSend + (2 ^ 22 - 1)) % 2 ^ 22 then .waitWrResp
          else .sendWrPayload }
    else m
  | .waitWrResp =>
    match i.resp with
    | some .storeMemAck => { m with state := if i.doneRdy then .ready else .outputWrDone }
    | some _ => { m with state := .und }
    | none => m
  | .outputWrDone => if i.doneRdy then { m with state := .ready } else m
  | .und => m

end WrMemNoc

/-! ### `wr_circ_buf` -/

inductive WrBufState where
  | ready | makeReq | bufData | sendData | waitReq
  deriving DecidableEq, Inhabited

/-- A request of the source. -/
structure WrReq where
  flowid : FlowId
  wrPtr : Nat
  size : Nat
  deriving DecidableEq

structure WrCircBuf where
  state : WrBufState
  reqFlowid : FlowId
  currWrReqRem : Nat
  currWrReqPtr : Nat
  wrBytesRem : Nat
  saveLine : Line
  saveLineShift : Nat
  deriving Inhabited

/-- The inputs of `wr_circ_buf` from its source and from `wr_mem_noc_module`. -/
structure WrBufIn where
  req : Option WrReq
  dataVal : Bool
  data : Line
  doneRdy : Bool
  memReqRdy : Bool
  memDataRdy : Bool
  memDone : Bool

namespace WrCircBuf

variable (W : Nat) (b : WrCircBuf)

def bytesToEnd : Nat := 2 ^ W - b.currWrReqPtr

def splitReq : Bool := b.currWrReqRem > b.bytesToEnd W

def memReq : MemReq where
  memReqAddr := b.reqFlowid.val * 2 ^ W + b.currWrReqPtr
  memReqSize := if b.splitReq W then b.bytesToEnd W else b.currWrReqRem

/-- `datap_ctrl_last_wr` -/
def lastWr : Bool := b.wrBytesRem ≤ 64

def saveRegHasUnused : Bool := b.saveLineShift != 0

def unusedInSaveReg : Nat := 64 - b.saveLineShift / 8

/-- `datap_ctrl_need_input` -/
def needInput : Bool :=
  b.lastWr && b.saveRegHasUnused && decide (b.unusedInSaveReg < b.wrBytesRem)

/-- `wr_buf_wr_mem_req_data` -/
def memReqData (data : Line) : Line := upperShl b.saveLine data b.saveLineShift

/-- `wr_buf_wr_mem_req_val` -/
def memReqVal : Bool := b.state == .makeReq

/-- `wr_buf_wr_mem_req_data_val` -/
def memReqDataVal (dataVal : Bool) : Bool :=
  b.state == .sendData && (dataVal || (b.lastWr && !b.needInput))

/-- `wr_buf_src_req_data_rdy` -/
def srcReqDataRdy (memDataRdy : Bool) : Bool :=
  match b.state with
  | .bufData => true
  | .sendData => memDataRdy && !(b.lastWr && !b.needInput)
  | _ => false

/-- `wr_buf_wr_mem_wr_req_done_rdy` -/
def memDoneRdy (doneRdy : Bool) : Bool := b.state == .waitReq && (b.splitReq W || doneRdy)

/-- `wr_buf_src_wr_req_done` -/
def srcDone (memDone : Bool) : Bool := b.state == .waitReq && !b.splitReq W && memDone

def step (i : WrBufIn) : WrCircBuf :=
  match b.state with
  | .ready =>
    match i.req with
    | some r =>
      { b with
        state := .makeReq
        reqFlowid := r.flowid
        currWrReqRem := r.size
        currWrReqPtr := r.wrPtr
        wrBytesRem := (b.memReq W).memReqSize
        saveLineShift := 0 }
    | none => b
  | .makeReq =>
    if i.memReqRdy then
      { b with
        state := if b.saveRegHasUnused then .sendData else .bufData
        wrBytesRem := (b.memReq W).memReqSize }
    else b
  | .bufData => if i.dataVal then { b with state := .sendData, saveLine := i.data } else b
  | .sendData =>
    if b.memReqDataVal i.dataVal && i.memDataRdy then
      if b.lastWr then { b with state := .waitReq }
      else { b with saveLine := i.data, wrBytesRem := b.wrBytesRem - 64 }
    else b
  | .waitReq =>
    if i.memDone && b.memDoneRdy W i.doneRdy then
      if b.splitReq W then
        { b with
          state := .makeReq
          saveLineShift := b.wrBytesRem * 8 % 2 ^ 9
          currWrReqRem := b.currWrReqRem - (b.memReq W).memReqSize
          currWrReqPtr := (b.currWrReqPtr + (b.memReq W).memReqSize) % 2 ^ W }
      else { b with state := .ready }
    else b

end WrCircBuf

/-! ### The memory tile -/

/-- Store one line of a message of `size` bytes: its bytes up to the size, the most significant
byte first. -/
def storeLine (mem : Memory) (addr size k : Nat) (data : Line) : Memory := fun x =>
  if addr + 64 * k ≤ x ∧ x < addr + 64 * k + 64 ∧ x < addr + size
  then byte data (x - (addr + 64 * k)) else mem x

/-- `count` lines of the message have come; `busy` until it is acknowledged. -/
structure WrTile where
  mem : Memory
  busy : Bool
  msgLen : Nat
  addr : Nat
  dataSize : Nat
  count : Nat

namespace WrTile

def take (t : WrTile) : WrFlit → WrTile
  | .hdr msgLen addr dataSize =>
    { t with busy := true, msgLen := msgLen, addr := addr, dataSize := dataSize, count := 0 }
  | .payload d =>
    { t with mem := storeLine t.mem t.addr t.dataSize t.count d, count := t.count + 1 }

/-- All lines of the message are stored and its acknowledgement is owed. -/
def owesAck (t : WrTile) : Bool := t.busy && t.count == t.msgLen

end WrTile

/-! ### The composition -/

/-- A request as far as it is served: the memory before it, the input lines consumed and the
memory requests issued for it. -/
structure WrJob where
  req : WrReq
  before : Memory
  lines : List Line
  memReqs : Nat

/-- `finished` lists the completed requests, each with the memory at its completion. -/
structure WrSystem where
  buf : WrCircBuf
  noc : WrMemNoc
  tile : WrTile
  job : WrJob
  finished : List (WrJob × Memory)

/-- One cycle of the source, the network and the tile. `data` is the value of the data bus,
valid or not. -/
structure WrIn where
  req : Option WrReq
  dataVal : Bool
  data : Line
  doneRdy : Bool
  nocRdy : Bool
  resp : Option MsgType

namespace WrSystem

variable (W : Nat) (s : WrSystem) (i : WrIn)

def bufIn : WrBufIn where
  req := i.req
  dataVal := i.dataVal
  data := i.data
  doneRdy := i.doneRdy
  memReqRdy := s.noc.reqRdy
  memDataRdy := s.noc.reqDataRdy i.nocRdy
  memDone := s.noc.wrReqDone i.resp

def memIn : WrMemIn where
  req := if s.buf.memReqVal then some (s.buf.memReq W) else none
  dataVal := s.buf.memReqDataVal i.dataVal
  data := s.buf.memReqData i.data
  nocRdy := i.nocRdy
  resp := i.resp
  doneRdy := s.buf.memDoneRdy W i.doneRdy

/-- The flit the network takes in this cycle. -/
def flit : Option WrFlit :=
  if i.nocRdy then s.noc.nocReq (s.memIn W i).dataVal (s.memIn W i).data else none

/-- The tile takes the flit of the cycle and gives its acknowledgement. -/
def tileStep : WrTile :=
  let t := match s.flit W i with
    | some f => s.tile.take f
    | none => s.tile
  if i.resp.isSome then { t with busy := false } else t

def takesLine : Bool := i.dataVal && s.buf.srcReqDataRdy (s.bufIn i).memDataRdy

def jobStep : WrJob :=
  match s.buf.state, i.req with
  | .ready, some r => { req := r, before := s.tile.mem, lines := [], memReqs := 0 }
  | _, _ =>
    { s.job with
      lines := if s.takesLine i then s.job.lines ++ [i.data] else s.job.lines
      memReqs := if s.buf.memReqVal && s.noc.reqRdy then s.job.memReqs + 1 else s.job.memReqs }

/-- The source takes the completion. -/
def completes : Bool := s.buf.srcDone W (s.bufIn i).memDone && i.doneRdy

def cycle : WrSystem where
  buf := s.buf.step W (s.bufIn i)
  noc := s.noc.step (s.memIn W i)
  tile := s.tileStep W i
  job := s.jobStep i
  finished := if s.completes W i then s.finished ++ [(s.job, s.tile.mem)] else s.finished

def step : Option WrSystem := some (s.cycle W i)

/-- After reset; the memory holds anything. -/
def Init : Prop :=
  s.buf.state = .ready ∧ s.noc.state = .ready ∧ s.tile.busy = false ∧ s.finished = []

/-- Requests are for a piece of the ring of at most its size, and the tile acknowledges a
message once and not before all of it has come. -/
def Allowed : Prop :=
  (∀ r ∈ i.req, r.wrPtr < 2 ^ W ∧ 0 < r.size ∧ r.size ≤ 2 ^ W) ∧
  (∀ t ∈ i.resp, t = .storeMemAck ∧ s.tile.owesAck = true)

instance : Decidable (s.Allowed W i) := by
  unfold Allowed
  infer_instance

/-- A cycle in which the source offers a line, takes a completion, the network is ready and the
tile gives the acknowledgement it owes. -/
def smooth : Bool :=
  i.dataVal && i.doneRdy && i.nocRdy && (!s.tile.owesAck || i.resp.isSome)

end WrSystem

end TcpHw
