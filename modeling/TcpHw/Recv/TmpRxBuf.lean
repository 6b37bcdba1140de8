import TcpHw.Recv.RxIssuePipe

/-!
# `slab_alloc_tracker`, `tcp_tmp_rx_buf` and `rx_payload_store_buf_cp`

The payload of a received packet waits in one of ten slabs. `tcp_tmp_rx_buf_ctrl` takes a
slab before it stores a payload, and `rx_payload_store_buf_cp_ctrl` gives it back after
the payload has been copied out, or at once if `est_pipe` did not accept it.
-/
namespace TcpHw

set_option autoImplicit false

/-- `logic [RX_TMP_BUF_ADDR_W-1:0]`, the address of a slab. -/
abbrev SlabAddr := BitVec 15

/-- `RX_TMP_BUF_SLAB_BYTES` -/
abbrev slabBytes : SlabAddr := 2048

/-- `LAST_SLAB_ADDR` for `RX_TMP_BUF_NUM_SLABS` slabs. -/
abbrev lastSlabAddr : SlabAddr := 9 * 2048

/-- `NOC_DATA_BYTES` -/
abbrev nocDataBytes : BitVec 16 := 64

/-! ### `slab_alloc_tracker` -/

structure SlabAllocTracker where
  initSlabAddr : SlabAddr
  useFifo : Bool
  freed : List SlabAddr

namespace SlabAllocTracker

def reset : SlabAllocTracker where
  initSlabAddr := 0
  useFifo := false
  freed := []

variable (m : SlabAllocTracker)

/-- `alloc_slab_src_resp_error` -/
def respError : Bool := m.useFifo && m.freed.isEmpty

/-- `alloc_slab_src_resp_addr` -/
def respAddr : SlabAddr := if m.useFifo then m.freed.headD 0 else m.initSlabAddr

/-- `free_slab_src_req_rdy`; the FIFO has 16 entries. -/
def freeRdy : Bool := decide (m.freed.length < 16)

/-- One clock edge, with `consume_val` and a free request. -/
def step (consume : Bool) (free : Option SlabAddr) : SlabAllocTracker where
  initSlabAddr :=
    if !m.useFifo && consume then m.initSlabAddr + slabBytes else m.initSlabAddr
  useFifo :=
    if !m.useFifo && consume then decide (m.initSlabAddr = lastSlabAddr) else m.useFifo
  freed :=
    (if m.useFifo && consume then m.freed.tail else m.freed) ++
      if m.freeRdy then free.toList else []

end SlabAllocTracker

/-! ### `tcp_tmp_rx_buf` -/

/-- A packet header with the length of its payload, as the parser delivers it. -/
structure RxHdr where
  srcIp : BitVec 32
  dstIp : BitVec 32
  tcpHdr : TcpPktHdr
  payloadLen : BitVec 16
  deriving Inhabited

inductive TmpBufCtrl where
  | ready | dataCopy | output
  deriving DecidableEq

structure TmpRxBuf where
  ctrl : TmpBufCtrl
  hdr : RxHdr
  allocAddr : SlabAddr
  payloadBytesRem : BitVec 16

namespace TmpRxBuf

def reset : TmpRxBuf where
  ctrl := .ready
  hdr := default
  allocAddr := 0
  payloadBytesRem := 0

variable (b : TmpRxBuf) (hdr : Option RxHdr) (error : Bool)

/-- `tmp_buf_alloc_slab_consume_val` -/
def consume : Bool :=
  b.ctrl == .ready && hdr.any fun h => h.payloadLen != 0 && !error

/-- `tmp_buf_dst_rx_payload_entry` -/
def payloadEntry : PayloadBuf where
  payloadAddr := b.allocAddr.setWidth 32
  payloadLen := b.hdr.payloadLen

/-- `tmp_buf_dst_rx_hdr_val` and the packet. -/
def out : Option RecvPkt :=
  if b.ctrl = .output then
    some
      { srcIp := b.hdr.srcIp
        dstIp := b.hdr.dstIp
        tcpHdr := b.hdr.tcpHdr
        payloadVal := b.hdr.payloadLen != 0
        payloadEntry := b.payloadEntry }
  else none

/-- One clock edge; `addr` is the slab on offer, `dataVal` a beat of payload. -/
def step (addr : SlabAddr) (dataVal dstRdy : Bool) : TmpRxBuf :=
  match b.ctrl with
  | .ready =>
    match hdr with
    | none => b
    | some h =>
      { ctrl :=
          if h.payloadLen = 0 then .output else if error then .ready else .dataCopy
        hdr := h
        allocAddr := if b.consume (some h) error then addr else b.allocAddr
        payloadBytesRem := h.payloadLen }
  | .dataCopy =>
    if dataVal then
      { b with
        payloadBytesRem := b.payloadBytesRem - nocDataBytes
        ctrl := if b.payloadBytesRem ≤ nocDataBytes then .output else .dataCopy }
    else b
  | .output => if dstRdy then { b with ctrl := .ready } else b

end TmpRxBuf

/-! ### `rx_payload_store_buf_cp` -/

inductive StoreBufCpCtrl where
  | ready | commitPtrResp | dataCopyStart | dataCopy | dataCopyWait | updatePointer
  | freeNonAccepted
  deriving DecidableEq

/-- The control state, the entry being copied, and the flow whose commit pointer the read port
answers for. -/
structure StoreBufCp where
  ctrl : StoreBufCpCtrl
  qEntry : RxStoreBufQ
  bytesLeft : BitVec 16
  commitRd : Option FlowId

/-- Readiness of the neighbours: the write buffer and the slab memory at the start of a copy,
a beat transferred, the end of the write, and the write port of the commit pointers. -/
structure StoreBufCpIn where
  startRdy : Bool
  beat : Bool
  done : Bool
  commitWrRdy : Bool
  freeRdy : Bool

namespace StoreBufCp

def reset : StoreBufCp where
  ctrl := .ready
  qEntry := default
  bytesLeft := 0
  commitRd := none

variable (c : StoreBufCp) (head : Option RxStoreBufQ) (i : StoreBufCpIn)

/-- The entry taken from the queue: every entry found while ready, whatever happens to it. -/
def popped : Option RxStoreBufQ := if c.ctrl = .ready then head else none

/-- `store_buf_commit_ptr_rd_resp_rdy` -/
def commitRespRdy : Bool := c.ctrl == .commitPtrResp

/-- The next state and the read request for an entry taken from the queue. -/
def start (e : RxStoreBufQ) : StoreBufCp :=
  if e.payloadEntry.payloadLen = 0 then { c with ctrl := .ready, qEntry := e }
  else if !e.acceptPayload then { c with ctrl := .freeNonAccepted, qEntry := e }
  else if Ram.reqRdy c.commitRd c.commitRespRdy then
    { ctrl := .commitPtrResp
      qEntry := e
      bytesLeft := e.payloadEntry.payloadLen
      commitRd := Ram.next c.commitRd (some e.flowid) c.commitRespRdy }
  else { c with qEntry := e }

/-- One clock edge. -/
def step : StoreBufCp :=
  match c.ctrl with
  | .ready =>
    match head with
    | some e => c.start e
    | none => c
  | .commitPtrResp =>
    if c.commitRd.isSome then
      { c with ctrl := .dataCopyStart, commitRd := Ram.next c.commitRd none c.commitRespRdy }
    else c
  | .dataCopyStart => if i.startRdy then { c with ctrl := .dataCopy } else c
  | .dataCopy =>
    if i.beat then
      if c.bytesLeft ≤ nocDataBytes then { c with ctrl := .dataCopyWait }
      else { c with bytesLeft := c.bytesLeft - nocDataBytes }
    else c
  | .dataCopyWait => if i.done then { c with ctrl := .updatePointer } else c
  | .updatePointer => if i.commitWrRdy && i.freeRdy then { c with ctrl := .ready } else c
  | .freeNonAccepted => if i.freeRdy then { c with ctrl := .ready } else c

/-- `store_buf_tmp_buf_free_slab_rx_req_val` and its address. -/
def free : Option SlabAddr :=
  match c.ctrl with
  | .updatePointer =>
    if i.commitWrRdy && i.freeRdy then some (c.qEntry.payloadEntry.payloadAddr.setWidth 15)
    else none
  | .freeNonAccepted => some (c.qEntry.payloadEntry.payloadAddr.setWidth 15)
  | _ => none

end StoreBufCp

end TcpHw
