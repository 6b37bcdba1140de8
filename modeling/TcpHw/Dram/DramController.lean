import TcpHw.Common.CircBuf
import TcpHw.Lib.ByteMemory
import TcpHw.Lib.Trace

/-!
# `avalon_dram_controller`: control and datapath

The controller takes messages from the network, a header flit and for a store its data flits, and
accesses a memory whose lines are twice as wide as a flit. The data of a store is written flit by
flit: the first write goes up to a multiple of the flit size, each further one joins what the last
flit left with the next flit, and a last one writes what is left of the last flit. A load sends the
halves of the lines it reads.
-/
namespace TcpHw

open Bytes Trace

set_option autoImplicit false

/-- `mem_data_w_p` at twice `NOC_DATA_WIDTH`. -/
abbrev DramLine := BitVec (8 * 128)

/-! ### Headers -/

/-- `noc_hdr_flit` without its padding. -/
structure NocHdrFlit where
  dstChipId : BitVec 14
  dstXCoord : BitVec 8
  dstYCoord : BitVec 8
  fbits : BitVec 4
  msgLen : BitVec 22
  msgType : BitVec 8
  addr : BitVec 48
  srcChipId : BitVec 14
  srcXCoord : BitVec 8
  srcYCoord : BitVec 8
  srcFbits : BitVec 4
  dataSize : BitVec 30
  deriving DecidableEq, Inhabited

/-- The packed struct is the lower half of a flit and ends with 80 bits of padding. -/
def NocHdrFlit.ofFlit (d : Line) : NocHdrFlit where
  dstChipId := d.extractLsb' 242 14
  dstXCoord := d.extractLsb' 234 8
  dstYCoord := d.extractLsb' 226 8
  fbits := d.extractLsb' 222 4
  msgLen := d.extractLsb' 200 22
  msgType := d.extractLsb' 192 8
  addr := d.extractLsb' 144 48
  srcChipId := d.extractLsb' 130 14
  srcXCoord := d.extractLsb' 122 8
  srcYCoord := d.extractLsb' 114 8
  srcFbits := d.extractLsb' 110 4
  dataSize := d.extractLsb' 80 30

def msgTypeLoadMem : BitVec 8 := 19
def msgTypeStoreMem : BitVec 8 := 20
def msgTypeLoadMemAck : BitVec 8 := 24
def msgTypeStoreMemAck : BitVec 8 := 25

/-- The parameters of the controller: the width of the memory's address and its own place. -/
structure DramParams where
  memAddrW : Nat
  srcX : BitVec 8
  srcY : BitVec 8

namespace NocHdrFlit

/-- `resp_msg_len` has the width of the field. -/
def respMsgLen (h : NocHdrFlit) : BitVec 22 :=
  BitVec.ofNat 22 (if h.dataSize.toNat % 64 = 0 then h.dataSize.toNat / 64
    else h.dataSize.toNat / 64 + 1)

/-- `resp_hdr_flit` -/
def resp (P : DramParams) (h : NocHdrFlit) : NocHdrFlit where
  dstChipId := h.srcChipId
  dstXCoord := h.srcXCoord
  dstYCoord := h.srcYCoord
  fbits := h.srcFbits
  msgLen := if h.msgType = msgTypeLoadMem then h.respMsgLen else 0
  msgType :=
    if h.msgType = msgTypeStoreMem then msgTypeStoreMemAck
    else if h.msgType = msgTypeLoadMem then msgTypeLoadMemAck
    else 0
  addr := 0
  srcChipId := 0
  srcXCoord := P.srcX
  srcYCoord := P.srcY
  srcFbits := 0
  dataSize := h.dataSize

end NocHdrFlit

/-- A flit of a response. -/
inductive RespFlit where
  | hdr (h : NocHdrFlit)
  | data (d : Line)
  deriving DecidableEq

/-! ### The registers and the datapath -/

inductive DramState where
  | ready | rdOpIssue | rdOpWait | rdHdrFlit | rdPayloadResp
  | wrFirstData | wrDataCopy | wrDataDrain | wrResp | und
  deriving DecidableEq, Inhabited

/-- `ctrl_datap_sel_store_src` -/
inductive StoreSrc where
  | copy | first | drain
  deriving DecidableEq, Inhabited

structure DramController where
  state : DramState
  hdrFlit : NocHdrFlit
  currFlitCount : Nat
  memReadData : DramLine
  currOpAddr : Nat
  readFlitsSent : Nat
  respMsgLen : BitVec 22
  writeBytesLeft : Nat
  save1 : Line
  save1Mask : BitVec 64
  deriving Inhabited

/-- What the controller sees in one cycle. -/
structure DramSignals where
  reqVal : Bool
  reqData : Line
  respRdy : Bool
  memRdy : Bool
  rdDataVal : Bool
  rdData : DramLine

/-- The outputs of `avalon_dram_controller_ctrl`; `metadataPart` is `METADATA_SEL_PART`. -/
structure DramCtl where
  state : DramState
  reqRdy : Bool := false
  respVal : Bool := false
  memReadEn : Bool := false
  memWriteEn : Bool := false
  storeHdrFlit : Bool := false
  initMetadata : Bool := false
  updateMetadata : Bool := false
  metadataPart : Bool := false
  sendHdrFlit : Bool := false
  incrRecvFlits : Bool := false
  incrSentFlits : Bool := false
  storeRdData : Bool := false
  storeSave1 : Bool := false
  selStoreSrc : StoreSrc := .copy
  storeMsgLen : Bool := false

namespace DramController

variable (P : DramParams) (r : DramController) (g : DramSignals)

def reset : DramController := ⟨.ready, default, 0, 0, 0, 0, 0, 0, 0, 0⟩

def blockAddr : Nat := r.currOpAddr % 128

def lineAddr : Nat := r.currOpAddr / 128

/-- `controller_mem_addr` -/
def memAddr : Nat := r.lineAddr % 2 ^ P.memAddrW

/-- Bytes of the first write up to a multiple of the flit size. -/
def bytesFirstWr : Nat := 64 - r.hdrFlit.addr.toNat % 64

def bytesUnwritten : Nat := r.hdrFlit.addr.toNat % 64

def lastMsgPadbytes : Nat :=
  if r.hdrFlit.dataSize.toNat % 64 = 0 then 0 else 64 - r.hdrFlit.dataSize.toNat % 64

def firstRd : Bool := r.hdrFlit.addr.toNat == r.currOpAddr

def lastRespFlit : Bool := r.readFlitsSent == (r.respMsgLen - 1).toNat

def lastReqFlit : Bool := r.currFlitCount == (r.hdrFlit.msgLen - 1).toNat

/-- `curr_op_addr_next` when the metadata is updated. -/
def opAddrAfter (part : Bool) : Nat :=
  (r.currOpAddr + if part then r.bytesFirstWr else 64) % 2 ^ 48

/-- `write_bytes_left_next` when the metadata is updated. -/
def bytesLeftAfter (part : Bool) : Nat :=
  let written := if part then r.bytesFirstWr else 64
  if r.writeBytesLeft > written then r.writeBytesLeft - written else 0

def noc0DataMask : BitVec 64 :=
  if r.lastReqFlit then BitVec.allOnes 64 <<< r.lastMsgPadbytes else BitVec.allOnes 64

def wrMask : StoreSrc → BitVec 128
  | .drain => (r.save1Mask ++ 0#64) <<< r.bytesFirstWr
  | .copy => (r.save1Mask ++ r.noc0DataMask) <<< r.bytesFirstWr
  | .first => ((BitVec.allOnes 64 ++ 0#64) <<< r.bytesUnwritten) &&& (r.noc0DataMask ++ 0#64)

def shiftedWrMask (src : StoreSrc) : BitVec 128 :=
  ((r.wrMask src).extractLsb' 64 64 ++ 0#64) >>> r.blockAddr

def shiftedWrData (src : StoreSrc) (d : Line) : DramLine :=
  match src with
  | .first => join d (0 : Line) >>> (8 * r.blockAddr)
  | _ => (join r.save1 d <<< (8 * r.bytesFirstWr)) >>> (8 * r.blockAddr)

/-- The upper half of `shifted_read_data`. -/
def readFlit : Line := (r.memReadData <<< (8 * r.blockAddr)).extractLsb' 512 512

/-- `datap_ctrl_read_new_line` when the metadata is updated. -/
def readNewLine : Bool := r.opAddrAfter false / 128 != r.lineAddr

/-! ### Control -/

/-- The next state of a write that is taken. -/
def writeNext (part : Bool) : DramState :=
  if r.lastReqFlit then (if r.bytesLeftAfter part = 0 then .wrResp else .wrDataDrain)
  else .wrDataCopy

def ctl : DramCtl :=
  match r.state with
  | .ready =>
    if g.reqVal then
      { state :=
          if (NocHdrFlit.ofFlit g.reqData).msgType = msgTypeLoadMem then .rdOpIssue
          else if (NocHdrFlit.ofFlit g.reqData).msgType = msgTypeStoreMem then .wrFirstData
          else .und
        reqRdy := true, storeHdrFlit := true, initMetadata := true }
    else { state := .ready, reqRdy := true }
  | .rdOpIssue =>
    { state := if g.memRdy then .rdOpWait else .rdOpIssue, memReadEn := true, storeMsgLen := true }
  | .rdOpWait =>
    if g.rdDataVal then
      { state := if r.firstRd then .rdHdrFlit else .rdPayloadResp, storeRdData := true }
    else { state := .rdOpWait }
  | .rdHdrFlit =>
    { state := if g.respRdy then .rdPayloadResp else .rdHdrFlit, respVal := true
      sendHdrFlit := true }
  | .rdPayloadResp =>
    if g.respRdy then
      (if r.lastRespFlit then { state := .ready, respVal := true, incrSentFlits := true }
      else
        { state := if r.readNewLine then .rdOpIssue else .rdPayloadResp, respVal := true
          incrSentFlits := true, updateMetadata := true })
    else { state := .rdPayloadResp, respVal := true }
  | .wrFirstData =>
    if g.reqVal && g.memRdy then
      { state := r.writeNext true, reqRdy := g.memRdy, memWriteEn := g.reqVal
        storeMsgLen := true, selStoreSrc := .first, incrRecvFlits := true, storeSave1 := true
        updateMetadata := true, metadataPart := true }
    else
      { state := .wrFirstData, reqRdy := g.memRdy, memWriteEn := g.reqVal, storeMsgLen := true
        selStoreSrc := .first }
  | .wrDataCopy =>
    if g.reqVal && g.memRdy then
      { state := r.writeNext false, reqRdy := g.memRdy, memWriteEn := g.reqVal
        selStoreSrc := .copy, incrRecvFlits := true, storeSave1 := true, updateMetadata := true }
    else { state := .wrDataCopy, reqRdy := g.memRdy, memWriteEn := g.reqVal, selStoreSrc := .copy }
  | .wrDataDrain =>
    { state := if g.memRdy then .wrResp else .wrDataDrain, memWriteEn := true, selStoreSrc := .drain }
  | .wrResp =>
    { state := if g.respRdy then .ready else .wrResp, respVal := true, sendHdrFlit := true }
  | .und => { state := .und }

/-! ### The clock edge under the signals of the control -/

variable (c : DramCtl)

/-- `controller_noc0_vrtoc_data` -/
def respFlit : RespFlit := if c.sendHdrFlit then .hdr (r.hdrFlit.resp P) else .data r.readFlit

def hdrFlitNext : NocHdrFlit := if c.storeHdrFlit then .ofFlit g.reqData else r.hdrFlit

def next : DramController where
  state := c.state
  hdrFlit := r.hdrFlitNext g c
  currFlitCount :=
    if c.initMetadata then 0
    else if c.incrRecvFlits then (r.currFlitCount + 1) % 2 ^ 22 else r.currFlitCount
  memReadData := if c.storeRdData then g.rdData else r.memReadData
  currOpAddr :=
    if c.initMetadata then (r.hdrFlitNext g c).addr.toNat
    else if c.updateMetadata then r.opAddrAfter c.metadataPart else r.currOpAddr
  readFlitsSent :=
    if c.initMetadata then 0
    else if c.incrSentFlits then (r.readFlitsSent + 1) % 2 ^ 22 else r.readFlitsSent
  respMsgLen := if c.storeMsgLen then (r.hdrFlit.resp P).msgLen else r.respMsgLen
  writeBytesLeft :=
    if c.initMetadata then (r.hdrFlitNext g c).dataSize.toNat
    else if c.updateMetadata then r.bytesLeftAfter c.metadataPart
    else r.writeBytesLeft
  save1 := if c.storeSave1 then g.reqData else r.save1
  save1Mask := if c.storeSave1 then r.noc0DataMask else r.save1Mask

end DramController

/-! ### The controller with the network and the memory -/

/-- A message: the header flit and the data flits. -/
structure DramMsg where
  hdrFlit : Line
  payload : List Line
  deriving DecidableEq

/-- `cur` are the flits of a message that are left to send, `src` the messages behind it, `pending`
the lines that were read and not yet answered, and `out` the flits of the responses. -/
structure DramSystem where
  ctrl : DramController
  mem : Memory
  pending : List DramLine
  src : List DramMsg
  cur : List Line
  out : List RespFlit

/-- What the surroundings do in one cycle; `bus` and `rdBus` are the values of the buses that are not
valid. -/
structure DramEnv where
  offer : Bool
  bus : Line
  respRdy : Bool
  memRdy : Bool
  answer : Bool
  rdBus : DramLine

namespace DramEnv

/-- Everyone does what they can. -/
def calm : DramEnv := ⟨true, 0, true, true, true, 0⟩

end DramEnv

namespace DramSystem

variable (P : DramParams) (s : DramSystem) (e : DramEnv)

/-- The next flit of the source. -/
def nextFlit : Option Line :=
  match s.cur with
  | d :: _ => some d
  | [] => s.src.head?.map DramMsg.hdrFlit

/-- The memory answers the oldest read. -/
def rdDataVal : Bool := e.answer && !s.pending.isEmpty

def signals : DramSignals where
  reqVal := e.offer && s.nextFlit.isSome
  reqData := if e.offer then s.nextFlit.getD e.bus else e.bus
  respRdy := e.respRdy
  memRdy := e.memRdy
  rdDataVal := s.rdDataVal e
  rdData := if s.rdDataVal e then s.pending.headD e.rdBus else e.rdBus

def ctl : DramCtl := s.ctrl.ctl (s.signals e)

variable (c : DramCtl)

/-- A flit is taken from the source. -/
def takes : Bool := (s.signals e).reqVal && c.reqRdy

def memNext : Memory :=
  if c.memWriteEn && e.memRdy then
    writeLine s.mem (s.ctrl.memAddr P) (s.ctrl.shiftedWrData c.selStoreSrc (s.signals e).reqData)
      (s.ctrl.shiftedWrMask c.selStoreSrc)
  else s.mem

def pendingNext : List DramLine :=
  (if s.rdDataVal e then s.pending.tail else s.pending) ++
    (if c.memReadEn && e.memRdy then [readLine 128 s.mem (s.ctrl.memAddr P)] else [])

def curNext : List Line :=
  if s.takes e c then
    (match s.cur with
    | _ :: ds => ds
    | [] => (s.src.head?.map DramMsg.payload).getD [])
  else s.cur

/-- A cycle under the signals of the control. -/
def edge : DramSystem where
  ctrl := s.ctrl.next P (s.signals e) c
  mem := s.memNext P e c
  pending := s.pendingNext P e c
  src := if s.takes e c && s.cur.isEmpty then s.src.tail else s.src
  cur := s.curNext e c
  out := s.out ++ (if c.respVal && e.respRdy then [s.ctrl.respFlit P c] else [])

def cycle : DramSystem := s.edge P e (s.ctl e)

def step : Option DramSystem := some (s.cycle P e)

/-- After a reset, with the messages at the source. -/
def Init (mem : Memory) (msgs : List DramMsg) : Prop :=
  s.ctrl = .reset ∧ s.mem = mem ∧ s.pending = [] ∧ s.src = msgs ∧ s.cur = [] ∧ s.out = []

end DramSystem

end TcpHw
