import TcpHw.Common.CircBufRead

/-!
# `rd_circ_buf_new`

The reader asks for the bytes of the request, in two requests if they reach over the end of the
ring. The first response then ends inside a line in general: the lines of the second are appended
to what is left of it, with the padding of the first response as the shift.
-/
namespace TcpHw

open Bytes Trace

set_option autoImplicit false

inductive RdNewState where
  | ready | waitResp | dataBuffer | dataOutput | dataDrain | dataOutForWrap | wrapReq | waitWrapResp
  deriving DecidableEq, Inhabited

structure RdCircBufNew where
  state : RdNewState
  needWrap : Bool
  useShift : Bool
  reqFlowid : FlowId
  bytesRemain : Nat
  currOffset : Nat
  bytesLeftOut : Nat
  shiftBytes : Nat
  memReqReg : MemReq
  shiftUpper : Line
  shiftLower : Line
  deriving Inhabited

/-- The next control state and the control signals of the datapath. -/
structure RdNewCtl where
  state : RdNewState
  needWrap : Bool
  useShift : Bool
  writeUpper : Bool := false
  writeLower : Bool := false
  storeShift : Bool := false
  shiftRegs : Bool := false
  decrBytesOut : Bool := false
  lowerZeros : Bool := false

namespace RdCircBufNew

variable (W : Nat) (b : RdCircBufNew) (g : RdSignals)

/-- `ctrl_datap_store_req_state` and `ctrl_datap_save_req` -/
def storeReqState : Bool := b.state == .ready

/-- `ctrl_datap_update_req_state` -/
def updateReqState : Bool := (b.state == .waitResp || b.state == .waitWrapResp) && g.respVal

def reqFlowidNext : FlowId := if b.storeReqState then g.req.flowid else b.reqFlowid

def currOffsetNext : Nat :=
  if b.storeReqState then g.req.offset
  else if b.updateReqState g then (b.currOffset + b.memReqReg.memReqSize) % 2 ^ W
  else b.currOffset

def bytesRemainNext : Nat :=
  if b.storeReqState then g.req.size
  else if b.updateReqState g then (b.bytesRemain + 2 ^ 30 - b.memReqReg.memReqSize) % 2 ^ 30
  else b.bytesRemain

def spaceToEnd : Nat := 2 ^ W - b.currOffsetNext W g

/-- `datap_ctrl_split_req` -/
def splitReq : Bool := b.spaceToEnd W g < b.bytesRemainNext g

/-- `datap_rd_noc_req` -/
def rdNocReq : MemReq where
  memReqAddr := (b.reqFlowidNext g).val * 2 ^ W + b.currOffsetNext W g
  memReqSize := if b.splitReq W g then b.spaceToEnd W g else b.bytesRemainNext g

/-- `datap_ctrl_last_data_out` -/
def lastDataOut : Bool := b.bytesLeftOut ≤ 64

/-- `mem_data_shift_bits` -/
def memDataShiftBits : Nat := if b.useShift then 8 * b.shiftBytes else 0

/-- `shift_upper_data`: the padding is shifted out of the upper line. -/
def shiftUpperData : Line := b.shiftUpper >>> b.memDataShiftBits

/-- `rd_buf_src_resp_data` -/
def respData : Line := upperShl b.shiftUpperData b.shiftLower b.memDataShiftBits

def respDataPadbytes : Nat := if b.lastDataOut then 64 - b.bytesLeftOut else 0

/-- `rd_circ_buf_ctrl_new`, its next state and its signals to the datapath. -/
def ctl : RdNewCtl :=
  match b.state with
  | .ready =>
    { state := if g.reqVal && g.memReqRdy then .waitResp else .ready
      needWrap := b.splitReq W g, useShift := false }
  | .waitResp =>
    if g.respVal then
      -- only one line in the response
      if g.respLast then
        { state := if b.needWrap then .wrapReq else .dataDrain
          needWrap := b.needWrap, useShift := b.useShift, writeUpper := true, storeShift := true }
      else
        { state := .dataBuffer, needWrap := b.needWrap, useShift := b.useShift, shiftRegs := true }
    else { state := .waitResp, needWrap := b.needWrap, useShift := b.useShift }
  | .dataBuffer =>
    if g.respVal then
      if g.respLast then
        { state := if b.needWrap then .dataOutForWrap else .dataDrain
          needWrap := b.needWrap, useShift := b.useShift, shiftRegs := true
          storeShift := b.needWrap }
      else
        { state := .dataOutput, needWrap := b.needWrap, useShift := b.useShift, shiftRegs := true }
    else { state := .dataBuffer, needWrap := b.needWrap, useShift := b.useShift }
  | .dataOutput =>
    if g.respVal && g.dataRdy then
      { state :=
          if g.respLast then
            if b.needWrap then .dataOutForWrap else if b.lastDataOut then .ready else .dataDrain
          else .dataOutput
        needWrap := b.needWrap, useShift := b.useShift, shiftRegs := true, decrBytesOut := true
        storeShift := g.respLast && b.needWrap }
    else { state := .dataOutput, needWrap := b.needWrap, useShift := b.useShift }
  | .dataDrain =>
    if g.dataRdy then
      if b.lastDataOut then { state := .ready, needWrap := b.needWrap, useShift := b.useShift }
      else
        { state := .dataDrain, needWrap := b.needWrap, useShift := b.useShift
          decrBytesOut := true, shiftRegs := true, lowerZeros := true }
    else { state := .dataDrain, needWrap := b.needWrap, useShift := b.useShift }
  | .dataOutForWrap =>
    if g.dataRdy then
      { state := .wrapReq, needWrap := b.needWrap, useShift := b.useShift
        decrBytesOut := true, shiftRegs := true }
    else { state := .dataOutForWrap, needWrap := b.needWrap, useShift := b.useShift }
  | .wrapReq =>
    { state := if g.memReqRdy then .waitWrapResp else .wrapReq, needWrap := false
      useShift := true }
  | .waitWrapResp =>
    if g.respVal then
      { state := if g.respLast then .dataDrain else .dataOutput
        needWrap := b.needWrap, useShift := b.useShift, writeLower := true }
    else { state := .waitWrapResp, needWrap := b.needWrap, useShift := b.useShift }

/-- `ctrl_rd_noc_req_val` with the request. -/
def memReq : Option MemReq :=
  match b.state with
  | .ready => if g.reqVal then some (b.rdNocReq W g) else none
  | .wrapReq => some (b.rdNocReq W g)
  | _ => none

/-- `ctrl_rd_noc_resp_data_rdy` -/
def respRdy (dataRdy : Bool) : Bool :=
  match b.state with
  | .waitResp | .dataBuffer | .waitWrapResp => true
  | .dataOutput => dataRdy
  | _ => false

/-- The line offered to the source. -/
def out : Option RdOut :=
  match b.state with
  | .dataOutput =>
    if g.respVal then
      some ⟨b.respData, g.dataRdy && g.respLast && !b.needWrap && b.lastDataOut, b.respDataPadbytes⟩
    else none
  | .dataDrain => some ⟨b.respData, b.lastDataOut, b.respDataPadbytes⟩
  | .dataOutForWrap => some ⟨b.respData, false, b.respDataPadbytes⟩
  | _ => none

/-- The clock edge. -/
def step : RdCircBufNew :=
  let c := b.ctl W g
  { state := c.state
    needWrap := c.needWrap
    useShift := c.useShift
    reqFlowid := b.reqFlowidNext g
    bytesRemain := b.bytesRemainNext g
    currOffset := b.currOffsetNext W g
    bytesLeftOut :=
      if b.storeReqState then g.req.size
      else if c.decrBytesOut then (b.bytesLeftOut + 2 ^ 30 - 64) % 2 ^ 30 else b.bytesLeftOut
    shiftBytes :=
      if b.storeReqState then 0 else if c.storeShift then g.respPadbytes else b.shiftBytes
    memReqReg := if b.storeReqState then b.rdNocReq W g else b.memReqReg
    shiftUpper :=
      if c.writeUpper then g.respData
      else if c.shiftRegs then lowerShl b.shiftUpperData b.shiftLower b.memDataShiftBits
      else b.shiftUpper
    shiftLower :=
      if c.shiftRegs || c.writeLower then if c.lowerZeros then 0 else g.respData
      else b.shiftLower }

end RdCircBufNew

def rdCircBufNew (W : Nat) : RdCore RdCircBufNew where
  idle := fun b => b.state == .ready
  memReq := RdCircBufNew.memReq W
  respRdy := RdCircBufNew.respRdy
  out := RdCircBufNew.out
  step := RdCircBufNew.step W

end TcpHw
