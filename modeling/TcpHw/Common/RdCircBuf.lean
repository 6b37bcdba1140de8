import TcpHw.Common.CircBufRead

/-!
# `rd_circ_buf`

The first reader asks for whole lines: its requests start at the line the offset is in and end
with the line the last byte is in. Every line handed over is shifted out of two neighbouring lines
of the memory by the place of the offset in its line.
-/
namespace TcpHw

open Bytes Trace

set_option autoImplicit false

inductive RdState where
  | ready | sendWrapRdReq | waitWrapRdResp | waitRdResp | dataBuffer | dataOutput | outputForWrapRd
  | dataDrain
  deriving DecidableEq, Inhabited

structure RdCircBuf where
  state : RdState
  currOffset : Nat
  partReqEntry : MemReq
  reqOffset : Nat
  bytesRemain : Nat
  bytesLeftToOutput : Nat
  flowid : FlowId
  shiftUpper : Line
  shiftLower : Line
  deriving Inhabited

namespace RdCircBuf

variable (W : Nat) (b : RdCircBuf) (g : RdSignals)

def currOffsetMux : Nat := if b.state = .ready then g.req.offset else b.currOffset

def bytesRemainMux : Nat := if b.state = .ready then g.req.size else b.bytesRemain

def flowidMux : FlowId := if b.state = .ready then g.req.flowid else b.flowid

def spaceToEnd : Nat := 2 ^ W - b.currOffsetMux g

/-- Two requests are needed if the read rolls over the end of the buffer. -/
def reqSize : Nat :=
  if b.spaceToEnd W g < b.bytesRemainMux g then b.spaceToEnd W g else b.bytesRemainMux g

/-- `part_req_entry`: from the line the offset is in, rounded up to whole lines. -/
def partReq : MemReq where
  memReqAddr := (b.flowidMux g).val * 2 ^ W + (b.currOffsetMux g - b.currOffsetMux g % 64)
  memReqSize :=
    if b.reqSize W g % 64 = 0 ∧ b.currOffsetMux g % 64 = 0 then b.reqSize W g
    else if (b.reqSize W g + b.currOffsetMux g) % 64 = 0 then
      b.reqSize W g + b.currOffsetMux g % 64
    else
      (b.reqSize W g + b.currOffsetMux g % 64 + 64) -
        (b.reqSize W g + b.currOffsetMux g % 64 + 64) % 64

/-- `datapath_ctrl_resp_data_masked` -/
def respDataMasked : Line :=
  if g.respLast then g.respData &&& (BitVec.allOnes _ <<< (8 * g.respPadbytes)) else g.respData

/-- `rd_buf_src_data` -/
def srcData : Line := upperShl b.shiftUpper b.shiftLower (8 * (b.reqOffset % 64))

/-- `ctrl_datapath_rd_req_val` with the request. -/
def memReq : Option MemReq :=
  match b.state with
  | .ready => if g.reqVal then some (b.partReq W g) else none
  | .sendWrapRdReq => some (b.partReq W g)
  | _ => none

/-- `ctrl_datapath_resp_data_rdy` -/
def respRdy (dataRdy : Bool) : Bool :=
  match b.state with
  | .waitWrapRdResp | .waitRdResp | .dataBuffer => true
  | .dataOutput => dataRdy
  | _ => false

/-- The line offered to the source. -/
def out : Option RdOut :=
  match b.state with
  | .outputForWrapRd => some ⟨b.srcData, false, 0⟩
  | .dataOutput => if g.respVal then some ⟨b.srcData, false, 0⟩ else none
  | .dataDrain =>
    some ⟨b.srcData, decide (b.bytesLeftToOutput ≤ 64),
      if b.bytesLeftToOutput ≤ 64 then 64 - b.bytesLeftToOutput else 0⟩
  | _ => none

/-- `init_curr_offset_reg`: the offset behind the request. -/
def nextOffset : Nat := (b.partReqEntry.memReqAddr + b.partReqEntry.memReqSize) % 2 ^ W

def step : RdCircBuf :=
  match b.state with
  | .ready =>
    if g.reqVal && g.memReqRdy then
      { b with
        state := .waitRdResp
        flowid := g.req.flowid
        partReqEntry := b.partReq W g
        reqOffset := g.req.offset
        bytesRemain := g.req.size - b.reqSize W g
        bytesLeftToOutput := g.req.size }
    else b
  | .sendWrapRdReq =>
    if g.memReqRdy then
      { b with
        state := .waitWrapRdResp
        partReqEntry := b.partReq W g
        bytesRemain := b.bytesRemain - b.reqSize W g }
    else b
  | .waitWrapRdResp =>
    if g.respVal then
      { b with
        state := if g.respLast then .dataDrain else .dataOutput
        currOffset := b.nextOffset W
        shiftLower := respDataMasked g }
    else { b with currOffset := b.nextOffset W }
  | .waitRdResp =>
    if g.respVal then
      if g.respLast then
        { b with
          state := if b.bytesRemain ≠ 0 then .sendWrapRdReq else .dataDrain
          currOffset := b.nextOffset W
          shiftUpper := respDataMasked g
          shiftLower := 0 }
      else
        { b with
          state := .dataBuffer
          currOffset := b.nextOffset W
          shiftLower := respDataMasked g }
    else { b with currOffset := b.nextOffset W }
  | .dataBuffer =>
    if g.respVal then
      { b with
        state :=
          if g.respLast then if b.bytesRemain ≠ 0 then .outputForWrapRd else .dataDrain
          else .dataOutput
        shiftUpper := b.shiftLower
        shiftLower := respDataMasked g }
    else b
  | .outputForWrapRd =>
    if g.dataRdy then
      { b with
        state := .sendWrapRdReq
        shiftUpper := b.shiftLower
        bytesLeftToOutput := (b.bytesLeftToOutput + 2 ^ 30 - 64) % 2 ^ 30 }
    else b
  | .dataOutput =>
    if g.respVal && g.dataRdy then
      { b with
        state :=
          if g.respLast then if b.bytesRemain ≠ 0 then .outputForWrapRd else .dataDrain
          else .dataOutput
        shiftUpper := b.shiftLower
        shiftLower := respDataMasked g
        bytesLeftToOutput := (b.bytesLeftToOutput + 2 ^ 30 - 64) % 2 ^ 30 }
    else b
  | .dataDrain =>
    if g.dataRdy then
      if b.bytesLeftToOutput > 64 then
        { b with
          shiftUpper := b.shiftLower
          shiftLower := 0
          bytesLeftToOutput := b.bytesLeftToOutput - 64 }
      else { b with state := .ready, bytesLeftToOutput := 0 }
    else b

end RdCircBuf

def rdCircBuf (W : Nat) : RdCore RdCircBuf where
  idle := fun b => b.state == .ready
  memReq := RdCircBuf.memReq W
  respRdy := RdCircBuf.respRdy
  out := RdCircBuf.out
  step := RdCircBuf.step W

end TcpHw
