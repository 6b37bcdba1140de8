import TcpHw.Frontend.IpToEthstream
import TcpHw.Frontend.ChksumOutput

/-!
# `eth_frame_format`

The formatter behind the MAC drops the Ethernet header of a frame and gives out the bytes behind it,
each line from two neighbouring lines of the input. A frame with a VLAN tag has a longer header, and
the type behind the tag is given out for it. The header goes out on a port of its own; the header
machine and the data machine leave a frame together.
-/
namespace TcpHw

open Bytes Framing

set_option autoImplicit false

/-! ### The first line of a frame -/

/-- `eth_hdr_vlan` -/
structure EthHdrVlan where
  dst : BitVec 48
  src : BitVec 48
  vlanTag : BitVec 32
  ethType : BitVec 16
  deriving DecidableEq, Inhabited

/-- `eth_hdr_struct_cast` -/
def ethHdrCast (x : Line) : EthHdr where
  dst := x.extractLsb' 464 48
  src := x.extractLsb' 416 48
  ethType := x.extractLsb' 400 16

/-- `eth_hdr_vlan_cast` -/
def ethHdrVlanCast (x : Line) : EthHdrVlan where
  dst := x.extractLsb' 464 48
  src := x.extractLsb' 416 48
  vlanTag := x.extractLsb' 384 32
  ethType := x.extractLsb' 368 16

/-- The type is `ETH_TYPE_VLAN`. -/
def isVlan (x : Line) : Bool := (ethHdrCast x).ethType == 0x8100

/-- `ETH_HDR_VLAN_BYTES` or `ETH_HDR_BYTES` -/
def ethHdrBytes (x : Line) : Nat := if isVlan x then 18 else 14

/-- One line from the MAC; `frameSize` has `MTU_SIZE_W` bits. -/
structure EthLine where
  line : DataLine
  frameSize : BitVec 14
  deriving DecidableEq, Inhabited

namespace EthFrameFormat

/-- `data_state_e` -/
inductive DataState where
  | ready | firstData | dataOutput | dataOutputLast | dataWaitTxFin
  deriving DecidableEq, Inhabited

end EthFrameFormat

/-- The registers of `eth_frame_format`. -/
structure EthFrameFormat where
  dataState : EthFrameFormat.DataState
  hdrState : OutputHdrState
  ethHdr : EthHdr
  dataSize : BitVec 14
  realignUpper : Line
  realignLower : Line
  realignShift : BitVec 8
  dataPadbytes : BitVec 6
  bytesLeft : BitVec 7

/-- The header port. -/
structure EthFormatHdr where
  ethHdr : EthHdr
  dataSize : BitVec 14
  deriving DecidableEq, Inhabited

/-- `src` is on the bus, also while `srcVal` is low. -/
structure EthFormatWires where
  srcVal : Bool
  src : EthLine
  hdrRdy : Bool
  dataRdy : Bool

/-! ### One cycle -/

namespace EthFrameFormat

variable (r : EthFrameFormat) (i : EthFormatWires)

def reset : EthFrameFormat := ⟨.ready, .waiting, ⟨0, 0, 0⟩, 0, 0, 0, 0, 0, 0⟩

/-- `eth_format_src_rdy` -/
def srcRdy : Bool :=
  match r.dataState with
  | .ready | .firstData => true
  | .dataOutput => i.dataRdy
  | .dataOutputLast | .dataWaitTxFin => false

/-- A line is taken. -/
def takes : Bool := i.srcVal && r.srcRdy i

/-- `output_hdr`: the first line of a frame is taken. -/
def outputHdr : Bool := r.dataState == .ready && i.srcVal

/-- `eth_format_dst_data_val` -/
def dataVal : Bool :=
  match r.dataState with
  | .dataOutput => i.srcVal
  | .dataOutputLast => true
  | _ => false

/-- A line is given out. -/
def gives : Bool := r.dataVal i && i.dataRdy

/-- `eth_format_dst_data_last` -/
def dataLast : Bool := r.dataState == .dataOutputLast && decide (r.bytesLeft.toNat ≤ 64)

/-- `padbytes_temp` -/
def padbytesTemp : BitVec 6 := BitVec.ofNat 6 (r.realignShift.toNat / 8 + r.dataPadbytes.toNat)

/-- The data port while it is valid. -/
def dataOut : DataLine where
  data := upperShl r.realignUpper r.realignLower r.realignShift.toNat
  padbytes := if r.dataLast then r.padbytesTemp else 0
  last := r.dataLast

/-- `eth_format_dst_hdr_val` -/
def hdrVal : Bool := r.hdrState == .output

/-- The header is given out. -/
def givesHdr : Bool := r.hdrVal && i.hdrRdy

/-- The header port while it is valid. -/
def hdrOut : EthFormatHdr := ⟨r.ethHdr, r.dataSize⟩

/-- The bytes that are left need another line after this one. -/
def goesAround : Bool :=
  r.dataState == .dataOutputLast && i.dataRdy && decide (64 < r.bytesLeft.toNat)

/-- The last line of a frame is taken behind another one. -/
def endsFrame : Bool :=
  i.src.line.last && (r.dataState == .firstData && i.srcVal || r.dataState == .dataOutput && r.gives i)

def dataStateNext : DataState :=
  match r.dataState with
  | .ready =>
    if i.srcVal then (if i.src.line.last then .dataOutputLast else .firstData) else .ready
  | .firstData =>
    if i.srcVal then (if i.src.line.last then .dataOutputLast else .dataOutput) else .firstData
  | .dataOutput =>
    if r.gives i then (if i.src.line.last then .dataOutputLast else .dataOutput)
    else .dataOutput
  | .dataOutputLast =>
    if i.dataRdy then (if 64 < r.bytesLeft.toNat then .dataOutputLast else .dataWaitTxFin)
    else .dataOutputLast
  | .dataWaitTxFin => if r.hdrState = .waitTxFin then .ready else .dataWaitTxFin

def hdrStateNext : OutputHdrState :=
  match r.hdrState with
  | .waiting => if r.outputHdr i then .output else .waiting
  | .output => if i.hdrRdy then .waitTxFin else .output
  | .waitTxFin => if r.dataState = .dataWaitTxFin then .waiting else .waitTxFin

/-- A tagged frame writes the type only. -/
def ethHdrNext : EthHdr :=
  if r.outputHdr i then
    if isVlan i.src.line.data then
      { r.ethHdr with ethType := (ethHdrVlanCast i.src.line.data).ethType }
    else ethHdrCast i.src.line.data
  else r.ethHdr

def dataSizeNext : BitVec 14 :=
  if r.outputHdr i then
    (if isVlan i.src.line.data then i.src.frameSize - 18 else i.src.frameSize - 14)
  else r.dataSize

def realignShiftNext : BitVec 8 :=
  if r.outputHdr i then (if isVlan i.src.line.data then 144 else 112) else r.realignShift

def realignUpperNext : Line :=
  match r.dataState with
  | .ready => if i.srcVal then i.src.line.data else r.realignUpper
  | .dataOutput => if r.gives i then r.realignLower else r.realignUpper
  | .dataOutputLast => if r.goesAround i then r.realignLower else r.realignUpper
  | _ => r.realignUpper

def realignLowerNext : Line :=
  match r.dataState with
  | .firstData => if i.srcVal then i.src.line.data else r.realignLower
  | .dataOutput => if r.gives i then i.src.line.data else r.realignLower
  | .dataOutputLast => if r.goesAround i then 0 else r.realignLower
  | _ => r.realignLower

def dataPadbytesNext : BitVec 6 :=
  if r.outputHdr i && i.src.line.last || r.endsFrame i then i.src.line.padbytes else r.dataPadbytes

/-- `INIT_SMALL`, `INIT`, `DECR` and `HOLD` -/
def bytesLeftNext : BitVec 7 :=
  if r.outputHdr i && i.src.line.last then 64 - (r.realignShiftNext i >>> 3).setWidth 7
  else if r.endsFrame i then
    64 - (r.realignShiftNext i >>> 3).setWidth 7 + 64 - i.src.line.padbytes.setWidth 7
  else if r.goesAround i then r.bytesLeft - 64
  else r.bytesLeft

/-- One clock edge. -/
def next : EthFrameFormat where
  dataState := r.dataStateNext i
  hdrState := r.hdrStateNext i
  ethHdr := r.ethHdrNext i
  dataSize := r.dataSizeNext i
  realignUpper := r.realignUpperNext i
  realignLower := r.realignLowerNext i
  realignShift := r.realignShiftNext i
  dataPadbytes := r.dataPadbytesNext i
  bytesLeft := r.bytesLeftNext i

end EthFrameFormat

/-! ### Frames -/

/-- A frame with at least one byte behind its header. What is in the padding of its last line is not
fixed. -/
structure EthFrame where
  head : EthLine
  tail : List EthLine
  bytes : List (BitVec 8)
  carries : Carries (head.line :: tail.map EthLine.line) bytes
  frameSize : head.frameSize.toNat = bytes.length
  behind : ethHdrBytes head.line.data < bytes.length

namespace EthFrame

variable (x : EthFrame)

def lines : List EthLine := x.head :: x.tail

/-- The frame has a VLAN tag. -/
def tagged : Bool := isVlan x.head.line.data

def hdrLen : Nat := ethHdrBytes x.head.line.data

/-- The addresses of the frame and its type, for a tagged frame the inner one. -/
def hdr : EthHdr where
  dst := (ethHdrCast x.head.line.data).dst
  src := (ethHdrCast x.head.line.data).src
  ethType :=
    if x.tagged then (ethHdrVlanCast x.head.line.data).ethType
    else (ethHdrCast x.head.line.data).ethType

/-- The bytes behind the header. -/
def payload : List (BitVec 8) := x.bytes.drop x.hdrLen

/-- The header port should give this out for the frame. -/
def hdrOut : EthFormatHdr := ⟨x.hdr, BitVec.ofNat 14 (x.bytes.length - x.hdrLen)⟩

theorem hdrLen_le : x.hdrLen ≤ 18 := by
  unfold hdrLen ethHdrBytes
  split <;> decide

theorem length_payload : x.payload.length = x.bytes.length - x.hdrLen := List.length_drop ..

theorem length_bytes_lt : x.bytes.length < 2 ^ 14 := by
  rw [← x.frameSize]
  exact x.head.frameSize.isLt

end EthFrame

end TcpHw
