import TcpHw.Frontend.TcpStream
import TcpHw.Frontend.IpToEthstream
import TcpHw.Lib.Machines

/-!
# `tcp_to_stream`

The TCP header goes in front of the lines of its payload; every line carries over its last 20 bytes.
The machine counts the bytes it still has to take and to give out, from the length of the segment
and the data offset of the header; it does not look at the last mark and the padding of the lines.
The addresses and the length go out on a port of their own, and the two ports finish a packet
together.
-/
namespace TcpHw

open Bytes Framing Machines Trace

set_option autoImplicit false

namespace TcpToStream

/-- `data_state_e` -/
inductive DataState where
  | ready | output | outputLast | waitTxFin
  deriving DecidableEq, Inhabited

end TcpToStream

/-- The registers of `tcp_to_stream`. -/
structure TcpToStream where
  dataState : TcpToStream.DataState
  hdrState : OutputHdrState
  inputPadbytes : BitVec 6
  save : BitVec (8 * 20)
  tcpHdrSaved : Bool
  bytesToSend : BitVec 16
  bytesToRecv : BitVec 16
  srcIpAddr : BitVec 32
  dstIpAddr : BitVec 32
  tcpLen : BitVec 16

/-- The header port on the source's side. -/
structure StreamReq where
  srcIpAddr : BitVec 32
  dstIpAddr : BitVec 32
  tcpLen : BitVec 16
  tcpHdr : TcpPktHdr
  deriving DecidableEq, Inhabited

/-- The header port on the other side. -/
structure StreamHdr where
  srcIp : BitVec 32
  dstIp : BitVec 32
  tcpLen : BitVec 16
  protocol : BitVec 8
  deriving DecidableEq, Inhabited

structure StreamWires where
  hdrVal : Bool
  req : StreamReq
  dataVal : Bool
  line : DataLine
  hdrRdy : Bool
  dataRdy : Bool

/-- `payload_bytes` -/
def StreamReq.payloadBytes (q : StreamReq) : BitVec 16 := q.tcpLen - q.tcpHdr.hdrBytes

namespace TcpToStream

variable (r : TcpToStream) (i : StreamWires)

/-- A header is taken. -/
def takesHdr : Bool := r.dataState == .ready && i.hdrVal

/-- A line is taken, and one is given out with it. -/
def takesData : Bool := r.dataState == .output && (i.dataVal && i.dataRdy)

/-- `tcp_to_stream_dst_val` and the ready of the other side. -/
def gives : Bool := r.takesData i || (r.dataState == .outputLast && i.dataRdy)

/-- The last bytes are received with this line. -/
def recvLast : Bool := decide (r.bytesToRecv.toNat ≤ 64)

/-- Bytes of payload in a line behind what is saved: the header, or bytes of the line before. -/
def room : BitVec 16 := if r.tcpHdrSaved then 44 else 64

/-- The remaining data is sent with this line. -/
def sendLast : Bool := decide (r.bytesToSend.toNat ≤ r.room.toNat)

/-- `output_padbytes` -/
def outputPadbytes : BitVec 6 := 44 + r.inputPadbytes

/-- `tcp_to_stream_dst_last` -/
def dstLast : Bool := r.dataState == .outputLast || (r.takesData i && r.recvLast && r.sendLast)

/-- `tcp_to_stream_dst_padbytes` -/
def dstPadbytes : BitVec 6 := if r.dstLast i then r.outputPadbytes else 0

/-- The data port. The mask clears as many bits as there are bytes of padding. -/
def dataOut : DataLine where
  data := fill r.save (if r.dataState = .output then i.line.data else 0) &&&
    BitVec.allOnes 512 <<< (r.dstPadbytes i).toNat
  padbytes := r.dstPadbytes i
  last := r.dstLast i

def hdrVal : Bool := r.hdrState == .output

/-- The header port. -/
def hdrOut : StreamHdr := ⟨r.srcIpAddr, r.dstIpAddr, r.tcpLen, 6⟩

def hdrGiven : List StreamHdr := if r.hdrVal && i.hdrRdy then [r.hdrOut] else []

def dataGiven : List (Beat (BitVec 8)) := if r.gives i then [(r.dataOut i).read] else []

def dataNext : DataState :=
  match r.dataState with
  | .ready => if i.hdrVal then (if i.req.tcpLen = 20 then .outputLast else .output) else .ready
  | .output =>
    if r.takesData i && r.recvLast then (if r.sendLast then .waitTxFin else .outputLast)
    else .output
  | .outputLast => if i.dataRdy then .waitTxFin else .outputLast
  | .waitTxFin => if r.hdrState = .waitTxFin then .ready else .waitTxFin

def hdrNext : OutputHdrState :=
  match r.hdrState with
  | .waiting => if r.takesHdr i then .output else .waiting
  | .output => if i.hdrRdy then .waitTxFin else .output
  | .waitTxFin => if r.dataState = .waitTxFin then .waiting else .waitTxFin

/-- `store_inputs_val` -/
def storesInputs : Bool := r.hdrState == .waiting && r.takesHdr i

/-- One clock edge. -/
def next : TcpToStream where
  dataState := r.dataNext i
  hdrState := r.hdrNext i
  inputPadbytes :=
    if r.takesHdr i then (if i.req.tcpLen = 20 then 0 else 64 - i.req.payloadBytes.setWidth 6)
    else r.inputPadbytes
  save :=
    if r.takesHdr i then i.req.tcpHdr.bits
    else if r.takesData i then i.line.data.setWidth (8 * 20) else r.save
  tcpHdrSaved := if r.takesHdr i then true else if r.takesData i then false else r.tcpHdrSaved
  bytesToSend :=
    if r.takesHdr i then i.req.payloadBytes
    else if r.takesData i then
      (if r.recvLast && r.sendLast then 0 else r.bytesToSend - r.room)
    else r.bytesToSend
  bytesToRecv :=
    if r.takesHdr i then i.req.payloadBytes
    else if r.takesData i then (if r.recvLast then 0 else r.bytesToRecv - 64)
    else r.bytesToRecv
  srcIpAddr := if r.storesInputs i then i.req.srcIpAddr else r.srcIpAddr
  dstIpAddr := if r.storesInputs i then i.req.dstIpAddr else r.dstIpAddr
  tcpLen := if r.storesInputs i then i.req.tcpLen else r.tcpLen

end TcpToStream

/-! ### Packets -/

/-- A header with data offset 5 and the lines of its payload. -/
structure StreamPkt where
  req : StreamReq
  payload : List (BitVec 8)
  lines : List DataLine
  offset : req.tcpHdr.rawDataOffset = 5
  len : req.tcpLen.toNat = 20 + payload.length
  carried : lines.map DataLine.read = beats 64 payload

namespace StreamPkt

variable (x : StreamPkt)

/-- What goes out on the header port. -/
def hdr : StreamHdr := ⟨x.req.srcIpAddr, x.req.dstIpAddr, x.req.tcpLen, 6⟩

/-- What goes out on the data port: the header and the payload. -/
def bytes : List (BitVec 8) := lineBytes x.req.tcpHdr.bits ++ x.payload

theorem toNat_payloadBytes : x.req.payloadBytes.toNat = x.payload.length := by
  have hoff : x.req.tcpHdr.hdrBytes.toNat = 20 := by rw [TcpPktHdr.toNat_hdrBytes, x.offset]; rfl
  have hlen := x.len
  unfold StreamReq.payloadBytes
  bv_omega

end StreamPkt

/-! ### The surroundings of a serialiser -/

/-- What the surroundings of a serialiser do in one cycle; the last two fields are what is on the
buses while nothing is valid there. -/
structure SerialEnv (B : Type) where
  offerHdr : Bool
  offerData : Bool
  hdrRdy : Bool
  dataRdy : Bool
  hdrBus : B
  lineBus : DataLine

/-- A header is offered, a line is offered while the data port is ready, or a port is ready. -/
inductive SerialEvent where
  | hdr | data | hdrRdy | dataRdy
  deriving DecidableEq

def SerialEnv.Given {B : Type} (e : SerialEnv B) : SerialEvent → Prop
  | .hdr => e.offerHdr = true
  | .data => e.offerData = true ∧ e.dataRdy = true
  | .hdrRdy => e.hdrRdy = true
  | .dataRdy => e.dataRdy = true

/-- What a source shows on a bus. -/
def onBus {α : Type} (offer : Bool) (bus : α) (queue : List α) : α :=
  if offer then queue.headD bus else bus

theorem onBus_of_val {α : Type} {offer : Bool} {bus : α} {queue : List α}
    (hv : (offer && !queue.isEmpty) = true) : ∃ t, queue = onBus offer bus queue :: t := by
  obtain ⟨ho, hne⟩ := Bool.and_eq_true_iff.mp hv
  cases queue with
  | nil => simp at hne
  | cons y t => exact ⟨t, by simp [onBus, ho]⟩

def StreamPkt.wires (e : SerialEnv StreamReq) (q : List StreamPkt × List DataLine) :
    StreamWires where
  hdrVal := e.offerHdr && !q.1.isEmpty
  req := onBus e.offerHdr e.hdrBus (q.1.map StreamPkt.req)
  dataVal := e.offerData && !q.2.isEmpty
  line := onBus e.offerData e.lineBus q.2
  hdrRdy := e.hdrRdy
  dataRdy := e.dataRdy

def tcpStream : PairMachine TcpToStream StreamPkt DataLine StreamWires (SerialEnv StreamReq)
    StreamHdr (Beat (BitVec 8)) where
  wires := StreamPkt.wires
  next := TcpToStream.next
  takesHdr := TcpToStream.takesHdr
  takesData := TcpToStream.takesData
  hdrGiven := TcpToStream.hdrGiven
  dataGiven := TcpToStream.dataGiven

def streamKind : LineKind StreamPkt DataLine StreamHdr (Beat (BitVec 8)) where
  lines := StreamPkt.lines
  hdrs x := [x.hdr]
  data x := beats 64 x.bytes

/-! ### One packet -/

namespace TcpToStream

variable {r : TcpToStream} {i : StreamWires} {cur tail : List DataLine} {h : List StreamHdr}
  {d : List (Beat (BitVec 8))} {bs : List (BitVec 8)}

def Idle (r : TcpToStream) : Prop := r.dataState = .ready ∧ r.hdrState = .waiting

/-- The header of the packet in hand is still owed, or was given out. -/
def HdrOwes (r : TcpToStream) (h : List StreamHdr) : Prop :=
  r.hdrState = .output ∧ h = [r.hdrOut] ∨ r.hdrState = .waitTxFin ∧ h = []

/-- The lines `cur` of the packet in hand are still to come, and `h` and `d` are owed for it. -/
inductive Phase (r : TcpToStream) (cur : List DataLine) (h : List StreamHdr)
    (d : List (Beat (BitVec 8))) : Prop
  | output (bs : List (BitVec 8)) (hs : r.dataState = .output) (hh : HdrOwes r h)
      (hc : Carries cur bs) (hrecv : r.bytesToRecv.toNat = bs.length)
      (hsend : r.bytesToSend.toNat = bs.length + if r.tcpHdrSaved then 0 else 20)
      (hpad : r.inputPadbytes.toNat = (64 - bs.length % 64) % 64)
      (hd : d = beats 64 (lineBytes r.save ++ bs))
  | outputLast (k : Nat) (hs : r.dataState = .outputLast) (hh : HdrOwes r h) (hc : cur = [])
      (hk : 0 < k ∧ k ≤ 20) (hpad : r.outputPadbytes.toNat = 64 - k)
      (hd : d = beats 64 ((lineBytes r.save).take k))
  | waitTxFin (hs : r.dataState = .waitTxFin) (hh : HdrOwes r h) (hc : cur = []) (hd : d = [])

def awaits (r : TcpToStream) : SerialEvent :=
  match r.dataState with
  | .ready => .hdr
  | .output => .data
  | .outputLast => .dataRdy
  | .waitTxFin => .hdrRdy

def phases : PairPhases TcpToStream DataLine StreamHdr (Beat (BitVec 8)) SerialEvent where
  idle := Idle
  inside := Phase
  left r := if r.dataState = .ready then 0 else 1
  most := 1
  awaits := awaits

/-! ### The registers -/

theorem takesHdr_eq_false (hs : r.dataState ≠ .ready) : r.takesHdr i = false := by
  simp [takesHdr, hs]

theorem outputPadbytes_next (hs : r.dataState ≠ .ready) :
    (r.next i).outputPadbytes = r.outputPadbytes := by
  simp [outputPadbytes, next, takesHdr_eq_false hs]

theorem toNat_outputPadbytes (hpad : r.inputPadbytes.toNat = (64 - bs.length % 64) % 64) :
    r.outputPadbytes.toNat = (108 - bs.length % 64) % 64 := by
  rw [outputPadbytes, BitVec.toNat_add, hpad]
  show (44 + _) % 64 = _
  omega

/-- The line holds what was saved and the first bytes of the line that is taken. -/
theorem lineBytes_filled (save : BitVec (8 * 20)) (x : Line) :
    lineBytes (fill save x) = lineBytes save ++ (lineBytes x).take 44 :=
  lineBytes_fill save x (by decide)

/-- A line that is not the last one. -/
theorem read_full (hs : r.dataState = .output) (hl : r.dstLast i = false) :
    (r.dataOut i).read = ⟨lineBytes r.save ++ (lineBytes i.line.data).take 44, false, 0⟩ := by
  have hpad : r.dstPadbytes i = 0 := by simp [dstPadbytes, hl]
  have hmask : (lineBytes (fill r.save i.line.data &&&
      BitVec.allOnes 512 <<< (r.dstPadbytes i).toNat)).take 64 =
        (lineBytes (fill r.save i.line.data)).take 64 :=
    take_lineBytes_mask _ (by rw [hpad]; decide)
  rw [List.take_of_length_le (by rw [length_lineBytes]), List.take_of_length_le
    (by rw [length_lineBytes])] at hmask
  have hlast : (r.dataOut i).last = false := hl
  rw [DataLine.read, readBeat, hlast, if_neg Bool.false_ne_true, ← lineBytes_filled, ← hmask]
  simp [dataOut, hs]

/-- The last line. -/
theorem read_last {x : Line} {k : Nat} (hl : r.dstLast i = true)
    (hx : (if r.dataState = .output then i.line.data else 0) = x)
    (hpad : r.outputPadbytes.toNat = 64 - k) (hk : k ≤ 64) :
    (r.dataOut i).read = ⟨(lineBytes (fill r.save x)).take k, true, 64 - k⟩ := by
  have hp : r.dstPadbytes i = r.outputPadbytes := by simp [dstPadbytes, hl]
  have hlast : (r.dataOut i).last = true := hl
  have hpad' : (r.dataOut i).padbytes = r.outputPadbytes := hp
  have hk' : 64 - (64 - k) = k := by omega
  have hmask : (lineBytes (fill r.save x &&& BitVec.allOnes 512 <<<
      (r.dstPadbytes i).toNat)).take k = (lineBytes (fill r.save x)).take k :=
    take_lineBytes_mask _ (by rw [hp, hpad]; omega)
  rw [DataLine.read, readBeat, hlast, if_pos rfl, hpad', hpad, hk', ← hmask, ← hx]
  rfl

/-! ### One cycle -/

theorem HdrOwes.step (hh : HdrOwes r h) (hne : r.dataState ≠ .ready)
    (hfin : ¬ (r.dataState = .waitTxFin ∧ r.hdrState = .waitTxFin)) :
    ∃ h', r.hdrGiven i ++ h' = h ∧ HdrOwes (r.next i) h' := by
  have hout : (r.next i).hdrOut = r.hdrOut := by
    simp [hdrOut, next, storesInputs, takesHdr_eq_false hne]
  rcases hh with ⟨hs, rfl⟩ | ⟨hs, rfl⟩
  · cases hr : i.hdrRdy with
    | true =>
      refine ⟨[], by simp [hdrGiven, hdrVal, hs, hr], .inr ⟨?_, rfl⟩⟩
      simp [next, hdrNext, hs, hr]
    | false =>
      refine ⟨[r.hdrOut], by simp [hdrGiven, hr], .inl ⟨?_, by rw [hout]⟩⟩
      simp [next, hdrNext, hs, hr]
  · have hw : r.dataState ≠ .waitTxFin := fun hw => hfin ⟨hw, hs⟩
    refine ⟨[], by simp [hdrGiven, hdrVal, hs], .inr ⟨?_, rfl⟩⟩
    simp [next, hdrNext, hs, hw]

/-- The data machine is in the middle of a packet. -/
theorem advances_of (cur' : List DataLine) (d' : List (Beat (BitVec 8))) (hh : HdrOwes r h)
    (hne : r.dataState ≠ .ready) (hw : r.dataState ≠ .waitTxFin)
    (hcur : (if r.takesData i then (cur ++ tail).tail else cur ++ tail) = cur' ++ tail)
    (hd : r.dataGiven i ++ d' = d)
    (hph : ∀ h', HdrOwes (r.next i) h' → Phase (r.next i) cur' h' d') :
    tcpStream.Advances phases r i cur tail h d := by
  obtain ⟨h', hh', hm⟩ := hh.step (i := i) hne (fun hf => hw hf.1)
  exact ⟨cur', h', d', hcur, hh', hd, .inl (hph h' hm)⟩

/-- The remaining data is sent exactly if it fits behind the 20 bytes that are saved. -/
theorem sendLast_eq (hsend : r.bytesToSend.toNat = bs.length + if r.tcpHdrSaved then 0 else 20) :
    r.sendLast = decide (bs.length ≤ 44) := by
  rw [sendLast, room, hsend]
  cases r.tcpHdrSaved with
  | true => rfl
  | false =>
    show decide (bs.length + 20 ≤ 64) = _
    exact decide_eq_decide.mpr (by omega)

/-- A line is taken, and more follow. -/
theorem output_goes_on {l : DataLine} {t : List DataLine} (hs : r.dataState = .output)
    (hh : HdrOwes r h) (htake : r.takesData i = true) (hline : i.line = l) (hlong : 64 < bs.length)
    (hc : Carries t (bs.drop 64)) (hbytes : lineBytes l.data = bs.take 64)
    (hrecv : r.bytesToRecv.toNat = bs.length)
    (hsend : r.bytesToSend.toNat = bs.length + if r.tcpHdrSaved then 0 else 20)
    (hpad : r.inputPadbytes.toNat = (64 - bs.length % 64) % 64) :
    tcpStream.Advances phases r i (l :: t) tail h (beats 64 (lineBytes r.save ++ bs)) := by
  have hne : r.dataState ≠ .ready := by simp [hs]
  have htakes := takesHdr_eq_false (i := i) hne
  have hsave : (lineBytes r.save).length = 20 := length_lineBytes _
  have hrl : r.recvLast = false := decide_eq_false (by omega)
  have hread : (r.dataOut i).read = ⟨lineBytes r.save ++ bs.take 44, false, 0⟩ := by
    rw [read_full hs (by simp [dstLast, hs, hrl]), hline, hbytes, List.take_take]
    rfl
  have hgiven : r.dataGiven i = [(r.dataOut i).read] := by simp [dataGiven, gives, htake]
  have hroom : r.room.toNat = 44 + if r.tcpHdrSaved then 0 else 20 := by
    cases hsv : r.tcpHdrSaved <;> simp [room, hsv]
  have hsend' : (r.next i).bytesToSend = r.bytesToSend - r.room := by
    simp [next, htakes, htake, hrl]
  have hrecv' : (r.next i).bytesToRecv = r.bytesToRecv - 64 := by simp [next, htakes, htake, hrl]
  have hsaved' : (r.next i).tcpHdrSaved = false := by simp [next, htakes, htake]
  have hsave' : lineBytes (r.next i).save = (bs.take 64).drop 44 := by
    have heq : (r.next i).save = l.data.setWidth (8 * 20) := by simp [next, htakes, htake, hline]
    rw [heq, lineBytes_setWidth l.data (by decide), hbytes]
  refine advances_of t (beats 64 ((bs.take 64).drop 44 ++ bs.drop 64)) hh hne (by simp [hs])
    (by simp [htake]) ?_ fun h' hm => ?_
  · rw [hgiven, hread, beats_shift (lineBytes r.save) (by decide) (by omega) hlong, hsave]
    rfl
  · refine .output (bs.drop 64) (by simp [next, dataNext, hs, hrl]) hm hc ?_ ?_ ?_ (by rw [hsave'])
    · rw [hrecv', List.length_drop]
      bv_omega
    · rw [hsend', hsaved', List.length_drop, BitVec.toNat_sub_of_le
        (by rw [BitVec.le_def, hroom, hsend]; omega), hsend, hroom]
      simp only [Bool.false_eq_true, if_false]
      omega
    · have heq : (r.next i).inputPadbytes = r.inputPadbytes := by simp [next, htakes]
      rw [heq, hpad, List.length_drop]
      omega

/-- The last line is taken. -/
theorem output_ends {l : DataLine} (hs : r.dataState = .output) (hh : HdrOwes r h)
    (htake : r.takesData i = true) (hline : i.line = l) (h0 : 0 < bs.length)
    (hshort : bs.length ≤ 64) (hbytes : (lineBytes l.data).take bs.length = bs)
    (hrecv : r.bytesToRecv.toNat = bs.length)
    (hsend : r.bytesToSend.toNat = bs.length + if r.tcpHdrSaved then 0 else 20)
    (hpad : r.inputPadbytes.toNat = (64 - bs.length % 64) % 64) :
    tcpStream.Advances phases r i [l] tail h (beats 64 (lineBytes r.save ++ bs)) := by
  have hne : r.dataState ≠ .ready := by simp [hs]
  have htakes := takesHdr_eq_false (i := i) hne
  have hsave : (lineBytes r.save).length = 20 := length_lineBytes _
  have hrl : r.recvLast = true := decide_eq_true (by omega)
  have hsl := sendLast_eq hsend
  have hout := toNat_outputPadbytes hpad
  have hgiven : r.dataGiven i = [(r.dataOut i).read] := by simp [dataGiven, gives, htake]
  by_cases hfit : bs.length ≤ 44
  · have hlast : r.dstLast i = true := by simp [dstLast, htake, hrl, hsl, hfit]
    have hread : (r.dataOut i).read =
        ⟨lineBytes r.save ++ bs, true, 64 - (20 + bs.length)⟩ := by
      rw [read_last (x := l.data) (k := 20 + bs.length) hlast (by simp [hs, hline]) (by omega)
        (by omega), lineBytes_filled, List.take_append, hsave,
        List.take_of_length_le (by omega), Nat.add_sub_cancel_left, List.take_take,
        Nat.min_eq_left (by omega), hbytes]
    refine advances_of [] [] hh hne (by simp [hs]) (by simp [htake]) ?_ fun h' hm => ?_
    · rw [hgiven, hread, beats_shift_fits (lineBytes r.save) h0 (by omega), hsave]
      rfl
    · exact .waitTxFin (by simp [next, dataNext, hs, htake, hrl, hsl, hfit]) hm rfl rfl
  · have hlast : r.dstLast i = false := by simp [dstLast, hs, hsl, hfit]
    have hfirst : (lineBytes l.data).take 44 = bs.take 44 := by
      rw [← hbytes, List.take_take, Nat.min_eq_left (by omega)]
    have hread : (r.dataOut i).read = ⟨lineBytes r.save ++ bs.take 44, false, 0⟩ := by
      rw [read_full hs hlast, hline, hfirst]
    have hsave' : (lineBytes (r.next i).save).take (bs.length - 44) = bs.drop 44 := by
      have heq : (r.next i).save = l.data.setWidth (8 * 20) := by simp [next, htakes, htake, hline]
      have hcut : bs.drop 44 = ((lineBytes l.data).take bs.length).drop 44 := by rw [hbytes]
      rw [heq, lineBytes_setWidth l.data (by decide), hcut, List.drop_take]
    refine advances_of [] (beats 64 (bs.drop 44)) hh hne (by simp [hs]) (by simp [htake]) ?_
      fun h' hm => ?_
    · rw [hgiven, hread, beats_shift_spills (lineBytes r.save) (by omega) hshort (by omega), hsave,
        beats_last (by rw [List.length_drop]; omega) (by rw [List.length_drop]; omega),
        List.length_drop]
      rfl
    · refine .outputLast (bs.length - 44) (by simp [next, dataNext, hs, htake, hrl, hsl, hfit]) hm
        rfl (by omega) ?_ (by rw [hsave'])
      rw [outputPadbytes_next hne, hout]
      omega

theorem output_advances (hs : r.dataState = .output) (hh : HdrOwes r h) (hc : Carries cur bs)
    (hrecv : r.bytesToRecv.toNat = bs.length)
    (hsend : r.bytesToSend.toNat = bs.length + if r.tcpHdrSaved then 0 else 20)
    (hpad : r.inputPadbytes.toNat = (64 - bs.length % 64) % 64)
    (hx : i.dataVal = true → ∃ t, cur ++ tail = i.line :: t) :
    tcpStream.Advances phases r i cur tail h (beats 64 (lineBytes r.save ++ bs)) := by
  have hne : r.dataState ≠ .ready := by simp [hs]
  have htakes := takesHdr_eq_false (i := i) hne
  cases htake : r.takesData i with
  | false =>
    have hgiven : r.dataGiven i = [] := by simp [dataGiven, gives, htake, hs]
    refine advances_of cur _ hh hne (by simp [hs]) (by simp [htake])
      (by rw [hgiven, List.nil_append]) fun h' hm => ?_
    refine .output bs (by simp [next, dataNext, hs, htake]) hm hc ?_ ?_ ?_ ?_
    · simpa [next, htakes, htake] using hrecv
    · simpa [next, htakes, htake] using hsend
    · simpa [next, htakes] using hpad
    · simp [next, htakes, htake]
  | true =>
    obtain ⟨-, hv, -⟩ : r.dataState = .output ∧ i.dataVal = true ∧ i.dataRdy = true := by
      simpa [takesData] using htake
    obtain ⟨t, rfl⟩ := first_of_append hc.ne_nil (hx hv)
    rcases hc.cons with ⟨hle, rfl, -, -, hbytes⟩ | ⟨hlt, hc', -, hbytes⟩
    · exact output_ends hs hh htake rfl hc.1 hle hbytes hrecv hsend hpad
    · exact output_goes_on hs hh htake rfl hlt hc' hbytes hrecv hsend hpad

theorem outputLast_advances {k : Nat} (hs : r.dataState = .outputLast) (hh : HdrOwes r h)
    (hk : 0 < k ∧ k ≤ 20) (hpad : r.outputPadbytes.toNat = 64 - k) :
    tcpStream.Advances phases r i [] tail h (beats 64 ((lineBytes r.save).take k)) := by
  have hne : r.dataState ≠ .ready := by simp [hs]
  have htake : r.takesData i = false := by simp [takesData, hs]
  have hlen : (lineBytes r.save).length = 20 := length_lineBytes _
  cases hr : i.dataRdy with
  | false =>
    have hgiven : r.dataGiven i = [] := by simp [dataGiven, gives, htake, hr]
    refine advances_of [] _ hh hne (by simp [hs]) (by simp [htake])
      (by rw [hgiven, List.nil_append]) fun h' hm => ?_
    refine .outputLast k (by simp [next, dataNext, hs, hr]) hm rfl hk ?_ ?_
    · rw [outputPadbytes_next hne]
      exact hpad
    · simp [next, takesHdr_eq_false hne, htake]
  | true =>
    have hgiven : r.dataGiven i = [(r.dataOut i).read] := by
      simp [dataGiven, gives, hs, hr]
    have hread : (r.dataOut i).read = ⟨(lineBytes r.save).take k, true, 64 - k⟩ := by
      rw [read_last (x := 0) (k := k) (by simp [dstLast, hs]) (by simp [hs]) hpad (by omega),
        lineBytes_filled, List.take_append_of_le_length (by omega)]
    refine advances_of [] [] hh hne (by simp [hs]) (by simp [htake]) ?_ fun h' hm => ?_
    · have hcut : ((lineBytes r.save).take k).length = k := by
        rw [List.length_take]
        omega
      rw [hgiven, hread, beats_last (by omega) (by omega), hcut]
      rfl
    · exact .waitTxFin (by simp [next, dataNext, hs, hr]) hm rfl rfl

theorem waitTxFin_advances (hs : r.dataState = .waitTxFin) (hh : HdrOwes r h) :
    tcpStream.Advances phases r i [] tail h [] := by
  have htake : tcpStream.takesData r i = false := by simp [tcpStream, takesData, hs]
  have hgiven : tcpStream.dataGiven r i = [] := by
    simp [tcpStream, dataGiven, gives, takesData, hs]
  by_cases hfin : r.hdrState = .waitTxFin
  · have hnil : h = [] := by
      rcases hh with ⟨ho, -⟩ | ⟨-, hnil⟩
      · rw [hfin] at ho
        cases ho
      · exact hnil
    subst hnil
    refine ⟨[], [], [], by simp [htake], by simp [tcpStream, hdrGiven, hdrVal, hfin],
      by simp [hgiven], .inr ⟨⟨?_, ?_⟩, rfl, rfl, rfl⟩⟩
    · simp [tcpStream, next, dataNext, hs, hfin]
    · simp [tcpStream, next, hdrNext, hs, hfin]
  · obtain ⟨h', hh', hm⟩ := hh.step (i := i) (by simp [hs]) fun hf => hfin hf.2
    refine ⟨[], h', [], by simp [htake], hh', by simp [hgiven], .inl ?_⟩
    exact .waitTxFin (by simp [tcpStream, next, dataNext, hs, hfin]) hm rfl rfl

theorem Phase.advances (hp : Phase r cur h d)
    (hx : i.dataVal = true → ∃ t, cur ++ tail = i.line :: t) :
    tcpStream.Advances phases r i cur tail h d := by
  cases hp with
  | output bs hs hh hc hrecv hsend hpad hd =>
    subst hd
    exact output_advances hs hh hc hrecv hsend hpad hx
  | outputLast k hs hh hc hk hpad hd =>
    subst hc hd
    exact outputLast_advances hs hh hk hpad
  | waitTxFin hs hh hc hd =>
    subst hc hd
    exact waitTxFin_advances hs hh

/-! ### The machine handles packets -/

/-- The header of the packet was taken. -/
theorem begins_phase {x : StreamPkt} (hr : Idle r) (ht : r.takesHdr i = true)
    (hreq : i.req = x.req) :
    Phase (r.next i) x.lines [x.hdr] (beats 64 x.bytes) := by
  obtain ⟨hs, hm⟩ := hr
  have hv : i.hdrVal = true := by simpa [takesHdr, hs] using ht
  have hhdr : HdrOwes (r.next i) [x.hdr] := by
    refine .inl ⟨by simp [next, hdrNext, hm, ht], ?_⟩
    simp [hdrOut, next, storesInputs, hm, ht, hreq, StreamPkt.hdr]
  have hsave : (r.next i).save = x.req.tcpHdr.bits := by simp [next, ht, hreq]
  have hsaveLen : (lineBytes x.req.tcpHdr.bits).length = 20 := length_lineBytes _
  have hbytes := x.toNat_payloadBytes
  by_cases hz : x.req.tcpLen = 20
  · have hempty : x.payload = [] := by
      refine List.eq_nil_of_length_eq_zero ?_
      have hlen := x.len
      rw [hz] at hlen
      have htwenty : (20 : BitVec 16).toNat = 20 := rfl
      omega
    have hlines : x.lines = [] := by
      have hc := x.carried
      rw [hempty, beats_nil, List.map_eq_nil_iff] at hc
      exact hc
    refine .outputLast 20 (by simp only [next, dataNext, hs, hv, hreq, hz, if_true]) hhdr hlines
      (by decide) ?_ ?_
    · have hpad : (r.next i).inputPadbytes = 0 := by simp only [next, ht, hreq, hz, if_true]
      rw [outputPadbytes, hpad]
      rfl
    · rw [hsave, StreamPkt.bytes, hempty, List.append_nil, List.take_of_length_le (by omega)]
  · have hpos : 0 < x.payload.length := by
      refine Nat.pos_of_ne_zero fun h0 => hz (BitVec.eq_of_toNat_eq ?_)
      rw [x.len, h0]
      rfl
    refine .output x.payload (by simp only [next, dataNext, hs, hv, hreq, if_neg hz, if_true]) hhdr
      ⟨hpos, x.carried⟩ ?_ ?_ ?_ (by rw [hsave]; rfl)
    · have hrecv : (r.next i).bytesToRecv = x.req.payloadBytes := by simp [next, ht, hreq]
      rw [hrecv, hbytes]
    · have hsend : (r.next i).bytesToSend = x.req.payloadBytes := by simp [next, ht, hreq]
      have hsaved : (r.next i).tcpHdrSaved = true := by simp [next, ht]
      rw [hsend, hbytes, hsaved]
      rfl
    · have hpad : (r.next i).inputPadbytes = 64 - x.req.payloadBytes.setWidth 6 := by
        simp only [next, ht, hreq, if_neg hz, if_true]
      rw [hpad, BitVec.toNat_sub, BitVec.toNat_setWidth, hbytes]
      show (64 - _ + 0) % 64 = _
      omega

theorem Phase.not_ready (hp : Phase r cur h d) : r.dataState ≠ .ready := by
  cases hp with
  | output _ hs | outputLast _ hs | waitTxFin hs =>
    rw [hs]
    decide

/-- Where nothing moves, the data machine stays in its state. -/
theorem awaits_still (hm : tcpStream.moves phases r i = false) :
    (r.next i).awaits = r.awaits := by
  obtain ⟨hth, htd, -, hg, hl⟩ := PairMachine.moves_eq_false hm
  have hth : r.takesHdr i = false := hth
  have htd : r.takesData i = false := htd
  have hl : phases.left r ≤ phases.left (r.next i) := hl
  have hgives : r.gives i = false := by simpa [tcpStream, dataGiven] using hg
  have hst : (r.next i).dataState = r.dataState := by
    show r.dataNext i = _
    cases hst : r.dataState with
    | ready =>
      have hv : i.hdrVal = false := by simpa [takesHdr, hst] using hth
      simp [dataNext, hst, hv]
    | output => simp [dataNext, hst, htd]
    | outputLast =>
      have hr : i.dataRdy = false := by simpa [gives, hst, htd] using hgives
      simp [dataNext, hst, hr]
    | waitTxFin =>
      have hh : r.hdrState ≠ .waitTxFin := by
        intro hh
        exact Nat.not_lt.mpr hl (by simp [phases, next, dataNext, hst, hh])
      simp [dataNext, hst, hh]
  rw [awaits, hst]
  rfl

/-- Inside a packet something moves when the awaited event comes. -/
theorem Phase.stirs {e : SerialEnv StreamReq} {q : List StreamPkt} (hp : Phase r cur h d)
    (hg : e.Given r.awaits) :
    tcpStream.moves phases r (StreamPkt.wires e (q, cur ++ tail)) = true := by
  cases hp with
  | output bs hst _ hc =>
    obtain ⟨ho, hr⟩ : e.offerData = true ∧ e.dataRdy = true := by
      simpa [awaits, hst, SerialEnv.Given] using hg
    have hne : cur ++ tail ≠ [] := fun hnil => hc.ne_nil (List.append_eq_nil_iff.mp hnil).1
    have ht : tcpStream.takesData r (StreamPkt.wires e (q, cur ++ tail)) = true := by
      simp only [tcpStream, takesData, hst, StreamPkt.wires, ho, hr]
      simpa using hne
    rw [PairMachine.moves, ht]
    simp
  | outputLast k hst =>
    have hr : e.dataRdy = true := by simpa [awaits, hst, SerialEnv.Given] using hg
    simp [PairMachine.moves, tcpStream, dataGiven, gives, hst, StreamPkt.wires, hr]
  | waitTxFin hst hm =>
    have hr : e.hdrRdy = true := by simpa [awaits, hst, SerialEnv.Given] using hg
    rcases hm with ⟨ho, -⟩ | ⟨hw, -⟩
    · simp [PairMachine.moves, tcpStream, hdrGiven, hdrVal, ho, StreamPkt.wires, hr]
    · simp [PairMachine.moves, tcpStream, phases, next, dataNext, hst, hw]

theorem handles :
    PairHandles tcpStream streamKind phases SerialEnv.Given fun _ => True where
  left_most r := by
    show (if r.dataState = .ready then 0 else 1) ≤ 1
    split <;> omega
  takesHdr_ne r e q ht := by
    have hv : (e.offerHdr && !q.1.isEmpty) = true := (Bool.and_eq_true_iff.mp ht).2
    simpa using (Bool.and_eq_true_iff.mp hv).2
  takesData_ne r e q ht := by
    have hv : ((e.offerData && !q.2.isEmpty) && e.dataRdy) = true := (Bool.and_eq_true_iff.mp ht).2
    simpa using (Bool.and_eq_true_iff.mp (Bool.and_eq_true_iff.mp hv).1).2
  idle_gives r i hr := by
    simp [tcpStream, takesData, hdrGiven, hdrVal, dataGiven, gives, hr.1, hr.2]
  idle_still r e q hr ht := by
    have hv : (StreamPkt.wires e q).hdrVal = false := by
      simpa [tcpStream, takesHdr, hr.1] using ht
    have hs : (r.next (StreamPkt.wires e q)).dataState = .ready := by
      simp [next, dataNext, hr.1, hv]
    refine ⟨⟨hs, ?_⟩, ?_⟩
    · have ht' : r.takesHdr (StreamPkt.wires e q) = false := ht
      simp [tcpStream, next, hdrNext, hr.2, ht']
    · simp [phases, tcpStream, hs]
  idle_stirs r e q hr hne hg := by
    have ho : e.offerHdr = true := by simpa [phases, awaits, hr.1, SerialEnv.Given] using hg
    simpa [tcpStream, takesHdr, hr.1, StreamPkt.wires, ho] using hne
  begins x q tail r e _ hr ht := by
    have hv : (e.offerHdr && !((x :: q).map StreamPkt.req).isEmpty) = true := by
      simpa [tcpStream, takesHdr, hr.1, StreamPkt.wires] using ht
    obtain ⟨t, hreq⟩ : ∃ t, (x :: q).map StreamPkt.req =
        onBus e.offerHdr e.hdrBus ((x :: q).map StreamPkt.req) :: t := onBus_of_val hv
    rw [List.map_cons, List.cons.injEq] at hreq
    exact begins_phase hr ht hreq.1.symm
  inside_hdr r cur h d i hp := takesHdr_eq_false hp.not_ready
  advances r cur h d e q tail hp := hp.advances fun hv => onBus_of_val hv
  left_inside r cur h d i hp := by
    have hne := hp.not_ready
    show (if (r.next i).dataState = .ready then 0 else 1) ≤ if r.dataState = .ready then 0 else 1
    rw [if_neg hne]
    split <;> omega
  stirs r cur h d e q tail hp hg := hp.stirs hg
  awaits_still r i hm := awaits_still hm

end TcpToStream

end TcpHw
