import TcpHw.Frontend.IpAssembler

/-!
# `ip_to_ethstream`

The IP header goes in front of the lines of its packet; every line carries over its last 20 bytes.
An Ethernet header is looked up meanwhile and goes out on a port of its own, and the two ports
finish a packet together. The lines that come out are a function of the header and the lines that
go in.
-/
namespace TcpHw

open Bytes Framing

set_option autoImplicit false

/-! ### `eth_hdr_assembler` -/

/-- `eth_hdr` -/
structure EthHdr where
  dst : BitVec 48
  src : BitVec 48
  ethType : BitVec 16
  deriving DecidableEq, Inhabited

/-- `ip_to_mac`; it answers in the same cycle. -/
def ipToMac (ipAddr : BitVec 32) : BitVec 48 :=
  if ipAddr = 0xc6000001 then 0xb8599fb7bd6c
  else if ipAddr = 0xc6000003 then 0x000a350e14d2
  else if ipAddr = 0xc6000005 then 0xb8599fb7ba44
  else if ipAddr = 0xc6000007 then 0x000a350d4dc6
  else if ipAddr = 0xc6000009 then 0x000a350d4d28
  else if ipAddr = 0xc600000b then 0xb8599fb7babc
  else if ipAddr = 0xc600000d then 0x98039bcc10cc
  else 0

namespace EthHdrAssembler

/-- `state_e` -/
inductive State where
  | ready | output
  deriving DecidableEq, Inhabited

end EthHdrAssembler

/-- The registers of `eth_hdr_assembler`. -/
structure EthHdrAssembler where
  state : EthHdrAssembler.State
  srcIpAddr : BitVec 32
  dstIpAddr : BitVec 32

namespace EthHdrAssembler

variable (r : EthHdrAssembler)

/-- `eth_hdr_req_rdy` -/
def reqRdy : Bool := r.state == .ready

/-- `outbound_eth_hdr_val` -/
def outVal : Bool := r.state == .output

/-- `outbound_eth_hdr`; the lookup has address zero while nothing is asked. -/
def outHdr : EthHdr where
  dst := ipToMac (if r.state = .output then r.dstIpAddr else 0)
  src := ipToMac (if r.state = .output then r.srcIpAddr else 0)
  ethType := 0x0800

/-- One clock edge, with the addresses that are asked for. -/
def next (req : Option (BitVec 32 × BitVec 32)) (outRdy : Bool) : EthHdrAssembler :=
  match r.state with
  | .ready => req.elim r fun q => ⟨.output, q.1, q.2⟩
  | .output => if outRdy then { r with state := .ready } else r

end EthHdrAssembler

/-! ### The machine -/

namespace IpToEthstream

/-- `data_state_e` -/
inductive DataState where
  | ready | output | outputLast | waitTxFin
  deriving DecidableEq, Inhabited

/-- `hdr_state_e` -/
inductive HdrState where
  | waiting | ethHdrWait | hdrOutput | hdrWaitTxFin
  deriving DecidableEq, Inhabited

end IpToEthstream

/-- The registers of `ip_to_ethstream`. -/
structure IpToEthstream where
  dataState : IpToEthstream.DataState
  hdrState : IpToEthstream.HdrState
  save : BitVec (8 * 20)
  inputPadbytes : BitVec 6
  ipHdr : IpPktHdr
  outboundEthHdr : EthHdr
  timestamp : Timestamp
  lookup : EthHdrAssembler

structure EthWires where
  hdrVal : Bool
  hdr : BitVec (8 * 20)
  timestamp : Timestamp
  dataVal : Bool
  line : DataLine
  hdrRdy : Bool
  dataRdy : Bool

/-- `masked_data`: the shift amount is computed in the six bits of `padbytes`, so only a part of the
padding is cleared. -/
def maskedData (l : DataLine) : Line :=
  if l.last then l.data &&& BitVec.allOnes 512 <<< (l.padbytes <<< 3).toNat else l.data

namespace IpToEthstream

variable (r : IpToEthstream) (i : EthWires)

/-- `ip_to_ethstream_src_hdr_rdy` -/
def srcHdrRdy : Bool := r.dataState == .ready && r.lookup.reqRdy

/-- A packet begins. -/
def begins : Bool := i.hdrVal && r.srcHdrRdy

/-- `ip_to_ethstream_src_data_rdy` -/
def srcDataRdy : Bool := r.dataState == .output && i.dataRdy

/-- A line is taken. -/
def takesData : Bool := i.dataVal && r.srcDataRdy i

/-- `ip_to_ethstream_dst_data_val` -/
def dstDataVal : Bool :=
  match r.dataState with
  | .output => i.dataVal
  | .outputLast => true
  | .ready | .waitTxFin => false

/-- A line is given out. -/
def gives : Bool := r.dstDataVal i && i.dataRdy

/-- The last bytes of the packet fit into this line. -/
def fits : Bool := i.line.last && decide (20 ≤ i.line.padbytes.toNat)

/-- The data port. -/
def dataOut : RxLine :=
  match r.dataState with
  | .output =>
    { data := fill r.save (maskedData i.line)
      padbytes := if r.takesData i && fits i then i.line.padbytes + 44 else 0
      last := r.takesData i && fits i
      timestamp := r.timestamp }
  | .outputLast =>
    { data := fill r.save (0 : Line)
      padbytes := r.inputPadbytes + 44
      last := true
      timestamp := r.timestamp }
  | .ready | .waitTxFin => ⟨0, 0, false, r.timestamp⟩

def dataNext : DataState :=
  match r.dataState with
  | .ready =>
    if r.begins i then (if (IpPktHdr.cast i.hdr).totLen = 20 then .outputLast else .output)
    else .ready
  | .output =>
    if r.takesData i then
      (if fits i then .waitTxFin else if i.line.last then .outputLast else .output)
    else .output
  | .outputLast => if i.dataRdy then .waitTxFin else .outputLast
  | .waitTxFin => if r.hdrState = .hdrWaitTxFin then .ready else .waitTxFin

/-- The header port is valid. -/
def dstHdrVal : Bool :=
  match r.hdrState with
  | .ethHdrWait => r.lookup.outVal
  | .hdrOutput => true
  | .waiting | .hdrWaitTxFin => false

/-- `ip_to_ethstream_dst_eth_hdr`, `ip_to_ethstream_dst_data_len` and
`ip_to_ethstream_dst_timestamp` -/
def hdrOut : EthHdr × BitVec 16 × Timestamp :=
  (if r.hdrState = .hdrOutput then r.outboundEthHdr else r.lookup.outHdr, r.ipHdr.totLen,
    r.timestamp)

def hdrNext : HdrState :=
  match r.hdrState with
  | .waiting => if r.begins i then .ethHdrWait else .waiting
  | .ethHdrWait =>
    if r.lookup.outVal then (if i.hdrRdy then .hdrWaitTxFin else .hdrOutput) else .ethHdrWait
  | .hdrOutput => if i.hdrRdy then .hdrWaitTxFin else .hdrOutput
  | .hdrWaitTxFin => if r.dataState = .waitTxFin then .waiting else .hdrWaitTxFin

/-- The addresses that are looked up. -/
def lookupReq : Option (BitVec 32 × BitVec 32) :=
  if r.hdrState = .waiting ∧ r.begins i = true then
    some ((IpPktHdr.cast i.hdr).sourceAddr, (IpPktHdr.cast i.hdr).destAddr)
  else none

/-- One clock edge. -/
def next : IpToEthstream where
  dataState := r.dataNext i
  hdrState := r.hdrNext i
  save :=
    if r.begins i then i.hdr
    else if r.takesData i then (maskedData i.line).setWidth (8 * 20) else r.save
  inputPadbytes :=
    if r.begins i && decide ((IpPktHdr.cast i.hdr).totLen = 20) then 0
    else if r.takesData i && !fits i && i.line.last then i.line.padbytes else r.inputPadbytes
  ipHdr := if r.begins i then IpPktHdr.cast i.hdr else r.ipHdr
  outboundEthHdr :=
    if r.hdrState = .ethHdrWait ∧ r.lookup.outVal = true then r.lookup.outHdr else r.outboundEthHdr
  timestamp := if r.dataState = .ready then i.timestamp else r.timestamp
  lookup := r.lookup.next (r.lookupReq i) (r.hdrState == .ethHdrWait)

end IpToEthstream

/-! ### The lines that come out -/

/-- The bytes that did not fit into the line before. -/
def ethLast (time : Timestamp) (save : BitVec (8 * 20)) (padbytes : BitVec 6) : RxLine :=
  ⟨fill save (0 : Line), padbytes + 44, true, time⟩

/-- The lines of a packet with the bytes `save` put in front. -/
def ethLines (time : Timestamp) : BitVec (8 * 20) → List DataLine → List RxLine
  | _, [] => []
  | save, l :: t =>
    let data := fill save (maskedData l)
    if l.last then
      if 20 ≤ l.padbytes.toNat then [⟨data, l.padbytes + 44, true, time⟩]
      else [⟨data, 0, false, time⟩, ethLast time ((maskedData l).setWidth (8 * 20)) l.padbytes]
    else ⟨data, 0, false, time⟩ :: ethLines time ((maskedData l).setWidth (8 * 20)) t

/-- What is masked is padding. -/
theorem lineBytes_maskedData (l : DataLine) {n : Nat} (hn : n ≤ 64 - l.padbytes.toNat) :
    (lineBytes (maskedData l)).take n = (lineBytes l.data).take n := by
  unfold maskedData
  split_ifs with hl
  · have hp := l.padbytes.isLt
    have hs : (l.padbytes <<< 3).toNat ≤ 8 * l.padbytes.toNat := by
      rw [BitVec.toNat_shiftLeft, Nat.shiftLeft_eq]
      have hle := Nat.mod_le (l.padbytes.toNat * 2 ^ 3) (2 ^ 6)
      omega
    exact take_lineBytes_mask l.data (by omega)
  · rfl

/-- A line on the receive bus without its timestamp. -/
def RxLine.line (l : RxLine) : DataLine := ⟨l.data, l.padbytes, l.last⟩

/-- The lines carry the bytes put in front and those of the packet. -/
theorem ethLines_carries (time : Timestamp) {ls : List DataLine} {bs : List (BitVec 8)}
    (h : Carries ls bs) (save : BitVec (8 * 20)) :
    Carries ((ethLines time save ls).map RxLine.line) (lineBytes save ++ bs) := by
  refine ⟨by rw [List.length_append, length_lineBytes]; omega, ?_⟩
  induction ls generalizing bs save with
  | nil => exact absurd rfl h.ne_nil
  | cons l t ih =>
    have hsave : (lineBytes save).length = 20 := length_lineBytes _
    have hfill : lineBytes (fill save (maskedData l)) =
        lineBytes save ++ (lineBytes (maskedData l)).take 44 :=
      lineBytes_fill save (maskedData l) (by decide)
    have hcut : lineBytes ((maskedData l).setWidth (8 * 20)) = (lineBytes (maskedData l)).drop 44 :=
      lineBytes_setWidth (maskedData l) (by decide)
    have h0 := h.1
    rcases h.cons with ⟨hle, rfl, hlast, hpad, hbytes⟩ | ⟨hlt, hc, hlast, hbytes⟩
    · have hmask : (lineBytes (maskedData l)).take bs.length = bs := by
        rw [lineBytes_maskedData l (by omega), hbytes]
      have hpad44 : (l.padbytes + 44).toNat = (l.padbytes.toNat + 44) % 64 := by
        simp [BitVec.toNat_add]
      by_cases hf : 20 ≤ l.padbytes.toNat
      · have hpad' : (l.padbytes + 44).toNat = 64 - (20 + bs.length) := by omega
        have hread : readBeat (fill save (maskedData l)) true (l.padbytes + 44) =
            ⟨lineBytes save ++ bs, true, 64 - (20 + bs.length)⟩ := by
          have hk : 64 - (64 - (20 + bs.length)) = 20 + bs.length := by omega
          rw [readBeat, if_pos rfl, hpad', hk, hfill, List.take_append, hsave,
            List.take_of_length_le (by omega), Nat.add_sub_cancel_left, List.take_take,
            Nat.min_eq_left (by omega), hmask]
        rw [beats_shift_fits (lineBytes save) h0 (by omega), hsave, ← hread]
        simp [ethLines, hlast, hf, RxLine.line, DataLine.read]
      · have hread : readBeat (fill save (maskedData l)) false 0 =
            ⟨lineBytes save ++ bs.take 44, false, 0⟩ := by
          have hmask' : (lineBytes (maskedData l)).take 44 = bs.take 44 := by
            rw [← hmask, List.take_take, Nat.min_eq_left (by omega)]
          rw [readBeat, if_neg (by simp), hfill, hmask']
        have hread' : (ethLast time ((maskedData l).setWidth (8 * 20)) l.padbytes).line.read =
            ⟨bs.drop 44, true, 64 - (bs.length - 44)⟩ := by
          have hpad' : (l.padbytes + 44).toNat = 64 - (bs.length - 44) := by omega
          have hk : 64 - (64 - (bs.length - 44)) = bs.length - 44 := by omega
          show readBeat (fill ((maskedData l).setWidth (8 * 20)) (0 : Line)) true (l.padbytes + 44) = _
          rw [readBeat, if_pos rfl, hpad', hk, lineBytes_fill _ (0 : Line) (by decide), hcut,
            List.take_append_of_le_length (by rw [List.length_drop, length_lineBytes]; omega),
            ← List.drop_take, hmask]
        rw [beats_shift_spills (lineBytes save) (by omega) hle (by omega), hsave, ← hread, ← hread']
        simp [ethLines, hlast, hf, RxLine.line, DataLine.read]
    · have hmask : maskedData l = l.data := by simp [maskedData, hlast]
      have hread : readBeat (fill save (maskedData l)) false 0 =
          ⟨lineBytes save ++ bs.take 44, false, 0⟩ := by
        rw [readBeat, if_neg (by simp), hfill, hmask, hbytes, List.take_take]
        rfl
      have hih := ih hc ((maskedData l).setWidth (8 * 20))
      rw [hcut, hmask, hbytes] at hih
      rw [beats_shift (lineBytes save) (by decide) (by omega) hlt, hsave, ← hread, ← hih]
      simp [ethLines, hlast, RxLine.line, DataLine.read, hmask]

/-- Lines that carry a packet are framed as the receive path wants them. -/
theorem framed_of_carries {ls : List RxLine} {bs : List (BitVec 8)}
    (h : Carries (ls.map RxLine.line) bs) :
    Framed ls bs.length ∧ (flatBytes ls).take bs.length = bs := by
  induction ls generalizing bs with
  | nil => exact absurd rfl h.ne_nil
  | cons l t ih =>
    have hlen : (lineBytes l.data).length = 64 := length_lineBytes _
    have h0 := h.1
    rcases h.cons with ⟨hle, ht, hlast, hpad, hbytes⟩ | ⟨hlt, hc, hlast, hbytes⟩
    · rw [List.map_eq_nil_iff] at ht
      subst ht
      refine ⟨?_, ?_⟩
      · rw [Framed, if_pos hle]
        exact ⟨rfl, hlast, h0, hpad⟩
      · rw [flatBytes_cons, List.take_append_of_le_length (by omega)]
        exact hbytes
    · obtain ⟨hf, hb⟩ := ih hc
      rw [List.length_drop] at hf hb
      refine ⟨?_, ?_⟩
      · rw [Framed, if_neg (by omega)]
        exact ⟨hlast, hf⟩
      · have hdata : lineBytes l.data = bs.take 64 := hbytes
        rw [flatBytes_cons, List.take_append, hlen, List.take_of_length_le (by omega), hb, hdata,
          List.take_append_drop]

/-! ### What the machine owes -/

/-- A packet as the machine gets it: a header, the lines of the payload and a timestamp. The header
tells that there is some payload. -/
structure EthPkt where
  hdr : BitVec (8 * 20)
  lines : List DataLine
  timestamp : Timestamp
  carried : ∃ bs, Carries lines bs
  hasPayload : (IpPktHdr.cast hdr).totLen ≠ 20

namespace EthPkt

/-- What comes on the header port. -/
def tok (q : EthPkt) : ChkTok := (⟨lineBytes q.hdr, true, 44⟩, q.timestamp)

/-- What goes out on the data port. -/
def frame (q : EthPkt) : List RxLine := ethLines q.timestamp q.hdr q.lines

end EthPkt

namespace IpToEthstream

variable {r : IpToEthstream} {i : EthWires} {qs : List EthPkt} {ts : List ChkTok}
  {ds : List DataLine} {es : List RxLine}

/-- The two ports have finished the packet. -/
def finishes (r : IpToEthstream) : Bool :=
  r.dataState == .waitTxFin && r.hdrState == .hdrWaitTxFin

/-- The header machine in the middle of a packet. -/
def HdrPhase (r : IpToEthstream) : Prop :=
  r.hdrState = .ethHdrWait ∧ r.lookup.state = .output ∨
    (r.hdrState = .hdrOutput ∨ r.hdrState = .hdrWaitTxFin) ∧ r.lookup.state = .ready

/-- The packets `qs` are not begun, the headers `ts` and the lines `ds` are still to come, and the
lines `es` are owed. -/
inductive Owes (r : IpToEthstream) (qs : List EthPkt) (ts : List ChkTok) (ds : List DataLine)
    (es : List RxLine) : Prop
  | ready (hs : r.dataState = .ready) (hh : r.hdrState = .waiting) (hl : r.lookup.state = .ready)
      (ht : ts = qs.map EthPkt.tok) (hd : ds = qs.flatMap EthPkt.lines)
      (he : es = qs.flatMap EthPkt.frame)
  | output (rest : List DataLine) (hs : r.dataState = .output) (hh : HdrPhase r)
      (hr : ∃ bs, Carries rest bs) (ht : ts = qs.map EthPkt.tok)
      (hd : ds = rest ++ qs.flatMap EthPkt.lines)
      (he : es = ethLines r.timestamp r.save rest ++ qs.flatMap EthPkt.frame)
  | outputLast (hs : r.dataState = .outputLast) (hh : HdrPhase r) (ht : ts = qs.map EthPkt.tok)
      (hd : ds = qs.flatMap EthPkt.lines)
      (he : es = ethLast r.timestamp r.save r.inputPadbytes :: qs.flatMap EthPkt.frame)
  | waitTxFin (hs : r.dataState = .waitTxFin) (hh : HdrPhase r) (ht : ts = qs.map EthPkt.tok)
      (hd : ds = qs.flatMap EthPkt.lines) (he : es = qs.flatMap EthPkt.frame)

/-- One cycle does this to what is to come and what is owed. -/
structure Moves (r : IpToEthstream) (i : EthWires) (qs : List EthPkt) (ts : List ChkTok)
    (ds : List DataLine) (es : List RxLine) : Prop where
  owes : Owes (r.next i) (if r.begins i then qs.tail else qs) (if r.begins i then ts.tail else ts)
    (if r.takesData i then ds.tail else ds) (if r.gives i then es.tail else es)
  line : r.gives i = true → ∃ es', es = r.dataOut i :: es'

/-- The header machine goes on by itself, unless it finishes. -/
theorem HdrPhase.step (hh : HdrPhase r) (i : EthWires) (hf : r.finishes = false) :
    HdrPhase (r.next i) := by
  rcases hh with ⟨hs, hl⟩ | ⟨hs | hs, hl⟩
  · right
    have hout : r.lookup.outVal = true := by simp [EthHdrAssembler.outVal, hl]
    refine ⟨?_, ?_⟩
    · cases hr : i.hdrRdy <;> simp [next, hdrNext, hs, hout, hr]
    · simp [next, hs, EthHdrAssembler.next, hl]
  · right
    refine ⟨?_, ?_⟩
    · cases hr : i.hdrRdy <;> simp [next, hdrNext, hs, hr]
    · simp [next, lookupReq, hs, EthHdrAssembler.next, hl]
  · right
    have hd : r.dataState ≠ .waitTxFin := by simpa [finishes, hs] using hf
    refine ⟨.inr (by simp [next, hdrNext, hs, hd]), ?_⟩
    simp [next, lookupReq, hs, EthHdrAssembler.next, hl]

theorem ready_moves (hs : r.dataState = .ready) (hh : r.hdrState = .waiting)
    (hl : r.lookup.state = .ready)
    (hresp : i.hdrVal = true → ∃ l t ts', qs.map EthPkt.tok = t :: ts' ∧ AxisLine.Shows l t ∧
      i.hdr = l.data.extractLsb' (8 * 44) (8 * 20) ∧ i.timestamp = l.user) :
    Moves r i qs (qs.map EthPkt.tok) (qs.flatMap EthPkt.lines) (qs.flatMap EthPkt.frame) := by
  have htake : r.takesData i = false := by simp [takesData, srcDataRdy, hs]
  have hgive : r.gives i = false := by simp [gives, dstDataVal, hs]
  refine ⟨?_, by simp [hgive]⟩
  rw [htake, hgive]
  cases hb : r.begins i with
  | false =>
    refine .ready ?_ ?_ ?_ rfl rfl rfl
    · simp [next, dataNext, hs, hb]
    · simp [next, hdrNext, hh, hb]
    · simp [next, lookupReq, hb, EthHdrAssembler.next, hl]
  | true =>
    obtain ⟨l, t, ts', hts, hshow, hhdr, htime⟩ := hresp (Bool.and_eq_true_iff.mp hb).1
    cases qs with
    | nil => cases hts
    | cons q qs =>
      rw [List.map_cons, List.cons.injEq] at hts
      obtain ⟨rfl, -⟩ := hts
      have hq : i.hdr = q.hdr := by
        rw [hhdr]
        apply lineBytes_inj
        rw [lineBytes_extract l.data (by decide)]
        exact hshow.bytes
      have hq' : i.timestamp = q.timestamp := htime.trans hshow.user
      have hsave : (r.next i).save = q.hdr := by simp [next, hb, hq]
      have htime' : (r.next i).timestamp = q.timestamp := by simp [next, hs, hq']
      refine .output q.lines ?_ ?_ q.carried rfl rfl ?_
      · have hpay : (IpPktHdr.cast q.hdr).totLen ≠ 20#16 := q.hasPayload
        simp [next, dataNext, hs, hb, hq, hpay]
      · left
        exact ⟨by simp [next, hdrNext, hh, hb],
          by simp [next, lookupReq, hh, hb, EthHdrAssembler.next, hl]⟩
      · rw [hsave, htime']
        rfl

/-- A line is taken and one is given out. -/
theorem output_moves {l : DataLine} {rest : List DataLine} (hs : r.dataState = .output)
    (hh : HdrPhase r) (hr : ∃ bs, Carries (l :: rest) bs) (hline : i.line = l)
    (htake : r.takesData i = true) :
    Moves r i qs (qs.map EthPkt.tok) (l :: rest ++ qs.flatMap EthPkt.lines)
      (ethLines r.timestamp r.save (l :: rest) ++ qs.flatMap EthPkt.frame) := by
  have hb : r.begins i = false := by simp [begins, srcHdrRdy, hs]
  have hgive : r.gives i = true := by simpa [gives, dstDataVal, takesData, srcDataRdy, hs] using htake
  have hphase := hh.step i (by simp [finishes, hs])
  have htime : (r.next i).timestamp = r.timestamp := by simp [next, hs]
  have hsave : (r.next i).save = (maskedData l).setWidth (8 * 20) := by
    simp [next, hb, htake, hline]
  obtain ⟨bs, hc⟩ := hr
  rcases hc.cons with ⟨-, rfl, hlast, -⟩ | ⟨-, hc', hlast, -⟩
  · by_cases hf : 20 ≤ l.padbytes.toNat
    · have hfit : fits i = true := by simp [fits, hline, hlast, hf]
      have hout : r.dataOut i = ⟨fill r.save (maskedData l), l.padbytes + 44, true, r.timestamp⟩ := by
        simp [dataOut, hs, htake, hfit, hline]
      have hlines : ethLines r.timestamp r.save [l] = [r.dataOut i] := by
        simp [ethLines, hlast, hf, hout]
      refine ⟨?_, fun _ => ⟨_, by rw [hlines]; rfl⟩⟩
      rw [hb, htake, hgive, hlines]
      refine .waitTxFin ?_ hphase rfl rfl rfl
      simp [next, dataNext, hs, htake, hfit]
    · have hfit : fits i = false := by simp [fits, hline, hf]
      have hout : r.dataOut i = ⟨fill r.save (maskedData l), 0, false, r.timestamp⟩ := by
        simp [dataOut, hs, hfit, hline]
      have hlines : ethLines r.timestamp r.save [l] =
          [r.dataOut i, ethLast r.timestamp ((maskedData l).setWidth (8 * 20)) l.padbytes] := by
        simp [ethLines, hlast, hf, hout]
      have hpad : (r.next i).inputPadbytes = l.padbytes := by
        simp [next, hb, htake, hfit, hline, hlast]
      refine ⟨?_, fun _ => ⟨_, by rw [hlines]; rfl⟩⟩
      rw [hb, htake, hgive, hlines]
      refine .outputLast ?_ hphase rfl rfl ?_
      · simp [next, dataNext, hs, htake, hfit, hline, hlast]
      · rw [htime, hsave, hpad]
        rfl
  · have hfit : fits i = false := by simp [fits, hline, hlast]
    have hout : r.dataOut i = ⟨fill r.save (maskedData l), 0, false, r.timestamp⟩ := by
      simp [dataOut, hs, hfit, hline]
    have hlines : ethLines r.timestamp r.save (l :: rest) =
        r.dataOut i :: ethLines r.timestamp ((maskedData l).setWidth (8 * 20)) rest := by
      simp [ethLines, hlast, hout]
    refine ⟨?_, fun _ => ⟨_, by rw [hlines]; rfl⟩⟩
    rw [hb, htake, hgive, hlines]
    refine .output rest ?_ hphase ⟨_, hc'⟩ rfl rfl ?_
    · simp [next, dataNext, hs, htake, hfit, hline, hlast]
    · rw [htime, hsave]
      rfl

/-- One cycle of the machine. -/
theorem Owes.moves (ho : Owes r qs ts ds es)
    (hresp : i.hdrVal = true → ∃ l t ts', ts = t :: ts' ∧ AxisLine.Shows l t ∧
      i.hdr = l.data.extractLsb' (8 * 44) (8 * 20) ∧ i.timestamp = l.user)
    (hread : r.takesData i = true → ∃ ds', ds = i.line :: ds') : Moves r i qs ts ds es := by
  cases ho with
  | ready hs hh hl ht hd he =>
    subst ht hd he
    exact ready_moves hs hh hl hresp
  | output rest hs hh hr ht hd he =>
    subst ht hd he
    cases htake : r.takesData i with
    | true =>
      obtain ⟨bs, hc⟩ := hr
      obtain ⟨l, tl, rfl⟩ := List.exists_cons_of_ne_nil hc.ne_nil
      obtain ⟨ds', hds⟩ := hread htake
      rw [List.cons_append, List.cons.injEq] at hds
      exact output_moves hs hh ⟨bs, hc⟩ hds.1.symm htake
    | false =>
      have hb : r.begins i = false := by simp [begins, srcHdrRdy, hs]
      have hgive : r.gives i = false := by
        simpa [gives, dstDataVal, takesData, srcDataRdy, hs] using htake
      refine ⟨?_, by simp [hgive]⟩
      rw [hb, htake, hgive]
      refine .output rest ?_ (hh.step i (by simp [finishes, hs])) hr rfl rfl ?_
      · simp [next, dataNext, hs, htake]
      · simp [next, hs, hb, htake]
  | outputLast hs hh ht hd he =>
    subst ht hd he
    have hb : r.begins i = false := by simp [begins, srcHdrRdy, hs]
    have htake : r.takesData i = false := by simp [takesData, srcDataRdy, hs]
    have hgive : r.gives i = i.dataRdy := by simp [gives, dstDataVal, hs]
    have hout : r.dataOut i = ethLast r.timestamp r.save r.inputPadbytes := by
      simp [dataOut, hs, ethLast]
    have hphase := hh.step i (by simp [finishes, hs])
    refine ⟨?_, fun _ => ⟨_, by rw [hout]⟩⟩
    rw [hb, htake, hgive]
    cases hr : i.dataRdy with
    | false =>
      refine .outputLast ?_ hphase rfl rfl ?_
      · simp [next, dataNext, hs, hr]
      · simp [next, hs, hb, htake]
    | true =>
      refine .waitTxFin ?_ hphase rfl rfl rfl
      simp [next, dataNext, hs, hr]
  | waitTxFin hs hh ht hd he =>
    subst ht hd he
    have hb : r.begins i = false := by simp [begins, srcHdrRdy, hs]
    have htake : r.takesData i = false := by simp [takesData, srcDataRdy, hs]
    have hgive : r.gives i = false := by simp [gives, dstDataVal, hs]
    refine ⟨?_, by simp [hgive]⟩
    rw [hb, htake, hgive]
    cases hf : r.finishes with
    | false =>
      have hne : r.hdrState ≠ .hdrWaitTxFin := by simpa [finishes, hs] using hf
      refine .waitTxFin ?_ (hh.step i hf) rfl rfl rfl
      simp [next, dataNext, hs, hne]
    | true =>
      have hfin : r.hdrState = .hdrWaitTxFin := by simpa [finishes, hs] using hf
      have hl : r.lookup.state = .ready := by
        rcases hh with ⟨hw, -⟩ | ⟨-, hl⟩
        · cases hfin.symm.trans hw
        · exact hl
      refine .ready ?_ ?_ ?_ rfl rfl rfl
      · simp [next, dataNext, hs, hfin]
      · simp [next, hdrNext, hs, hfin]
      · simp [next, lookupReq, hfin, EthHdrAssembler.next, hl]

/-! ### Progress -/

/-- The header machine gets on. -/
def hdrMoves (r : IpToEthstream) (i : EthWires) : Bool :=
  decide (r.hdrState = .ethHdrWait) || (decide (r.hdrState = .hdrOutput) && i.hdrRdy)

/-- The steps that the header machine still needs for the packet. -/
def hdrLeft (r : IpToEthstream) : Nat :=
  match r.hdrState with
  | .ethHdrWait => 2
  | .hdrOutput => 1
  | .waiting | .hdrWaitTxFin => 0

/-- The packet is not finished. -/
def unfinished (r : IpToEthstream) : Nat := if r.dataState = .ready then 0 else 1

/-- A packet costs the two steps of its header and its end. -/
theorem Owes.work_le (ho : Owes r qs ts ds es) (i : EthWires) :
    hdrLeft (r.next i) + unfinished (r.next i) + (r.hdrMoves i).toNat + r.finishes.toNat ≤
      hdrLeft r + unfinished r + 3 * (r.begins i).toNat := by
  have hfin : unfinished (r.next i) + r.finishes.toNat ≤ 1 := by
    cases hf : r.finishes with
    | false =>
      simp only [unfinished, Bool.toNat_false]
      split_ifs <;> omega
    | true =>
      obtain ⟨hw, hh⟩ := Bool.and_eq_true_iff.mp hf
      have hnext : (r.next i).dataState = .ready := by
        simp [next, dataNext, eq_of_beq hw, eq_of_beq hh]
      simp [unfinished, hnext]
  have hbusy : r.dataState ≠ .ready → HdrPhase r →
      hdrLeft (r.next i) + (r.hdrMoves i).toNat ≤ hdrLeft r ∧ unfinished r = 1 := by
    intro hs hh
    refine ⟨?_, if_neg hs⟩
    rcases hh with ⟨hst, hl⟩ | ⟨hst | hst, -⟩
    · have hout : r.lookup.outVal = true := by simp [EthHdrAssembler.outVal, hl]
      cases hr : i.hdrRdy <;> simp [hdrLeft, hdrMoves, next, hdrNext, hst, hout, hr]
    · cases hr : i.hdrRdy <;> simp [hdrLeft, hdrMoves, next, hdrNext, hst, hr]
    · by_cases hd : r.dataState = .waitTxFin <;>
        simp [hdrLeft, hdrMoves, next, hdrNext, hst, hd]
  cases ho with
  | ready hs hh hl =>
    have hleft : hdrLeft (r.next i) = 2 * (r.begins i).toNat := by
      cases hb : r.begins i <;> simp [hdrLeft, next, hdrNext, hh, hb]
    have hun : unfinished (r.next i) ≤ (r.begins i).toNat := by
      cases hb : r.begins i with
      | false => simp [unfinished, next, dataNext, hs, hb]
      | true =>
        have hle := Nat.le_of_add_right_le hfin
        simpa using hle
    have hmv : r.hdrMoves i = false := by simp [hdrMoves, hh]
    have hno : r.finishes = false := by simp [finishes, hs]
    rw [hmv, hno, hleft]
    simp only [Bool.toNat_false]
    omega
  | output rest hs hh =>
    have hb := hbusy (by simp [hs]) hh
    omega
  | outputLast hs hh =>
    have hb := hbusy (by simp [hs]) hh
    omega
  | waitTxFin hs hh =>
    have hb := hbusy (by simp [hs]) hh
    omega

/-- Where nothing moves, both machines stay in their states. -/
theorem Owes.still (ho : Owes r qs ts ds es) (hb : r.begins i = false) (hg : r.gives i = false)
    (hm : r.hdrMoves i = false) (hf : r.finishes = false) :
    (r.next i).dataState = r.dataState ∧ (r.next i).hdrState = r.hdrState := by
  have hhdr : HdrPhase r → (r.next i).hdrState = r.hdrState := by
    rintro (⟨hst, -⟩ | ⟨hst | hst, -⟩)
    · simp [hdrMoves, hst] at hm
    · have hr : i.hdrRdy = false := by simpa [hdrMoves, hst] using hm
      simp [next, hdrNext, hst, hr]
    · have hd : r.dataState ≠ .waitTxFin := by simpa [finishes, hst] using hf
      simp [next, hdrNext, hst, hd]
  cases ho with
  | ready hs hh =>
    exact ⟨by simp [next, dataNext, hs, hb], by simp [next, hdrNext, hh, hb]⟩
  | output rest hs hh =>
    have htake : r.takesData i = false := by
      simpa [gives, dstDataVal, takesData, srcDataRdy, hs] using hg
    exact ⟨by simp [next, dataNext, hs, htake], hhdr hh⟩
  | outputLast hs hh =>
    have hr : i.dataRdy = false := by simpa [gives, dstDataVal, hs] using hg
    exact ⟨by simp [next, dataNext, hs, hr], hhdr hh⟩
  | waitTxFin hs hh =>
    have hne : r.hdrState ≠ .hdrWaitTxFin := by simpa [finishes, hs] using hf
    exact ⟨by simp [next, dataNext, hs, hne], hhdr hh⟩

/-- A line that is taken is given out with the bytes before it. -/
theorem takesData_gives (ht : r.takesData i = true) : r.gives i = true := by
  simp only [takesData, srcDataRdy, Bool.and_eq_true, beq_iff_eq] at ht
  obtain ⟨hv, hs, hr⟩ := ht
  simp [gives, dstDataVal, hs, hv, hr]

end IpToEthstream

end TcpHw
