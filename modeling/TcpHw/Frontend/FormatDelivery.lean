import TcpHw.Frontend.IpStreamFormat

/-!
# What `ip_stream_format` delivers

The formatter serves one packet at a time, so its state says how far it is with the current
packet, and what it still owes is read off its registers. A packet is lost or the formatter stops
for good in two branches only: the checksum response comes while the second line of the packet is
not offered, or the checksum is bad and the second line is not the last. In every run that never
takes these branches the deliveries are those of the packets in order, and all of them come once
the surroundings cooperate.
-/
namespace TcpHw

open Bytes Framing Trace

set_option autoImplicit false

namespace FormatSystem

open IpStreamFormat

/-- Neither of the two branches is taken in this cycle. -/
def Sound (s : FormatSystem) (e : FormatEnv) : Prop :=
  s.fmt.dataState = .chksumWaitFirstData → s.fmt.wasLast = false → (s.inputs e).resp ≠ none →
    (s.inputs e).srcVal = true ∧ ((s.inputs e).resp = some 0 ∨ (s.inputs e).src.last = true)

instance (s : FormatSystem) (e : FormatEnv) : Decidable (Sound s e) :=
  inferInstanceAs (Decidable (_ → _ → _ → _))

/-- With what is still owed for the packet in hand and the packets `ps`, the deliveries are
complete. -/
structure Owes (pkts : List IpPacket) (s : FormatSystem) (h : List HdrOut)
    (d : List (Beat (BitVec 8))) (ps : List IpPacket) : Prop where
  hdrs : s.hdrs ++ (h ++ hdrsOf ps) = hdrsOf pkts
  data : s.data ++ (d ++ dataOf ps) = dataOf pkts
  exactLens : ∀ p ∈ ps, p.Exact

/-- The registers that hold the header line of a packet. -/
structure Loaded (p : IpPacket) (r : IpStreamFormat) : Prop where
  ipHdr : r.ipHdr = p.hdr
  pktTimestamp : r.pktTimestamp = p.head.timestamp
  realignUpper : r.realignUpper = p.head.data
  ipHdrBytesLeft : r.ipHdrBytesLeft = p.hdr.hdrBytes
  payloadBytesLeft : r.payloadBytesLeft = p.hdr.totLen - p.hdr.hdrBytes
  wasLast : r.wasLast = p.head.last
  exactLen : p.Exact

/-- What the header machine owes once the checksum is known. -/
def HdrOwes (r : IpStreamFormat) (h : List HdrOut) : Prop :=
  r.hdrState = .hdrOutput ∧ h = [⟨r.ipHdr, r.pktTimestamp⟩] ∨ r.hdrState = .hdrWaitTxFin ∧ h = []

/-- The bytes the registers and the lines `t` hold for the data port. -/
def pending (r : IpStreamFormat) (t : List RxLine) : List (BitVec 8) :=
  ((lineBytes r.realignUpper ++ (lineBytes r.realignLower ++ flatBytes t)).drop
    r.ipHdrBytesLeft.toNat).take r.payloadBytesLeft.toNat

/-- The registers while the payload is given out, with `m` bytes from the top of the upper line
to the end of the packet. -/
structure Realigning (r : IpStreamFormat) (m : Nat) : Prop where
  shift : r.ipHdrBytesLeft.toNat ≤ 60
  left : r.ipHdrBytesLeft.toNat + r.payloadBytesLeft.toNat = m
  some : 0 < r.payloadBytesLeft.toNat
  totLen : r.ipHdr.totLen.toNat % 64 = m % 64

/-- How far the formatter is with its packet. -/
inductive Phase (pkts : List IpPacket) (s : FormatSystem) : Prop
  | ready (ps : List IpPacket) (hd : s.fmt.dataState = .ready) (hh : s.fmt.hdrState = .waiting)
      (hc : s.chk = .reset) (hs : s.src = linesOf ps) (ho : Owes pkts s [] [] ps)
  | chksumLast (p : IpPacket) (ps : List IpPacket) (hd : s.fmt.dataState = .chksumLast)
      (hh : s.fmt.hdrState = .waiting) (hl : Loaded p s.fmt) (hc : s.chk = ⟨true, [], []⟩)
      (hs : s.src = p.tail ++ linesOf ps) (ho : Owes pkts s p.hdrOwed p.dataOwed ps)
  | chksumWait (p : IpPacket) (ps : List IpPacket) (hd : s.fmt.dataState = .chksumWaitFirstData)
      (hh : s.fmt.hdrState = .waiting) (hl : Loaded p s.fmt)
      (hc : s.chk = ⟨false, [], [⟨p.hdrChksum, true⟩]⟩) (hs : s.src = p.tail ++ linesOf ps)
      (ho : Owes pkts s p.hdrOwed p.dataOwed ps)
  | output (t : List RxLine) (k : Nat) (ps : List IpPacket) (h : List HdrOut)
      (hd : s.fmt.dataState = .dataOutput) (hh : HdrOwes s.fmt h) (hc : s.chk = .reset)
      (hs : s.src = t ++ linesOf ps) (ht : Framed t k) (hr : Realigning s.fmt (128 + k))
      (ho : Owes pkts s h (beats 64 (pending s.fmt t)) ps)
  | outputLast (m : Nat) (ps : List IpPacket) (h : List HdrOut)
      (hd : s.fmt.dataState = .dataOutputLast) (hh : HdrOwes s.fmt h) (hc : s.chk = .reset)
      (hs : s.src = linesOf ps) (hm : m ≤ 128) (hr : Realigning s.fmt m)
      (ho : Owes pkts s h (beats 64 (pending s.fmt [])) ps)
  | waitFin (ps : List IpPacket) (h : List HdrOut) (hd : s.fmt.dataState = .dataWaitTxFin)
      (hh : HdrOwes s.fmt h) (hc : s.chk = .reset) (hs : s.src = linesOf ps)
      (ho : Owes pkts s h [] ps)

/-- The invariant of the runs that take neither branch. -/
structure Inv (pkts : List IpPacket) (s : FormatSystem) : Prop where
  wrap : s.wrap = .wait
  phase : Phase pkts s

variable {pkts : List IpPacket} {s : FormatSystem} {e : FormatEnv}

theorem inv_init (hx : ∀ p ∈ pkts, p.Exact) (h : Init pkts s) : Inv pkts s := by
  obtain ⟨hh, hd⟩ := h.empty
  exact ⟨h.wrap, .ready pkts h.dataState h.hdrState h.chk h.src ⟨by simp [hh], by simp [hd], hx⟩⟩

/-! ### The wires -/

theorem src_of_srcVal (h : (s.inputs e).srcVal = true) : ∃ t, s.src = (s.inputs e).src :: t :=
  exists_tail_of_offered h

theorem wrapData_nil (h : s.chk.out = []) : s.wrapData e = none := by
  simp [wrapData, h]

theorem resp_nil (h : s.chk.out = []) : (s.inputs e).resp = none := by
  cases hw : s.wrap <;> simp [inputs, wrapData_nil h, hw, ChksumWrap.resp]

theorem wrap_of_nil (h : s.chk.out = []) : (s.cycle e).wrap = s.wrap := by
  simp [cycle, wrapData_nil h, ChksumWrap.next]

/-- An idle checksum unit stays idle unless it is given a command. -/
theorem chk_reset (hc : s.chk = .reset) (hcmd : (s.fmt.outputs (s.inputs e)).cmdVal = false) :
    (s.cycle e).chk = .reset := by
  have hr : (s.inputs e).reqRdy = false := by simp [inputs, hc, ChksumCalc.reset]
  have hw : s.wrapData e = none := wrapData_nil (by simp [hc, ChksumCalc.reset])
  simp [cycle, hr, hw, hcmd, hc, ChksumCalc.step, ChksumCalc.reset]

/-- The header machine moves what it owes to the deliveries. -/
theorem hdr_step {h : List HdrOut} (hh : HdrOwes s.fmt h)
    (hd : s.fmt.dataState ≠ .dataWaitTxFin)
    (hkeep : ((s.fmt.dataComb (s.inputs e)).1.ipHdr, (s.fmt.dataComb (s.inputs e)).1.pktTimestamp) =
      (s.fmt.ipHdr, s.fmt.pktTimestamp)) :
    ∃ h', HdrOwes (s.cycle e).fmt h' ∧ (s.cycle e).hdrs ++ h' = s.hdrs ++ h := by
  rcases hh with ⟨hs, rfl⟩ | ⟨hs, rfl⟩
  · cases hr : e.hdrRdy with
    | true =>
      refine ⟨[], .inr ⟨?_, rfl⟩, ?_⟩
      · simp [cycle, next, hdrNext, hs, inputs, hr]
      · simp [cycle, hr, hdrOut, hs]
    | false =>
      refine ⟨_, .inl ⟨?_, rfl⟩, ?_⟩
      · simp [cycle, next, hdrNext, hs, inputs, hr]
      · obtain ⟨h1, h2⟩ := Prod.mk.inj hkeep
        simp [cycle, hr, next, h1, h2]
  · refine ⟨[], .inr ⟨?_, rfl⟩, ?_⟩
    · simp [cycle, next, hdrNext, hs, hd]
    · cases hr : e.hdrRdy <;> simp [cycle, hr, hdrOut, hs]

/-! ### One cycle in each phase -/

/-- A cycle that delivers nothing and changes no machine. -/
theorem Owes.of_eq {h h' : List HdrOut} {d : List (Beat (BitVec 8))} {ps : List IpPacket}
    (ho : Owes pkts s h d ps) (hh : (s.cycle e).hdrs ++ h' = s.hdrs ++ h)
    (hd : (s.cycle e).data = s.data) : Owes pkts (s.cycle e) h' d ps := by
  refine ⟨?_, ?_, ho.exactLens⟩
  · rw [← List.append_assoc, hh, List.append_assoc]
    exact ho.hdrs
  · rw [hd]
    exact ho.data

theorem hdrs_waiting (hh : s.fmt.hdrState = .waiting) : (s.cycle e).hdrs = s.hdrs := by
  cases hr : e.hdrRdy <;> simp [cycle, hr, hdrOut, hh]

theorem phase_ready {ps : List IpPacket} (hd : s.fmt.dataState = .ready)
    (hh : s.fmt.hdrState = .waiting) (hc : s.chk = .reset) (hs : s.src = linesOf ps)
    (ho : Owes pkts s [] [] ps) : Phase pkts (s.cycle e) := by
  have hrdy : (s.inputs e).cmdRdy = true := by simp [inputs, hc, ChksumCalc.cmdRdy, ChksumCalc.reset]
  have hhdr : s.fmt.hdrNext (s.inputs e) = .waiting := by simp [hdrNext, hh, hd]
  have hdata : (s.cycle e).data = s.data := by
    cases hv : (s.inputs e).srcVal <;> simp [cycle, outputs, dataComb, hd, hv, hrdy, quiet]
  cases hv : (s.inputs e).srcVal with
  | false =>
    have hcmd : (s.fmt.outputs (s.inputs e)).cmdVal = false := by
      simp [outputs, dataComb, hd, hv, quiet]
    refine .ready ps ?_ ?_ (chk_reset hc hcmd) ?_ (ho.of_eq (by rw [hdrs_waiting hh]) hdata)
    · simp [cycle, next, dataComb, hd, hv]
    · simp [cycle, next, hhdr]
    · simp [cycle, hv, hs]
  | true =>
    obtain ⟨t, ht⟩ := src_of_srcVal hv
    cases ps with
    | nil => simp [hs] at ht
    | cons p ps =>
      rw [hs, linesOf_cons, List.cons.injEq] at ht
      obtain ⟨hp, rfl⟩ := ht
      have hfit : ¬ 64 / 4 < (ipHdrCast (s.inputs e).src.data).ipHdrLen.toNat := by
        rw [← hp]
        exact p.hdr_fits
      refine .chksumLast p ps ?_ ?_ ?_ ?_ ?_ ?_
      · simp only [cycle, next, dataComb, hd, hv, hrdy, Bool.and_true, if_true, if_neg hfit]
      · simp [cycle, next, hhdr]
      · have hexact := ho.exactLens p List.mem_cons_self
        constructor <;> simp [cycle, next, dataComb, hd, hv, hrdy, ← hp, IpPacket.hdr, hexact]
      · have hreq : (s.inputs e).reqRdy = false := by simp [inputs, hc, ChksumCalc.reset]
        have hw : s.wrapData e = none := wrapData_nil (by simp [hc, ChksumCalc.reset])
        simp [cycle, outputs, dataComb, hd, hv, hrdy, quiet, hreq, hw, hc, ChksumCalc.step,
          ChksumCalc.reset]
      · simp [cycle, outputs, dataComb, hd, hv, hrdy, hs]
      · refine ⟨?_, ?_, fun q hq => ho.exactLens q (List.mem_cons_of_mem _ hq)⟩
        · rw [hdrs_waiting hh]
          simpa using ho.hdrs
        · rw [hdata]
          simpa using ho.data

theorem phase_chksumLast {p : IpPacket} {ps : List IpPacket} (hd : s.fmt.dataState = .chksumLast)
    (hh : s.fmt.hdrState = .waiting) (hl : Loaded p s.fmt) (hc : s.chk = ⟨true, [], []⟩)
    (hs : s.src = p.tail ++ linesOf ps) (ho : Owes pkts s p.hdrOwed p.dataOwed ps) :
    Phase pkts (s.cycle e) := by
  have hhdr : s.fmt.hdrNext (s.inputs e) = .waiting := by simp [hdrNext, hh, hd]
  have hw : s.wrapData e = none := wrapData_nil (by simp [hc])
  have hsrc : (s.cycle e).src = p.tail ++ linesOf ps := by
    simp [cycle, outputs, dataComb, hd, quiet, hs]
  have ho' : Owes pkts (s.cycle e) p.hdrOwed p.dataOwed ps :=
    ho.of_eq (by rw [hdrs_waiting hh]) (by simp [cycle, outputs, dataComb, hd, quiet])
  cases hr : (s.inputs e).reqRdy with
  | false =>
    refine .chksumLast p ps ?_ ?_ ?_ ?_ hsrc ho'
    · simp [cycle, next, dataComb, hd, hr]
    · simp [cycle, next, hhdr]
    · obtain ⟨h1, h2, h3, h4, h5, h6, h7⟩ := hl
      constructor <;> simp [cycle, next, dataComb, *]
    · simp [cycle, outputs, dataComb, hd, quiet, hr, hw, hc, ChksumCalc.step]
  | true =>
    refine .chksumWait p ps ?_ ?_ ?_ ?_ hsrc ho'
    · simp [cycle, next, dataComb, hd, hr]
    · simp [cycle, next, hhdr]
    · obtain ⟨h1, h2, h3, h4, h5, h6, h7⟩ := hl
      constructor <;> simp [cycle, next, dataComb, *]
    · have hk : keptBytes s.fmt.realignUpper
          (BitVec.allOnes 64 <<< (64 - s.fmt.ipHdrBytesLeft.toNat)) =
            (lineBytes p.head.data).take p.hlen := by
        rw [hl.realignUpper, hl.ipHdrBytesLeft]
        exact keptBytes_allOnes _ (Nat.le_trans p.hlen_le (by decide))
      simp only [cycle, outputs, dataComb, hd, quiet, hr, if_true, hw, hc, ChksumCalc.step,
        ChksumCalc.responses, ChksumCalc.echo, List.nil_append, List.flatMap_cons,
        List.flatMap_nil, List.append_nil, hk]
      rfl

/-- The payload is what the registers hold once the header line is in. -/
theorem Loaded.realigning {p : IpPacket} {r : IpStreamFormat} (hl : Loaded p r) :
    Realigning r p.tlen := by
  have hexact : p.hdr.totLen.toNat = p.tlen := hl.exactLen
  have hlt : p.hdr.hdrBytes.toNat < p.hdr.totLen.toNat := by
    rw [hexact]
    exact p.hlen_lt
  have hle : p.hdr.hdrBytes ≤ p.hdr.totLen := Nat.le_of_lt hlt
  have hleft : r.payloadBytesLeft.toNat = p.hdr.totLen.toNat - p.hdr.hdrBytes.toNat := by
    rw [hl.payloadBytesLeft]
    exact BitVec.toNat_sub_of_le hle
  refine ⟨?_, ?_, ?_, ?_⟩
  · rw [hl.ipHdrBytesLeft]
    exact p.hlen_le
  · rw [hl.ipHdrBytesLeft, hleft, ← hexact]
    exact Nat.add_sub_cancel' hle
  · omega
  · rw [hl.ipHdr, hexact]

/-- The bytes before the end of the packet are those of its payload, whatever lies behind. -/
theorem pending_loaded {p : IpPacket} {r : IpStreamFormat} {t : List RxLine}
    {z : List (BitVec 8)} (hl : Loaded p r)
    (h : lineBytes r.realignUpper ++ (lineBytes r.realignLower ++ flatBytes t) =
      flatBytes p.lines ++ z) : pending r t = p.payload := by
  have hr := hl.realigning
  have hn : r.ipHdrBytesLeft.toNat = p.hlen := by
    rw [hl.ipHdrBytesLeft]
    rfl
  have hk : r.payloadBytesLeft.toNat = p.tlen - p.hlen := by
    have hsum := hr.left
    omega
  have hlen : p.tlen ≤ (flatBytes p.lines).length := by
    rw [length_flatBytes]
    exact p.framed.bounds.1
  unfold pending IpPacket.payload
  rw [h, hn, hk, ← List.drop_take, List.take_append_of_le_length hlen]

theorem dataOwed_of_bad {p : IpPacket} (h : p.hdrChksum ≠ 0#16) : p.dataOwed = [] := by
  simp [IpPacket.dataOwed, IpPacket.good, h]

theorem dataOwed_of_good {p : IpPacket} (h : p.hdrChksum = 0#16) : p.dataOwed = beats 64 p.payload := by
  simp [IpPacket.dataOwed, IpPacket.good, h]

/-- Without a response the formatter waits for it. -/
theorem phase_chksumWait_none {p : IpPacket} {ps : List IpPacket} (hw : s.wrap = .wait)
    (hd : s.fmt.dataState = .chksumWaitFirstData) (hh : s.fmt.hdrState = .waiting)
    (hl : Loaded p s.fmt) (hc : s.chk = ⟨false, [], [⟨p.hdrChksum, true⟩]⟩)
    (hs : s.src = p.tail ++ linesOf ps) (ho : Owes pkts s p.hdrOwed p.dataOwed ps)
    (hr : e.respond = false) : Phase pkts (s.cycle e) ∧ (s.cycle e).wrap = .wait := by
  have hwd : s.wrapData e = none := by simp [wrapData, hr]
  have hresp : (s.inputs e).resp = none := by simp [inputs, hwd, hw, ChksumWrap.resp]
  have hreq : (s.inputs e).reqRdy = false := by simp [inputs, hc]
  refine ⟨.chksumWait p ps ?_ ?_ ?_ ?_ ?_ (ho.of_eq (by rw [hdrs_waiting hh]) ?_), ?_⟩
  · simp [cycle, next, dataComb, hd, hresp]
  · simp [cycle, next, hdrNext, hh, hd, hresp]
  · obtain ⟨h1, h2, h3, h4, h5, h6, h7⟩ := hl
    constructor <;> simp [cycle, next, dataComb, *]
  · simp [cycle, outputs, dataComb, hd, hresp, quiet, hreq, hwd, hc, ChksumCalc.step]
  · simp [cycle, outputs, dataComb, hd, hresp, quiet, hs]
  · simp [cycle, outputs, dataComb, hd, hresp, quiet]
  · simp [cycle, hwd, hw, ChksumWrap.next]

/-- The cycle in which the response of a packet is taken, whatever becomes of the packet. -/
structure Decides (pkts : List IpPacket) (s : FormatSystem) (e : FormatEnv) (p : IpPacket)
    (ps : List IpPacket) : Prop where
  resp : (s.inputs e).resp = some p.hdrChksum
  hdr : HdrOwes (s.cycle e).fmt p.hdrOwed
  chk : (s.cycle e).chk = .reset
  wrap : (s.cycle e).wrap = .wait
  owes : Owes pkts (s.cycle e) p.hdrOwed p.dataOwed ps

theorem decides {p : IpPacket} {ps : List IpPacket} (hw : s.wrap = .wait)
    (hd : s.fmt.dataState = .chksumWaitFirstData) (hh : s.fmt.hdrState = .waiting)
    (hl : Loaded p s.fmt) (hc : s.chk = ⟨false, [], [⟨p.hdrChksum, true⟩]⟩)
    (ho : Owes pkts s p.hdrOwed p.dataOwed ps) (hr : e.respond = true) : Decides pkts s e p ps := by
  have hwd : s.wrapData e = some ⟨p.hdrChksum, true⟩ := by simp [wrapData, hr, hc]
  have hresp : (s.inputs e).resp = some p.hdrChksum := by simp [inputs, hwd, hw, ChksumWrap.resp]
  have hreq : (s.inputs e).reqRdy = false := by simp [inputs, hc]
  have hout : (s.fmt.outputs (s.inputs e)).respRdy = true ∧
      (s.fmt.outputs (s.inputs e)).cmdVal = false ∧
        (s.fmt.outputs (s.inputs e)).data = none := by
    simp only [outputs, dataComb, hd, hresp]
    split_ifs <;> exact ⟨rfl, rfl, rfl⟩
  obtain ⟨hrdy, hcmd, hnone⟩ := hout
  have hkeep : (s.cycle e).fmt.ipHdr = p.hdr ∧ (s.cycle e).fmt.pktTimestamp = p.head.timestamp := by
    simp only [cycle, next, dataComb, hd, hresp]
    split_ifs <;> exact ⟨hl.ipHdr, hl.pktTimestamp⟩
  refine ⟨hresp, ?_, ?_, ?_, ho.of_eq (by rw [hdrs_waiting hh]) (by simp [cycle, hnone])⟩
  · by_cases hg : p.hdrChksum = 0#16
    · refine .inl ⟨?_, ?_⟩
      · simp [cycle, next, hdrNext, hh, hd, hresp, hg]
      · simp [IpPacket.hdrOwed, IpPacket.good, hg, hkeep]
    · refine .inr ⟨?_, ?_⟩
      · simp [cycle, next, hdrNext, hh, hd, hresp, hg]
      · simp [IpPacket.hdrOwed, IpPacket.good, hg]
  · simp [cycle, hreq, hwd, hw, hrdy, hcmd, hc, ChksumWrap.wrapRdy, ChksumCalc.step,
      ChksumCalc.reset]
  · simp [cycle, hwd, hw, hrdy, ChksumWrap.next]

/-- The response of a packet of one line. -/
theorem phase_one_line {p : IpPacket} {ps : List IpPacket} (hx : Decides pkts s e p ps)
    (hd : s.fmt.dataState = .chksumWaitFirstData) (hl : Loaded p s.fmt)
    (hs : s.src = p.tail ++ linesOf ps) (hlast : p.head.last = true) :
    Phase pkts (s.cycle e) := by
  have hresp := hx.resp
  obtain ⟨htail, hk, -⟩ := p.framed.of_last hlast
  have hwas : s.fmt.wasLast = true := hl.wasLast.trans hlast
  have hsrc : (s.cycle e).src = linesOf ps := by
    simp [cycle, outputs, dataComb, hd, hresp, hwas, quiet, hs, htail]
  by_cases hg : p.hdrChksum = 0#16
  · have hload : Loaded p (s.cycle e).fmt := by
      obtain ⟨h1, h2, h3, h4, h5, h6, h7⟩ := hl
      constructor <;> simp [cycle, next, dataComb, *]
    refine .outputLast p.tlen ps p.hdrOwed ?_ hx.hdr hx.chk hsrc (Nat.le_trans hk (by decide))
      hload.realigning ?_
    · simp [cycle, next, dataComb, hd, hresp, hwas, hg]
    · rw [pending_loaded hload (z := lineBytes (s.cycle e).fmt.realignLower)
        (by simp [hload.realignUpper, IpPacket.lines, htail, flatBytes]), ← dataOwed_of_good hg]
      exact hx.owes
  · refine .waitFin ps p.hdrOwed ?_ hx.hdr hx.chk hsrc ?_
    · simp [cycle, next, dataComb, hd, hresp, hwas, hg]
    · rw [← dataOwed_of_bad hg]
      exact hx.owes

/-- The response of a longer packet comes with its second line. -/
theorem phase_second_line {p : IpPacket} {ps : List IpPacket} (hx : Decides pkts s e p ps)
    (hd : s.fmt.dataState = .chksumWaitFirstData) (hl : Loaded p s.fmt)
    (hs : s.src = p.tail ++ linesOf ps) (hlast : p.head.last = false) (hok : Sound s e) :
    Phase pkts (s.cycle e) := by
  have hresp := hx.resp
  have hwas : s.fmt.wasLast = false := hl.wasLast.trans hlast
  obtain ⟨hv, hbranch⟩ := hok hd hwas (by simp [hresp])
  obtain ⟨hlong, hframed⟩ := p.framed.of_not_last hlast
  obtain ⟨l, t, htail⟩ := List.exists_cons_of_ne_nil hframed.ne_nil
  obtain ⟨t', ht'⟩ := src_of_srcVal hv
  rw [hs, htail, List.cons_append, List.cons.injEq] at ht'
  obtain ⟨hline, rfl⟩ := ht'
  rw [htail] at hframed
  have hsrc : (s.cycle e).src = t ++ linesOf ps := by
    simp [cycle, outputs, dataComb, hd, hresp, hwas, hv, quiet, hs, htail]
  -- the registers hold the packet as if the second line had come with the first
  have hregs : Loaded p { (s.cycle e).fmt with wasLast := s.fmt.wasLast } ∧
      (s.cycle e).fmt.realignLower = l.data := by
    obtain ⟨h1, h2, h3, h4, h5, h6, h7⟩ := hl
    refine ⟨?_, ?_⟩
    · constructor <;> simp [cycle, next, dataComb, *]
    · simp [cycle, next, dataComb, *]
  obtain ⟨hload, hlower⟩ := hregs
  have hreal : Realigning (s.cycle e).fmt p.tlen := by
    obtain ⟨h1, h2, h3, h4⟩ := hload.realigning
    exact ⟨h1, h2, h3, h4⟩
  have hpend : pending (s.cycle e).fmt t = p.payload := by
    show pending { (s.cycle e).fmt with wasLast := s.fmt.wasLast } t = p.payload
    refine pending_loaded (z := []) hload ?_
    have hu : (s.cycle e).fmt.realignUpper = p.head.data := hload.realignUpper
    simp [hu, hlower, IpPacket.lines, htail]
  cases hll : l.last with
  | true =>
    obtain ⟨rfl, hk, -⟩ := hframed.of_last hll
    by_cases hg : p.hdrChksum = 0#16
    · refine .outputLast p.tlen ps p.hdrOwed ?_ hx.hdr hx.chk hsrc ?_ hreal ?_
      · simp [cycle, next, dataComb, hd, hresp, hwas, hv, hg, ← hline, hll]
      · omega
      · rw [hpend, ← dataOwed_of_good hg]
        exact hx.owes
    · refine .waitFin ps p.hdrOwed ?_ hx.hdr hx.chk hsrc ?_
      · simp [cycle, next, dataComb, hd, hresp, hwas, hv, hg, ← hline, hll]
      · rw [← dataOwed_of_bad hg]
        exact hx.owes
  | false =>
    obtain ⟨hlong', hframed'⟩ := hframed.of_not_last hll
    have hg : p.hdrChksum = 0#16 := by simpa [hresp, ← hline, hll] using hbranch
    refine .output t _ ps p.hdrOwed ?_ hx.hdr hx.chk hsrc hframed' ?_ ?_
    · simp [cycle, next, dataComb, hd, hresp, hwas, hv, hg, ← hline, hll]
    · have hsum : 128 + (p.tlen - 64 - 64) = p.tlen := by omega
      rw [hsum]
      exact hreal
    · rw [hpend, ← dataOwed_of_good hg]
      exact hx.owes

/-- The response decides the packet. -/
theorem phase_chksumWait_some {p : IpPacket} {ps : List IpPacket} (hw : s.wrap = .wait)
    (hd : s.fmt.dataState = .chksumWaitFirstData) (hh : s.fmt.hdrState = .waiting)
    (hl : Loaded p s.fmt) (hc : s.chk = ⟨false, [], [⟨p.hdrChksum, true⟩]⟩)
    (hs : s.src = p.tail ++ linesOf ps) (ho : Owes pkts s p.hdrOwed p.dataOwed ps)
    (hok : Sound s e) (hr : e.respond = true) :
    Phase pkts (s.cycle e) ∧ (s.cycle e).wrap = .wait := by
  have hx := decides hw hd hh hl hc ho hr
  refine ⟨?_, hx.wrap⟩
  cases hlast : p.head.last with
  | true => exact phase_one_line hx hd hl hs hlast
  | false => exact phase_second_line hx hd hl hs hlast hok

/-! ### Realigned lines -/

section Realigning

variable {r : IpStreamFormat} {m : Nat} {t : List RxLine}

theorem Realigning.lineBytes_realignedData (hr : Realigning r m) :
    lineBytes r.realignedData =
      ((lineBytes r.realignUpper ++ lineBytes r.realignLower).drop r.ipHdrBytesLeft.toNat).take 64 := by
  have hs := hr.shift
  have hshift : (r.ipHdrBytesLeft <<< 3).toNat = 8 * r.ipHdrBytesLeft.toNat := by
    rw [BitVec.toNat_shiftLeft, Nat.shiftLeft_eq]
    omega
  rw [realignedData, hshift]
  exact lineBytes_upperShl _ _ (Nat.le_trans hs (by decide))

theorem length_pending (hm : r.ipHdrBytesLeft.toNat + r.payloadBytesLeft.toNat ≤
    64 * (2 + t.length)) : (pending r t).length = r.payloadBytesLeft.toNat := by
  simp only [pending, List.length_take, List.length_drop, List.length_append, length_lineBytes,
    length_flatBytes]
  omega

/-- The line given out is the top of what is pending. -/
theorem Realigning.take_realignedData (hr : Realigning r m) {k : Nat} (hk : k ≤ 64)
    (hle : k ≤ r.payloadBytesLeft.toNat) :
    (lineBytes r.realignedData).take k = (pending r t).take k := by
  have hs := hr.shift
  have hlen : r.ipHdrBytesLeft.toNat ≤
      (lineBytes r.realignUpper ++ lineBytes r.realignLower).length := by
    simp only [List.length_append, length_lineBytes]
    omega
  rw [hr.lineBytes_realignedData, pending, List.take_take, List.take_take, Nat.min_eq_left hk,
    Nat.min_eq_left hle, ← List.append_assoc, List.drop_append_of_le_length hlen,
    List.take_append_of_le_length]
  simp only [List.length_drop, List.length_append, length_lineBytes]
  omega

/-- What is pending after a line. -/
theorem drop_pending :
    (pending r t).drop 64 = ((lineBytes r.realignLower ++ flatBytes t).drop
      r.ipHdrBytesLeft.toNat).take (r.payloadBytesLeft.toNat - 64) := by
  have hu : (lineBytes r.realignUpper).length = 64 := length_lineBytes _
  rw [pending, List.drop_take, List.drop_drop, Nat.add_comm, ← List.drop_drop,
    List.drop_left' hu]

/-- A full line, with more to come. -/
theorem Realigning.beats_full (hr : Realigning r m) (hm : m ≤ 64 * (2 + t.length))
    (hl : 64 < r.payloadBytesLeft.toNat) (pad : BitVec 6) :
    beats 64 (pending r t) =
      readBeat r.realignedData false pad :: beats 64 ((pending r t).drop 64) := by
  have hlen : (pending r t).length = r.payloadBytesLeft.toNat := length_pending (hr.left ▸ hm)
  have htake := hr.take_realignedData (t := t) (Nat.le_refl 64) (Nat.le_of_lt hl)
  rw [List.take_of_length_le (by simp)] at htake
  rw [Framing.beats_full (by decide) (by omega), ← htake]
  rfl

theorem Realigning.toNat_padbytes (hr : Realigning r m) (hl : r.payloadBytesLeft.toNat ≤ 64) :
    r.padbytes.toNat = 64 - r.payloadBytesLeft.toNat := by
  obtain ⟨hs, rfl, hpos, ht⟩ := hr
  have hrem : r.dataRemainder.toNat = 64 + r.ipHdr.totLen.toNat % 64 := by
    have hlt := Nat.mod_lt r.ipHdr.totLen.toNat (by decide : 0 < 64)
    simp only [dataRemainder, BitVec.toNat_append, BitVec.extractLsb'_toNat, Nat.shiftRight_zero,
      Nat.shiftLeft_eq]
    rw [← Nat.shiftLeft_eq, ← Nat.shiftLeft_add_eq_or_of_lt (by simpa using hlt)]
    simp [Nat.shiftLeft_eq]
  have hpad : (r.dataPadbytes.extractLsb' 0 6).toNat = (64 - r.ipHdr.totLen.toNat % 64) % 64 := by
    simp only [dataPadbytes, BitVec.extractLsb'_toNat, BitVec.toNat_sub, hrem, Nat.shiftRight_zero]
    simp
    omega
  simp only [padbytes, padbytesTemp, BitVec.extractLsb'_toNat, Nat.shiftRight_zero,
    BitVec.toNat_add, BitVec.toNat_setWidth, hpad]
  omega

/-- The last line. -/
theorem Realigning.beats_last (hr : Realigning r m) (hm : m ≤ 64 * (2 + t.length))
    (hl : r.payloadBytesLeft.toNat ≤ 64) :
    beats 64 (pending r t) = [readBeat r.realignedData true r.padbytes] := by
  have hpos := hr.some
  have hlen : (pending r t).length = r.payloadBytesLeft.toNat := length_pending (hr.left ▸ hm)
  have htake := hr.take_realignedData (t := t) hl (Nat.le_refl _)
  rw [List.take_of_length_le (l := pending r t) (by omega)] at htake
  have hkeep : 64 - (64 - r.payloadBytesLeft.toNat) = r.payloadBytesLeft.toNat := by omega
  rw [Framing.beats_last (by omega) (by omega), readBeat, if_pos rfl, hr.toNat_padbytes hl, hkeep,
    htake, hlen]

end Realigning

/-- Nothing moves on the data port. -/
theorem phase_output_still {t : List RxLine} {k : Nat} {ps : List IpPacket} {h h' : List HdrOut}
    (hd : s.fmt.dataState = .dataOutput) (hh' : HdrOwes (s.cycle e).fmt h')
    (hhdrs : (s.cycle e).hdrs ++ h' = s.hdrs ++ h) (hchk : (s.cycle e).chk = .reset)
    (hs : s.src = t ++ linesOf ps) (ht : Framed t k) (hr : Realigning s.fmt (128 + k))
    (ho : Owes pkts s h (beats 64 (pending s.fmt t)) ps)
    (hgo : ((s.inputs e).dataRdy && (s.inputs e).srcVal) = false) : Phase pkts (s.cycle e) := by
  have hfmt : (s.cycle e).fmt = { s.fmt with hdrState := s.fmt.hdrNext (s.inputs e) } := by
    simp [cycle, next, dataComb, hd, hgo]
  have hdata : (s.cycle e).data = s.data := by
    cases hv : (s.inputs e).srcVal with
    | false => simp [cycle, outputs, dataComb, hd, hv]
    | true =>
      have hrdy : e.dataRdy = false := by
        rw [hv, Bool.and_true] at hgo
        exact hgo
      simp [cycle, outputs, dataComb, hd, hv, hrdy]
  refine .output t k ps h' ?_ hh' hchk ?_ ht ?_ ?_
  · rw [hfmt]
    exact hd
  · have hsrc : (s.cycle e).src = s.src := by
      cases hv : (s.inputs e).srcVal with
      | false => simp [cycle, hv]
      | true =>
        have hrdy : (s.inputs e).dataRdy = false := by simpa [hv] using hgo
        simp [cycle, outputs, dataComb, hd, hv, hrdy]
    rw [hsrc, hs]
  · rw [hfmt]
    obtain ⟨h1, h2, h3, h4⟩ := hr
    exact ⟨h1, h2, h3, h4⟩
  · have hp : pending (s.cycle e).fmt t = pending s.fmt t := by
      rw [hfmt]
      rfl
    rw [hp]
    exact ho.of_eq hhdrs hdata

/-- A full line goes out, and the next one is taken. -/
theorem phase_output_line {t : List RxLine} {k : Nat} {ps : List IpPacket} {h h' : List HdrOut}
    (hd : s.fmt.dataState = .dataOutput) (hh' : HdrOwes (s.cycle e).fmt h')
    (hhdrs : (s.cycle e).hdrs ++ h' = s.hdrs ++ h) (hchk : (s.cycle e).chk = .reset)
    (hs : s.src = t ++ linesOf ps) (ht : Framed t k) (hr : Realigning s.fmt (128 + k))
    (ho : Owes pkts s h (beats 64 (pending s.fmt t)) ps)
    (hgo : ((s.inputs e).dataRdy && (s.inputs e).srcVal) = true) : Phase pkts (s.cycle e) := by
  obtain ⟨hrdy, hv⟩ := Bool.and_eq_true_iff.mp hgo
  obtain ⟨l, t', rfl⟩ := List.exists_cons_of_ne_nil ht.ne_nil
  obtain ⟨t'', ht''⟩ := src_of_srcVal hv
  rw [hs, List.cons_append, List.cons.injEq] at ht''
  obtain ⟨hline, rfl⟩ := ht''
  have hb := ht.bounds
  have hshift := hr.shift
  have hleft := hr.left
  have hpos := ht.pos
  have hlong : 64 < s.fmt.payloadBytesLeft.toNat := by omega
  have hsub : (s.fmt.payloadBytesLeft - 64).toNat = s.fmt.payloadBytesLeft.toNat - 64 :=
    BitVec.toNat_sub_of_le (Nat.le_of_lt hlong)
  have hfmt : (s.cycle e).fmt = { s.fmt with
      hdrState := s.fmt.hdrNext (s.inputs e)
      wasLast := l.last
      payloadBytesLeft := s.fmt.payloadBytesLeft - 64
      realignUpper := s.fmt.realignLower
      realignLower := l.data
      dataState := if l.last then .dataOutputLast else .dataOutput } := by
    simp [cycle, next, dataComb, hd, hgo, ← hline]
  have hsrc : (s.cycle e).src = t' ++ linesOf ps := by
    simp [cycle, outputs, dataComb, hd, hrdy, hv, hs]
  have hdata : (s.cycle e).data = s.data ++ [readBeat s.fmt.realignedData false 0] := by
    have hrdy' : e.dataRdy = true := hrdy
    simp [cycle, outputs, dataComb, hd, hv, hrdy']
  have hreal : Realigning (s.cycle e).fmt (64 + k) := by
    rw [hfmt]
    obtain ⟨h1, h2, h3, h4⟩ := hr
    refine ⟨h1, ?_, ?_, ?_⟩ <;> simp only [hsub] <;> omega
  have hp : pending (s.cycle e).fmt t' = (pending s.fmt (l :: t')).drop 64 := by
    rw [hfmt, drop_pending, pending, flatBytes_cons, hsub]
  have ho' : Owes pkts (s.cycle e) h' (beats 64 (pending (s.cycle e).fmt t')) ps := by
    refine ⟨?_, ?_, ho.exactLens⟩
    · rw [← List.append_assoc, hhdrs, List.append_assoc]
      exact ho.hdrs
    · rw [hdata, hp, List.append_assoc, ← List.append_assoc [_],
        List.singleton_append, ← hr.beats_full (by omega) hlong]
      exact ho.data
  cases hll : l.last with
  | true =>
    obtain ⟨rfl, hk, -⟩ := ht.of_last hll
    refine .outputLast (64 + k) ps h' ?_ hh' hchk hsrc (by omega) hreal ho'
    rw [hfmt, hll]
    rfl
  | false =>
    obtain ⟨hk, hframed⟩ := ht.of_not_last hll
    refine .output t' (k - 64) ps h' ?_ hh' hchk hsrc hframed ?_ ho'
    · rw [hfmt, hll]
      rfl
    · have hsum : 128 + (k - 64) = 64 + k := by omega
      rw [hsum]
      exact hreal

theorem phase_output {t : List RxLine} {k : Nat} {ps : List IpPacket} {h : List HdrOut}
    (hd : s.fmt.dataState = .dataOutput) (hh : HdrOwes s.fmt h) (hc : s.chk = .reset)
    (hs : s.src = t ++ linesOf ps) (ht : Framed t k) (hr : Realigning s.fmt (128 + k))
    (ho : Owes pkts s h (beats 64 (pending s.fmt t)) ps) : Phase pkts (s.cycle e) := by
  have hchk : (s.cycle e).chk = .reset := chk_reset hc (by simp [outputs, dataComb, hd, quiet])
  obtain ⟨h', hh', hhdrs⟩ := hdr_step (e := e) hh (by simp [hd]) (by
    simp only [dataComb, hd]
    split_ifs <;> rfl)
  cases hgo : (s.inputs e).dataRdy && (s.inputs e).srcVal with
  | false => exact phase_output_still hd hh' hhdrs hchk hs ht hr ho hgo
  | true => exact phase_output_line hd hh' hhdrs hchk hs ht hr ho hgo

theorem phase_outputLast {m : Nat} {ps : List IpPacket} {h : List HdrOut}
    (hd : s.fmt.dataState = .dataOutputLast) (hh : HdrOwes s.fmt h) (hc : s.chk = .reset)
    (hs : s.src = linesOf ps) (hm : m ≤ 128) (hr : Realigning s.fmt m)
    (ho : Owes pkts s h (beats 64 (pending s.fmt [])) ps) : Phase pkts (s.cycle e) := by
  have hchk : (s.cycle e).chk = .reset := chk_reset hc (by simp [outputs, dataComb, hd, quiet])
  obtain ⟨h', hh', hhdrs⟩ := hdr_step (e := e) hh (by simp [hd]) (by
    simp only [dataComb, hd]
    split_ifs <;> rfl)
  have hsrc : (s.cycle e).src = linesOf ps := by simp [cycle, outputs, dataComb, hd, quiet, hs]
  have hhdrs' : (s.cycle e).hdrs ++ (h' ++ hdrsOf ps) = hdrsOf pkts := by
    rw [← List.append_assoc, hhdrs, List.append_assoc]
    exact ho.hdrs
  cases hrdy : e.dataRdy with
  | false =>
    have hfmt : (s.cycle e).fmt = { s.fmt with hdrState := s.fmt.hdrNext (s.inputs e) } := by
      simp [cycle, next, dataComb, hd, inputs, hrdy]
    refine .outputLast m ps h' ?_ hh' hchk hsrc hm ?_ ⟨hhdrs', ?_, ho.exactLens⟩
    · rw [hfmt]
      exact hd
    · rw [hfmt]
      obtain ⟨h1, h2, h3, h4⟩ := hr
      exact ⟨h1, h2, h3, h4⟩
    · have hp : pending (s.cycle e).fmt [] = pending s.fmt [] := by
        rw [hfmt]
        rfl
      have hdata : (s.cycle e).data = s.data := by simp [cycle, outputs, dataComb, hd, hrdy]
      rw [hp, hdata]
      exact ho.data
  | true =>
    have hdata : (s.cycle e).data = s.data ++ [readBeat s.fmt.realignedData
        (decide (s.fmt.payloadBytesLeft.toNat ≤ 64)) s.fmt.padbytes] := by
      simp [cycle, outputs, dataComb, hd, hrdy]
    have hleft := hr.left
    by_cases hlong : 64 < s.fmt.payloadBytesLeft.toNat
    · -- once around again
      have hsub : (s.fmt.payloadBytesLeft - 64).toNat = s.fmt.payloadBytesLeft.toNat - 64 :=
        BitVec.toNat_sub_of_le (Nat.le_of_lt hlong)
      have hfmt : (s.cycle e).fmt = { s.fmt with
          hdrState := s.fmt.hdrNext (s.inputs e)
          payloadBytesLeft := s.fmt.payloadBytesLeft - 64
          realignUpper := s.fmt.realignLower
          realignLower := 0 } := by
        simp [cycle, next, dataComb, hd, inputs, hrdy, hlong]
      have hp : pending (s.cycle e).fmt [] = (pending s.fmt []).drop 64 := by
        have hshift := hr.shift
        have hnil : flatBytes [] = [] := rfl
        rw [hfmt, drop_pending, pending, hsub, hnil, List.append_nil, List.append_nil,
          List.drop_append_of_le_length, List.take_append_of_le_length]
        · simp only [List.length_drop, length_lineBytes]
          omega
        · simp only [length_lineBytes]
          omega
      refine .outputLast (m - 64) ps h' ?_ hh' hchk hsrc (by omega) ?_ ⟨hhdrs', ?_, ho.exactLens⟩
      · rw [hfmt]
        exact hd
      · rw [hfmt]
        obtain ⟨h1, h2, h3, h4⟩ := hr
        refine ⟨h1, ?_, ?_, ?_⟩ <;> simp only [hsub] <;> omega
      · rw [hdata, hp, decide_eq_false (by omega), List.append_assoc, ← List.append_assoc [_],
          List.singleton_append, ← hr.beats_full (by simpa using hm) hlong]
        exact ho.data
    · refine .waitFin ps h' ?_ hh' hchk hsrc ⟨hhdrs', ?_, ho.exactLens⟩
      · simp [cycle, next, dataComb, hd, inputs, hrdy, hlong]
      · rw [hdata, decide_eq_true (by omega), List.append_assoc, ← List.append_assoc [_],
          List.append_nil, ← hr.beats_last (t := []) (by simpa using hm) (by omega)]
        exact ho.data

theorem phase_waitFin {ps : List IpPacket} {h : List HdrOut}
    (hd : s.fmt.dataState = .dataWaitTxFin) (hh : HdrOwes s.fmt h) (hc : s.chk = .reset)
    (hs : s.src = linesOf ps) (ho : Owes pkts s h [] ps) : Phase pkts (s.cycle e) := by
  have hchk : (s.cycle e).chk = .reset := chk_reset hc (by simp [outputs, dataComb, hd, quiet])
  have hsrc : (s.cycle e).src = linesOf ps := by simp [cycle, outputs, dataComb, hd, quiet, hs]
  have hdata : (s.cycle e).data = s.data := by simp [cycle, outputs, dataComb, hd, quiet]
  rcases hh with ⟨hst, rfl⟩ | ⟨hst, rfl⟩
  · have hstay : (s.cycle e).fmt = { s.fmt with hdrState := s.fmt.hdrNext (s.inputs e) } := by
      simp [cycle, next, dataComb, hd, hst]
    have hd' : (s.cycle e).fmt.dataState = .dataWaitTxFin := by
      rw [hstay]
      exact hd
    cases hrdy : e.hdrRdy with
    | false =>
      refine .waitFin ps _ hd' (.inl ⟨?_, rfl⟩) hchk hsrc (ho.of_eq ?_ hdata)
      · simp [cycle, next, hdrNext, hst, inputs, hrdy]
      · rw [hstay]
        simp [cycle, hrdy]
    | true =>
      refine .waitFin ps [] hd' (.inr ⟨?_, rfl⟩) hchk hsrc (ho.of_eq ?_ hdata)
      · simp [cycle, next, hdrNext, hst, inputs, hrdy]
      · simp [cycle, hrdy, hdrOut, hst]
  · refine .ready ps ?_ ?_ hchk hsrc (ho.of_eq ?_ hdata)
    · simp [cycle, next, dataComb, hd, hst]
    · simp [cycle, next, hdrNext, hst, hd]
    · cases hrdy : e.hdrRdy <;> simp [cycle, hrdy, hdrOut, hst]

/-- A cycle that takes neither branch keeps the invariant. -/
theorem inv_cycle (h : Inv pkts s) (hok : Sound s e) : Inv pkts (s.cycle e) := by
  obtain ⟨hw, hp⟩ := h
  cases hp with
  | ready ps hd hh hc hs ho =>
    exact ⟨(wrap_of_nil (by simp [hc, ChksumCalc.reset])).trans hw, phase_ready hd hh hc hs ho⟩
  | chksumLast p ps hd hh hl hc hs ho =>
    exact ⟨(wrap_of_nil (by simp [hc])).trans hw, phase_chksumLast hd hh hl hc hs ho⟩
  | chksumWait p ps hd hh hl hc hs ho =>
    cases hr : e.respond with
    | false =>
      obtain ⟨hph, hwr⟩ := phase_chksumWait_none hw hd hh hl hc hs ho hr
      exact ⟨hwr, hph⟩
    | true =>
      obtain ⟨hph, hwr⟩ := phase_chksumWait_some hw hd hh hl hc hs ho hok hr
      exact ⟨hwr, hph⟩
  | output t k ps h hd hh hc hs ht hr ho =>
    exact ⟨(wrap_of_nil (by simp [hc, ChksumCalc.reset])).trans hw,
      phase_output hd hh hc hs ht hr ho⟩
  | outputLast m ps h hd hh hc hs hm hr ho =>
    exact ⟨(wrap_of_nil (by simp [hc, ChksumCalc.reset])).trans hw,
      phase_outputLast hd hh hc hs hm hr ho⟩
  | waitFin ps h hd hh hc hs ho =>
    exact ⟨(wrap_of_nil (by simp [hc, ChksumCalc.reset])).trans hw, phase_waitFin hd hh hc hs ho⟩

/-! ### Progress -/

/-- What the formatter waits for in its checksum unit. -/
inductive ChksumEvent where
  | request | respond
  deriving DecidableEq

/-- The checksum unit takes a line, or presents the response it holds. -/
def Given (e : FormatEnv) : ChksumEvent → Prop
  | .request => e.reqRdy = true
  | .respond => e.respond = true

/-- The outputs are ready and the next line is offered. -/
def Open (e : FormatEnv) : Prop := e.offer = true ∧ e.hdrRdy = true ∧ e.dataRdy = true

/-- Every line is accepted and everything is delivered. -/
def Delivered (pkts : List IpPacket) (s : FormatSystem) : Prop :=
  s.src = [] ∧ s.hdrs = hdrsOf pkts ∧ s.data = dataOf pkts

/-- Cycles a state of the formatter still takes for its packet, waiting for the unit apart. -/
def stage (r : IpStreamFormat) : Nat :=
  match r.dataState with
  | .chksumLast => 7
  | .chksumWaitFirstData => 6
  | .dataOutput => 5
  | .dataOutputLast => if 64 < r.payloadBytesLeft.toNat then 4 else 3
  | .dataWaitTxFin => if r.hdrState = .hdrOutput then 2 else 1
  | _ => 0

def work (s : FormatSystem) : Nat := 8 * s.src.length + stage s.fmt

def awaits (s : FormatSystem) : ChksumEvent :=
  if s.fmt.dataState = .chksumLast then .request else .respond

theorem stage_le {r : IpStreamFormat} (h1 : r.dataState ≠ .chksumLast)
    (h2 : r.dataState ≠ .chksumWaitFirstData) : stage r ≤ 5 := by
  unfold stage
  split <;> first | contradiction | split_ifs <;> omega | omega

theorem srcVal_of_open (he : Open e) (h : s.src ≠ []) : (s.inputs e).srcVal = true := by
  simp [inputs, he.1, h]

theorem length_src_le : (s.cycle e).src.length ≤ s.src.length := by
  simp only [cycle]
  split_ifs
  · simp
  · exact Nat.le_refl _

/-! A cycle with the outputs ready and the next line offered gets on, or waits for the unit. -/

theorem work_ready {ps : List IpPacket} (hd : s.fmt.dataState = .ready) (hc : s.chk = .reset)
    (hs : s.src = linesOf ps) (ho : Owes pkts s [] [] ps) (he : Open e)
    (hg : ¬ Delivered pkts s) : work (s.cycle e) < work s := by
  have hne : s.src ≠ [] := by
    intro hnil
    cases ps with
    | nil => exact hg ⟨hnil, by simpa using ho.hdrs, by simpa using ho.data⟩
    | cons p ps => simp [hs] at hnil
  have hv := srcVal_of_open he hne
  have hrdy : (s.inputs e).cmdRdy = true := by
    simp [inputs, hc, ChksumCalc.cmdRdy, ChksumCalc.reset]
  have hsrc : (s.cycle e).src.length = s.src.length - 1 := by
    simp [cycle, outputs, dataComb, hd, hv, hrdy]
  have hpos := List.length_pos_of_ne_nil hne
  have hst : stage (s.cycle e).fmt ≤ 7 := by
    simp only [cycle, next, dataComb, hd, hv, hrdy, Bool.and_true, if_true, stage]
    split_ifs <;> simp
  simp only [work, hsrc]
  omega

/-- The formatter waits for the unit to take its request. -/
theorem work_chksumLast (hd : s.fmt.dataState = .chksumLast) (hc : s.chk = ⟨true, [], []⟩) :
    work (s.cycle e) < work s ∨
      work (s.cycle e) ≤ work s ∧ awaits (s.cycle e) = awaits s ∧ ¬ Given e (awaits s) := by
  have hsrc : (s.cycle e).src = s.src := by simp [cycle, outputs, dataComb, hd, quiet]
  cases hr : e.reqRdy with
  | false =>
    right
    have hd' : (s.cycle e).fmt.dataState = .chksumLast := by
      simp [cycle, next, dataComb, hd, inputs, hr]
    exact ⟨by simp [work, hsrc, stage, hd, hd'], by simp [awaits, hd, hd'],
      by simp [awaits, hd, Given, hr]⟩
  | true =>
    left
    have hd' : (s.cycle e).fmt.dataState = .chksumWaitFirstData := by
      simp [cycle, next, dataComb, hd, inputs, hr, hc]
    simp [work, hsrc, stage, hd, hd']

/-- The formatter waits for the unit to respond. -/
theorem work_chksumWait {p : IpPacket} (hw : s.wrap = .wait) (hok : Sound s e)
    (hd : s.fmt.dataState = .chksumWaitFirstData)
    (hc : s.chk = ⟨false, [], [⟨p.hdrChksum, true⟩]⟩) :
    work (s.cycle e) < work s ∨
      work (s.cycle e) ≤ work s ∧ awaits (s.cycle e) = awaits s ∧ ¬ Given e (awaits s) := by
  have hlen := length_src_le (s := s) (e := e)
  cases hr : e.respond with
  | false =>
    right
    have hwd : s.wrapData e = none := by simp [wrapData, hr]
    have hresp : (s.inputs e).resp = none := by simp [inputs, hwd, hw, ChksumWrap.resp]
    have hd' : (s.cycle e).fmt.dataState = .chksumWaitFirstData := by
      simp [cycle, next, dataComb, hd, hresp]
    have hsrc : (s.cycle e).src = s.src := by simp [cycle, outputs, dataComb, hd, hresp, quiet]
    exact ⟨by simp [work, hsrc, stage, hd, hd'], by simp [awaits, hd, hd'],
      by simp [awaits, hd, Given, hr]⟩
  | true =>
    left
    have hwd : s.wrapData e = some ⟨p.hdrChksum, true⟩ := by simp [wrapData, hr, hc]
    have hresp : (s.inputs e).resp = some p.hdrChksum := by
      simp [inputs, hwd, hw, ChksumWrap.resp]
    have hst : stage (s.cycle e).fmt ≤ 5 := by
      cases hwas : s.fmt.wasLast with
      | true =>
        refine stage_le ?_ ?_ <;>
          simp only [cycle, next, dataComb, hd, hresp, hwas, if_true] <;> split_ifs <;> simp
      | false =>
        obtain ⟨hv, -⟩ := hok hd hwas (by simp [hresp])
        refine stage_le ?_ ?_ <;>
          simp only [cycle, next, dataComb, hd, hresp, hwas, hv, if_true, Bool.false_eq_true,
            if_false] <;> split_ifs <;> simp
    have hst6 : stage s.fmt = 6 := by simp [stage, hd]
    simp only [work, hst6]
    omega

theorem work_output (hd : s.fmt.dataState = .dataOutput) (hne : s.src ≠ []) (he : Open e) :
    work (s.cycle e) < work s := by
  have hv := srcVal_of_open he hne
  have hrdy : (s.inputs e).dataRdy = true := he.2.2
  have hpos := List.length_pos_of_ne_nil hne
  have hsrc : (s.cycle e).src.length = s.src.length - 1 := by
    simp [cycle, outputs, dataComb, hd, hv, hrdy]
  have hst : stage (s.cycle e).fmt ≤ 5 := by
    refine stage_le ?_ ?_ <;>
      simp only [cycle, next, dataComb, hd, hv, hrdy, Bool.and_true, if_true] <;>
      split_ifs <;> simp
  simp only [work, hsrc]
  omega

theorem work_outputLast {m : Nat} (hd : s.fmt.dataState = .dataOutputLast) (hm : m ≤ 128)
    (hr : Realigning s.fmt m) (he : Open e) : work (s.cycle e) < work s := by
  have hlen := length_src_le (s := s) (e := e)
  have hrdy : (s.inputs e).dataRdy = true := he.2.2
  by_cases hlong : 64 < s.fmt.payloadBytesLeft.toNat
  · have hsub : (s.fmt.payloadBytesLeft - 64).toNat = s.fmt.payloadBytesLeft.toNat - 64 :=
      BitVec.toNat_sub_of_le (Nat.le_of_lt hlong)
    have hleft := hr.left
    have hshort : ¬ 64 < (s.fmt.payloadBytesLeft - 64).toNat := by omega
    have hst : stage (s.cycle e).fmt = 3 := by
      simp only [stage, cycle, next, dataComb, hd, hrdy, if_true, if_pos hlong, if_neg hshort]
    have hst4 : stage s.fmt = 4 := by simp [stage, hd, hlong]
    simp only [work, hst, hst4]
    omega
  · have hst : stage (s.cycle e).fmt ≤ 2 := by
      simp only [stage, cycle, next, dataComb, hd, hrdy, if_true, if_neg hlong]
      split_ifs <;> omega
    have hst3 : stage s.fmt = 3 := by simp [stage, hd, hlong]
    simp only [work, hst3]
    omega

theorem work_waitFin {h : List HdrOut} (hd : s.fmt.dataState = .dataWaitTxFin)
    (hh : HdrOwes s.fmt h) (he : Open e) : work (s.cycle e) < work s := by
  have hlen := length_src_le (s := s) (e := e)
  have hrdy : (s.inputs e).hdrRdy = true := he.2.1
  rcases hh with ⟨hst, -⟩ | ⟨hst, -⟩
  · have hst1 : stage (s.cycle e).fmt = 1 := by
      simp [stage, cycle, next, dataComb, hdrNext, hd, hst, hrdy]
    have hst2 : stage s.fmt = 2 := by simp [stage, hd, hst]
    simp only [work, hst1, hst2]
    omega
  · have hst0 : stage (s.cycle e).fmt = 0 := by simp [stage, cycle, next, dataComb, hd, hst]
    have hst1 : stage s.fmt = 1 := by simp [stage, hd, hst]
    simp only [work, hst0, hst1]
    omega

theorem work_cycle (h : Inv pkts s) (hok : Sound s e) (he : Open e) (hg : ¬ Delivered pkts s) :
    work (s.cycle e) < work s ∨
      work (s.cycle e) ≤ work s ∧ awaits (s.cycle e) = awaits s ∧ ¬ Given e (awaits s) := by
  obtain ⟨hw, hp⟩ := h
  cases hp with
  | ready ps hd hh hc hs ho => exact .inl (work_ready hd hc hs ho he hg)
  | chksumLast p ps hd hh hl hc hs ho => exact work_chksumLast hd hc
  | chksumWait p ps hd hh hl hc hs ho => exact work_chksumWait hw hok hd hc
  | output t k ps h hd hh hc hs ht hr ho => exact .inl (work_output hd (by simp [hs, ht.ne_nil]) he)
  | outputLast m ps h hd hh hc hs hm hr ho => exact .inl (work_outputLast hd hm hr he)
  | waitFin ps h hd hh hc hs ho => exact .inl (work_waitFin hd hh he)

/-! ### Whole runs -/

/-- All runs from reset that take neither branch. -/
theorem inv_of_reach (hx : ∀ p ∈ pkts, p.Exact) (h : Reach (Init pkts) step Sound s) :
    Inv pkts s := by
  refine h.invariant (fun _ => inv_init hx) ?_
  intro s e s' hinv hok hstep
  cases hstep
  exact inv_cycle hinv hok

theorem Inv.prefixes (h : Inv pkts s) : s.hdrs <+: hdrsOf pkts ∧ s.data <+: dataOf pkts := by
  have howes : ∀ {h d ps}, Owes pkts s h d ps → s.hdrs <+: hdrsOf pkts ∧ s.data <+: dataOf pkts :=
    fun ho => ⟨⟨_, ho.hdrs⟩, ⟨_, ho.data⟩⟩
  cases h.phase <;> exact howes ‹_›

/-- Once the outputs are ready, the next line is offered and the checksum unit answers, all lines
are accepted and everything owed is delivered. -/
theorem Inv.delivers (h : Inv pkts s) {sched : Nat → FormatEnv}
    (hok : ∀ n, Sound (exec cycle s sched n) (sched n)) (ho : ∀ n, Open (sched n))
    (hf : Fair Given sched) : ∃ n, Delivered pkts (exec cycle s sched n) := by
  have hkeep : ∀ s e, Inv pkts s → (Sound s e ∧ Open e) → Inv pkts (s.cycle e) :=
    fun _ _ hinv ha => inv_cycle hinv ha.1
  exact exec_reaches work awaits hkeep (fun _ _ hinv ha hg => work_cycle hinv ha.1 ha.2 hg) h
    (fun n => ⟨hok n, ho n⟩) hf

end FormatSystem

end TcpHw
