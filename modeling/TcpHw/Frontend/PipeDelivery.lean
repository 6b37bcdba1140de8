import TcpHw.Frontend.IpStreamFormatPipe

/-!
# What `ip_stream_format_pipe` delivers

The two halves work on different packets. The lines in the FIFO belong to the packet the output
half is passing on, then to packets whose header is with the checksum unit, and the last of them
may still miss lines. Each half is followed on its own, against the lines and packets it moves,
and one cycle of the pipeline composes the two. No assumption is made on the schedule.
-/
namespace TcpHw

open Bytes Framing Trace

set_option autoImplicit false

namespace PipeSystem

/-! ### The input half -/

/-- The response the checksum unit has for a packet. -/
def resp (p : IpPacket) : ChksumResp := ⟨p.hdrChksum, true⟩

/-- The lines that are still to come of the packet being written. -/
def Missing (d : FormatPipeIn.DataState) (rem : List RxLine) : Prop :=
  d = .waiting ∧ rem = [] ∨ d = .dataOut ∧ ∃ k, Framed rem k

/-- The packets `begun` are in the FIFO and not yet handed to the output half, and the lines `rem`
are still to come of the last packet written. -/
inductive InPhase (r : FormatPipeIn) (c : ChksumCalc) (begun : List IpPacket)
    (rem : List RxLine) : Prop
  | ready (hs : r.chksumState = .ready) (hd : r.dataState = .waiting) (hr : rem = [])
      (hc : c = ⟨false, [], begun.map resp⟩)
  | hdrFirst (b : List IpPacket) (p : IpPacket) (hb : begun = b ++ [p])
      (hs : r.chksumState = .ipHdrFirst) (hm : Missing r.dataState rem)
      (hdata : r.chksumData = p.head.data) (hhdr : r.ipHdr = p.hdr)
      (hc : c = ⟨true, [], b.map resp⟩)
  | waitData (hs : r.chksumState = .waitData) (hd : r.dataState = .dataOut)
      (hf : ∃ k, Framed rem k) (hc : c = ⟨false, [], begun.map resp⟩)

section input

variable {r : FormatPipeIn} {c : ChksumCalc} {begun rest : List IpPacket} {rem src : List RxLine}
  {i : PipeInWires}

/-- The header never needs a second line. -/
theorem pipeIn_hdr_fits (r : FormatPipeIn) : ¬ 64 < r.ipHdrLen.toNat := by
  have hle := r.ipHdr.toNat_hdrBytes_le
  simp only [FormatPipeIn.ipHdrLen]
  omega

theorem reqRdy_of_idle (hreq : i.reqRdy = true → c.transferIn = true)
    (hc : c.transferIn = false) : i.reqRdy = false := by
  cases hq : i.reqRdy with
  | false => rfl
  | true => exact absurd (hreq hq) (by simp [hc])

/-- Nothing is written to a full FIFO. -/
theorem fifoWr_room (h : (r.fifoWr i).isSome = true) : i.fifoFull = false := by
  have hacc : r.accept i = true := by
    simp only [FormatPipeIn.fifoWr] at h
    split at h
    · split_ifs at h with ha
      · exact (Bool.and_eq_true_iff.mp ha).2
      · cases h
    · split_ifs at h with ha
      · exact ha
      · cases h
  have hrdy := (Bool.and_eq_true_iff.mp hacc).2
  cases hf : i.fifoFull with
  | false => rfl
  | true =>
    simp only [FormatPipeIn.srcRdy, hf] at hrdy
    split at hrdy <;> simp at hrdy

/-- After the first line of a packet, its other lines are written as they come. -/
theorem missing_step (hm : Missing r.dataState rem)
    (hrdy : r.srcRdy i = true → r.dataState = .dataOut) (hsrc : src = rem ++ linesOf rest)
    (hi : i.srcVal = true → ∃ t, src = i.src :: t) :
    ∃ rem', (r.fifoWr i).toList ++ rem' = rem ∧ Missing (r.dataNext i) rem' ∧
      (if r.accept i then src.tail else src) = rem' ++ linesOf rest := by
  cases hacc : r.accept i with
  | false =>
    have hwr : r.fifoWr i = none := by
      simp only [FormatPipeIn.fifoWr, FormatPipeIn.dataOut, hacc]
      split <;> simp
    refine ⟨rem, by simp [hwr], ?_, by simpa using hsrc⟩
    simpa [FormatPipeIn.dataNext, hwr] using hm
  | true =>
    obtain ⟨hv, hr⟩ := Bool.and_eq_true_iff.mp hacc
    have hd := hrdy hr
    rcases hm with ⟨hw, -⟩ | ⟨-, k, hk⟩
    · rw [hw] at hd
      cases hd
    · obtain ⟨l, t, rfl⟩ := List.exists_cons_of_ne_nil hk.ne_nil
      obtain ⟨t', ht'⟩ := hi hv
      rw [hsrc, List.cons_append, List.cons.injEq] at ht'
      obtain ⟨hl, -⟩ := ht'
      have hwr : r.fifoWr i = some l := by simp [FormatPipeIn.fifoWr, hd, hacc, hl]
      refine ⟨t, by simp [hwr], ?_, by simp [hsrc]⟩
      cases hll : l.last with
      | true => exact .inl ⟨by simp [FormatPipeIn.dataNext, hwr, hll], (hk.of_last hll).1⟩
      | false =>
        exact .inr ⟨by simp [FormatPipeIn.dataNext, hwr, hll], _, (hk.of_not_last hll).2⟩

/-- The unit answers with the checksum of the header. -/
theorem hdr_response {b : List IpPacket} {p : IpPacket} (hs : r.chksumState = .ipHdrFirst)
    (hdata : r.chksumData = p.head.data) (hhdr : r.ipHdr = p.hdr)
    (hc : c = ⟨true, [], b.map resp⟩) :
    c.step false r.req false = ⟨false, [], (b ++ [p]).map resp⟩ := by
  have hfit := pipeIn_hdr_fits r
  have hshift : r.keepShift.toNat = 64 - p.hlen := by
    have hle := p.hlen_le
    have hn : r.ipHdrLen.toNat = p.hlen := by simp [FormatPipeIn.ipHdrLen, hhdr, IpPacket.hlen]
    simp only [FormatPipeIn.keepShift, BitVec.toNat_sub, BitVec.toNat_setWidth,
      BitVec.extractLsb'_toNat, Nat.shiftRight_zero, hn]
    simp
    omega
  have hk : keptBytes r.chksumData (BitVec.allOnes 64 <<< r.keepShift.toNat) =
      (lineBytes p.head.data).take p.hlen := by
    rw [hdata, hshift]
    exact keptBytes_allOnes _ (Nat.le_trans p.hlen_le (by decide))
  simp only [FormatPipeIn.req, hs, if_true, if_neg hfit, hc, ChksumCalc.step, ChksumCalc.responses,
    ChksumCalc.echo, List.nil_append, List.flatMap_cons, List.flatMap_nil, List.append_nil, hk,
    List.map_append, List.map_cons, List.map_nil]
  rfl

/-- One cycle of the input half: it may begin a packet, which is `new`. -/
theorem in_step (h : InPhase r c begun rem) (hsrc : src = rem ++ linesOf rest)
    (hi : i.srcVal = true → ∃ t, src = i.src :: t)
    (hreq : i.reqRdy = true → c.transferIn = true) :
    ∃ new rest' rem', rest = new ++ rest' ∧ (r.fifoWr i).toList ++ rem' = rem ++ linesOf new ∧
      (if r.accept i then src.tail else src) = rem' ++ linesOf rest' ∧
      (new = [] ∨ ∃ p, new = [p] ∧ rem' = p.tail) ∧ InPhase (r.next i)
        (c.step (r.dataOut i) (if i.reqRdy then r.req else none) false) (begun ++ new) rem' := by
  cases h with
  | ready hs hd hr hc =>
    subst hr
    have hnoreq := reqRdy_of_idle hreq (by rw [hc])
    cases hacc : r.accept i with
    | false =>
      have hwr : r.fifoWr i = none := by simp [FormatPipeIn.fifoWr, FormatPipeIn.dataOut, hacc, hd]
      refine ⟨[], rest, [], rfl, by simp [hwr], by simpa using hsrc, .inl rfl, .ready ?_ ?_ rfl ?_⟩
      · simp [FormatPipeIn.next, FormatPipeIn.chksumNext, hs, hacc]
      · simp [FormatPipeIn.next, FormatPipeIn.dataNext, hwr, hd]
      · simp [hnoreq, FormatPipeIn.dataOut, hacc, hc, ChksumCalc.step]
    | true =>
      have hv := (Bool.and_eq_true_iff.mp hacc).1
      obtain ⟨t, ht⟩ := hi hv
      cases rest with
      | nil => simp [hsrc] at ht
      | cons p rest =>
        have hp : i.src = p.head := by
          rw [hsrc, List.nil_append, linesOf_cons, List.cons.injEq] at ht
          exact ht.1.symm
        have hwr : r.fifoWr i = some p.head := by
          simp [FormatPipeIn.fifoWr, FormatPipeIn.dataOut, hacc, hd, hs, hp]
        refine ⟨[p], rest, p.tail, rfl, by simp [hwr, linesOf, IpPacket.lines], by simp [hsrc],
          .inr ⟨p, rfl, rfl⟩, .hdrFirst begun p rfl ?_ ?_ ?_ ?_ ?_⟩
        · simp [FormatPipeIn.next, FormatPipeIn.chksumNext, hs, hacc]
        · cases hl : p.head.last with
          | true =>
            exact .inl ⟨by simp [FormatPipeIn.next, FormatPipeIn.dataNext, hwr, hl],
              (p.framed.of_last hl).1⟩
          | false =>
            exact .inr ⟨by simp [FormatPipeIn.next, FormatPipeIn.dataNext, hwr, hl], _,
              (p.framed.of_not_last hl).2⟩
        · simp [FormatPipeIn.next, FormatPipeIn.storeDataLine, hs, hp]
        · simp [FormatPipeIn.next, hs, hp, IpPacket.hdr]
        · simp [hnoreq, FormatPipeIn.dataOut, hs, hacc, hc, ChksumCalc.step]
  | hdrFirst b p hb hs hm hdata hhdr hc =>
    have hfit := pipeIn_hdr_fits r
    have hrdy : r.srcRdy i = true → r.dataState = .dataOut := by
      intro h
      simp only [FormatPipeIn.srcRdy, hs, if_neg hfit, Bool.and_eq_true, decide_eq_true_eq] at h
      exact h.2.2
    have hout : r.dataOut i = false := by simp [FormatPipeIn.dataOut, hs]
    obtain ⟨rem', hlines, hm', hsrc'⟩ := missing_step hm hrdy hsrc hi
    have hkeep : (r.next i).chksumData = r.chksumData ∧ (r.next i).ipHdr = r.ipHdr := by
      simp [FormatPipeIn.next, FormatPipeIn.storeDataLine, hs, hfit]
    refine ⟨[], rest, rem', rfl, by simpa using hlines, hsrc', .inl rfl, ?_⟩
    rw [List.append_nil]
    cases hq : i.reqRdy with
    | false =>
      refine .hdrFirst b p hb ?_ hm' (hkeep.1.trans hdata) (hkeep.2.trans hhdr) ?_
      · simp [FormatPipeIn.next, FormatPipeIn.chksumNext, hs, hfit, hq]
      · simp [hout, hc, ChksumCalc.step]
    | true =>
      have hc' : c.step (r.dataOut i) (if true = true then r.req else none) false =
          ⟨false, [], begun.map resp⟩ := by
        rw [if_pos rfl, hout, hb]
        exact hdr_response hs hdata hhdr hc
      rw [hc']
      rcases hm' with ⟨hw, hnil⟩ | ⟨hd, hf⟩
      · refine .ready ?_ hw hnil rfl
        simp [FormatPipeIn.next, FormatPipeIn.chksumNext, hs, hfit, hq, hw]
      · refine .waitData ?_ hd hf rfl
        simp [FormatPipeIn.next, FormatPipeIn.chksumNext, hs, hfit, hq, hd]
  | waitData hs hd hf hc =>
    have hnoreq := reqRdy_of_idle hreq (by rw [hc])
    have hout : r.dataOut i = false := by simp [FormatPipeIn.dataOut, hs]
    obtain ⟨rem', hlines, hm', hsrc'⟩ := missing_step (.inr ⟨hd, hf⟩) (fun _ => hd) hsrc hi
    refine ⟨[], rest, rem', rfl, by simpa using hlines, hsrc', .inl rfl, ?_⟩
    have hc' : c.step (r.dataOut i) (if i.reqRdy then r.req else none) false = c := by
      simp [hnoreq, hout, hc, ChksumCalc.step]
    rw [List.append_nil, hc']
    rcases hm' with ⟨hw, hnil⟩ | ⟨hd', hf'⟩
    · refine .ready ?_ hw hnil hc
      simp [FormatPipeIn.next, FormatPipeIn.chksumNext, hs, hw]
    · refine .waitData ?_ hd' hf' hc
      simp [FormatPipeIn.next, FormatPipeIn.chksumNext, hs, hd']

/-- The output half takes the response of the first packet. -/
theorem InPhase.take {p : IpPacket} (h : InPhase r c (p :: begun) rem) (hne : c.out ≠ []) :
    c.out = resp p :: c.out.tail ∧ InPhase r { c with out := c.out.tail } begun rem := by
  cases h with
  | ready hs hd hr hc => exact ⟨by simp [hc], .ready hs hd hr (by simp [hc])⟩
  | hdrFirst b q hb hs hm hdata hhdr hc =>
    cases b with
    | nil => simp [hc] at hne
    | cons p' b =>
      rw [List.cons_append, List.cons.injEq] at hb
      obtain ⟨rfl, rfl⟩ := hb
      exact ⟨by simp [hc], .hdrFirst b q rfl hs hm hdata hhdr (by simp [hc])⟩
  | waitData hs hd hf hc => exact ⟨by simp [hc], .waitData hs hd hf (by simp [hc])⟩

end input

/-! ### The output half -/

/-- What the header machine owes. -/
def MetaOwes (r : FormatPipeOut) (h : List HdrOut) : Prop :=
  r.metaState = .metaOut ∧ h = [⟨r.pktHdr, r.timestamp⟩] ∨ r.metaState = .waiting ∧ h = []

/-- The realigner is between two packets. -/
def Between (a : RealignRuntime) : Prop := a.buf = [] ∧ a.fresh = true

/-- The output half has the lines `cur` of its packet before it and owes `h` and `d` for it, the
lines already settled in the realigner apart. -/
inductive OutPhase (r : FormatPipeOut) (a : RealignRuntime) (cur : List RxLine) (h : List HdrOut)
    (d : List (Beat (BitVec 8))) : Prop
  | ready (hs : r.dataState = .ready) (hm : r.metaState = .waiting) (hc : cur = [])
      (ha : Between a) (hh : h = []) (hd : d = [])
  | pass (k : Nat) (hs : r.dataState = .passData) (hm : MetaOwes r h) (hf : Framed cur k)
      (hd : d = beats 64 (a.buf ++
        ((flatBytes cur).take k).drop (if a.fresh then r.realignShift.toNat else 0)))
  | drain (k : Nat) (hs : r.dataState = .dataDrain) (hm : r.metaState = .waiting)
      (hf : Framed cur k) (ha : Between a) (hh : h = []) (hd : d = [])
  | waitMeta (hs : r.dataState = .waitMeta) (hm : r.metaState = .metaOut)
      (hh : h = [⟨r.pktHdr, r.timestamp⟩]) (hc : cur = []) (ha : Between a) (hd : d = [])

section output

variable {r : FormatPipeOut} {a : RealignRuntime} {cur l : List RxLine} {h : List HdrOut}
  {d : List (Beat (BitVec 8))} {o : PipeOutWires} {x : RxLine} {t : List RxLine} {k : Nat}

/-- The realigner settles some of the lines that are owed. -/
theorem accept_owes (hf : Framed (x :: t) k) (shift : BitVec 6) :
    ∃ add d', (a.accept shift x).out = a.out ++ add ∧
      add ++ d' = beats 64 (a.buf ++
        ((flatBytes (x :: t)).take k).drop (if a.fresh then shift.toNat else 0)) ∧
      (x.last = true ∧ t = [] ∧ d' = [] ∧ Between (a.accept shift x) ∨
        x.last = false ∧ Framed t (k - 64) ∧
          d' = beats 64 ((a.accept shift x).buf ++ ((flatBytes t).take (k - 64)).drop
            (if (a.accept shift x).fresh then shift.toNat else 0))) := by
  have hlen : (lineBytes x.data).length = 64 := length_lineBytes _
  cases hl : x.last with
  | true =>
    obtain ⟨rfl, hk, hpad⟩ := hf.of_last hl
    have hkeep : 64 - (64 - k) = k := by omega
    refine ⟨_, [], ?_, List.append_nil _, .inl ⟨rfl, rfl, rfl, ?_⟩⟩
    · simp [RealignRuntime.accept, RealignRuntime.valid, hl, hpad, hkeep, flatBytes]
    · simp [Between, RealignRuntime.accept, hl]
  | false =>
    obtain ⟨hk, hf'⟩ := hf.of_not_last hl
    have hmore : (flatBytes t).take (k - 64) ≠ [] := by
      have hb := hf'.bounds.1
      refine List.ne_nil_of_length_pos ?_
      rw [List.length_take, length_flatBytes]
      omega
    have hsplit : ((flatBytes (x :: t)).take k).drop (if a.fresh then shift.toNat else 0) =
        (lineBytes x.data).drop (if a.fresh then shift.toNat else 0) ++
          (flatBytes t).take (k - 64) := by
      have hs := shift.isLt
      rw [flatBytes_cons, List.take_append, List.take_of_length_le (by omega), hlen,
        List.drop_append_of_le_length]
      rw [hlen]
      split_ifs <;> omega
    refine ⟨whole 64 (a.buf ++ (lineBytes x.data).drop (if a.fresh then shift.toNat else 0)), _,
      ?_, ?_, .inr ⟨rfl, hf', rfl⟩⟩
    · simp [RealignRuntime.accept, RealignRuntime.valid, hl]
    · rw [hsplit, ← List.append_assoc, beats_append (by decide) hmore]
      simp [RealignRuntime.accept, RealignRuntime.valid, hl]

/-- What the header port takes in this cycle. -/
def hdrTaken (r : FormatPipeOut) (o : PipeOutWires) : List HdrOut :=
  if o.hdrRdy then (r.hdrOut o).toList else []

/-- The header machine after the first cycle of a packet. -/
theorem meta_step (hm : MetaOwes r h) (hs : r.dataState ≠ .ready) :
    ∃ h', hdrTaken r o ++ h' = h ∧
      ((r.next o).metaState = .metaOut ∧ h' = [⟨(r.next o).pktHdr, (r.next o).timestamp⟩] ∨
        (r.next o).metaState = .waiting ∧ h' = []) := by
  rcases hm with ⟨hm, rfl⟩ | ⟨hm, rfl⟩
  · cases hr : o.hdrRdy with
    | true =>
      refine ⟨[], ?_, .inr ⟨?_, rfl⟩⟩
      · simp [hdrTaken, hr, FormatPipeOut.hdrOut, FormatPipeOut.hdrVal, hm,
          FormatPipeOut.pktHdrNext, FormatPipeOut.timestampNext, hs]
      · simp [FormatPipeOut.next, FormatPipeOut.metaNext, hr]
    | false =>
      refine ⟨_, ?_, .inl ⟨?_, rfl⟩⟩
      · simp [hdrTaken, hr, FormatPipeOut.next, FormatPipeOut.pktHdrNext,
          FormatPipeOut.timestampNext, hs]
      · simp [FormatPipeOut.next, FormatPipeOut.metaNext, FormatPipeOut.hdrVal, hm, hr]
  · have hv : r.hdrVal o = false := by
      simp [FormatPipeOut.hdrVal, hm, FormatPipeOut.outputMeta, hs]
    refine ⟨[], ?_, .inr ⟨?_, rfl⟩⟩
    · simp [hdrTaken, FormatPipeOut.hdrOut, hv]
    · simp [FormatPipeOut.next, FormatPipeOut.metaNext, hv]

/-- What the data port takes in this cycle. -/
def sentNow (a : RealignRuntime) (sent : Bool) : List (Beat (BitVec 8)) :=
  if sent then a.out.head?.toList else []

/-- The line the realigner accepts in this cycle. -/
def passed (r : FormatPipeOut) (o : PipeOutWires) : Option (BitVec 6 × RxLine) :=
  if r.realignVal o && o.realignRdy then some (r.realignShift, o.fifoData) else none

/-- Sending moves the first settled line to the deliveries. -/
theorem sentNow_append {sent : Bool} {left : RealignRuntime}
    (hl : left = if sent then { a with out := a.out.tail } else a) :
    sentNow a sent ++ left.out = a.out ∧ left.buf = a.buf ∧ left.fresh = a.fresh := by
  subst hl
  cases sent with
  | false => simp [sentNow]
  | true =>
    refine ⟨?_, rfl, rfl⟩
    cases h : a.out <;> simp [sentNow, h]

theorem realign_idle (b : Bool) (hp : passed r o = none) :
    sentNow a b ++ (a.step b (passed r o)).out = a.out ∧
      (a.step b (passed r o)).buf = a.buf ∧ (a.step b (passed r o)).fresh = a.fresh := by
  rw [hp]
  exact sentNow_append rfl

/-- The two ends of a packet in the output half. -/
theorem finished_phase {a' : RealignRuntime} {h' : List HdrOut} (ha : Between a')
    (hm : (r.next o).metaState = .metaOut ∧ h' = [⟨(r.next o).pktHdr, (r.next o).timestamp⟩] ∨
      (r.next o).metaState = .waiting ∧ h' = [])
    (hd : (r.next o).dataState = if r.metaNext o = .waiting then .ready else .waitMeta) :
    OutPhase (r.next o) a' [] h' [] := by
  have hnext : (r.next o).metaState = r.metaNext o := rfl
  rcases hm with ⟨hm, hh⟩ | ⟨hm, hh⟩
  · exact .waitMeta (by simp [hd, ← hnext, hm]) hm hh rfl ha rfl
  · exact .ready (by simp [hd, ← hnext, hm]) hm rfl ha hh rfl

end output

section step

variable {r : FormatPipeOut} {a : RealignRuntime} {cur l rem : List RxLine} {h : List HdrOut}
  {d : List (Beat (BitVec 8))} {o : PipeOutWires} {q : FormatPipeIn} {c : ChksumCalc}
  {begun : List IpPacket} {sent : Bool}

theorem exists_cons_of_not_empty (hE : o.fifoEmpty = true ↔ l = []) (he : o.fifoEmpty = false) :
    ∃ x t, l = x :: t := by
  cases l with
  | cons x t => exact ⟨x, t, rfl⟩
  | nil =>
    rw [hE.mpr rfl] at he
    cases he

/-- What one cycle of the output half does to the packets and lines before it. -/
structure OutMoves (r : FormatPipeOut) (o : PipeOutWires) (a : RealignRuntime) (sent : Bool)
    (c : ChksumCalc) (l rem : List RxLine) (begun : List IpPacket) (h : List HdrOut)
    (d : List (Beat (BitVec 8))) (cur' : List RxLine) (begun' : List IpPacket) (h' : List HdrOut)
    (d' : List (Beat (BitVec 8))) : Prop where
  phase : OutPhase (r.next o) (a.step sent (passed r o)) cur' h' d'
  take : r.respRdy o = true ∧ c.out ≠ [] ∧ (∃ p, begun = p :: begun') ∨
    r.respRdy o = false ∧ begun' = begun
  read : r.rdReq o = true → l ≠ []
  lines : (if r.rdReq o then l.tail else l) ++ rem = cur' ++ linesOf begun'
  hdrs : hdrTaken r o ++ (h' ++ hdrsOf begun') = h ++ hdrsOf begun
  data : sentNow a sent ++ ((a.step sent (passed r o)).out ++ (d' ++ dataOf begun')) =
    a.out ++ (d ++ dataOf begun)

/-- The output half waits. -/
theorem out_wait {h' : List HdrOut} (hL : l ++ rem = cur ++ linesOf begun)
    (hresp : r.respRdy o = false) (hread : r.rdReq o = false) (hpass : passed r o = none)
    (hh : hdrTaken r o ++ h' = h)
    (hph : OutPhase (r.next o) (a.step sent (passed r o)) cur h' d) :
    OutMoves r o a sent c l rem begun h d cur begun h' d := by
  refine ⟨hph, .inr ⟨hresp, rfl⟩, by simp [hread], by simpa [hread] using hL, ?_, ?_⟩
  · rw [← List.append_assoc, hh]
  · rw [← List.append_assoc, (realign_idle sent hpass).1]

/-- The header of a good packet goes out at once, or is held for the next cycles. -/
theorem hdr_begins {p : IpPacket} (hs : r.dataState = .ready) (hx : o.fifoData = p.head)
    (hv : r.hdrVal o = true) (hg : p.good = true) :
    ∃ h', hdrTaken r o ++ h' = p.hdrOwed ∧ MetaOwes (r.next o) h' := by
  cases hr : o.hdrRdy with
  | true =>
    refine ⟨[], ?_, .inr ⟨?_, rfl⟩⟩
    · simp [hdrTaken, hr, FormatPipeOut.hdrOut, hv, FormatPipeOut.pktHdrNext,
        FormatPipeOut.timestampNext, hs, hx, IpPacket.hdrOwed, hg, IpPacket.hdr]
    · simp [FormatPipeOut.next, FormatPipeOut.metaNext, hr]
  | false =>
    refine ⟨p.hdrOwed, ?_, .inl ⟨?_, ?_⟩⟩
    · simp [hdrTaken, hr]
    · simp [FormatPipeOut.next, FormatPipeOut.metaNext, hv, hr]
    · simp [IpPacket.hdrOwed, hg, FormatPipeOut.next, FormatPipeOut.pktHdrNext,
        FormatPipeOut.timestampNext, hs, hx, IpPacket.hdr]

/-- What is known of the packet at the head of the FIFO once its checksum is there. -/
theorem out_head (hin : InPhase q c begun rem) (hE : o.fifoEmpty = true ↔ l = [])
    (hD : ∀ x t, l = x :: t → o.fifoData = x) (hR : o.resp = none ∨ o.resp = c.out.head?)
    (hL : l ++ rem = linesOf begun) (hboth : FormatPipeOut.both o = true) :
    o.fifoEmpty = false ∧ c.out ≠ [] ∧
      ∃ p begun', begun = p :: begun' ∧ o.resp = some (resp p) ∧ o.fifoData = p.head := by
  obtain ⟨he, hr⟩ := Bool.and_eq_true_iff.mp hboth
  have he' : o.fifoEmpty = false := by simpa using he
  have hhead : o.resp = c.out.head? := by
    rcases hR with hn | hh
    · simp [hn] at hr
    · exact hh
  have hne : c.out ≠ [] := by
    intro hnil
    simp [hhead, hnil] at hr
  obtain ⟨p, begun', rfl⟩ : ∃ p begun', begun = p :: begun' := by
    cases begun with
    | cons p t => exact ⟨p, t, rfl⟩
    | nil =>
      have hl : l = [] := (List.append_eq_nil_iff.mp hL).1
      rw [hE.mpr hl] at he'
      cases he'
  refine ⟨he', hne, p, begun', rfl, ?_, ?_⟩
  · rw [hhead, (hin.take hne).1]
    rfl
  · obtain ⟨x, t, rfl⟩ := exists_cons_of_not_empty hE he'
    rw [List.cons_append, linesOf_cons, List.cons.injEq] at hL
    rw [hD x t rfl, hL.1]

/-- The checksum of the packet at the head of the FIFO decides what becomes of it. -/
theorem out_ready (hin : InPhase q c begun rem) (hE : o.fifoEmpty = true ↔ l = [])
    (hD : ∀ x t, l = x :: t → o.fifoData = x) (hR : o.resp = none ∨ o.resp = c.out.head?)
    (hL : l ++ rem = linesOf begun) (hs : r.dataState = .ready) (hm : r.metaState = .waiting)
    (ha : Between a) :
    ∃ cur' begun' h' d', OutMoves r o a sent c l rem begun [] [] cur' begun' h' d' := by
  have hread : r.rdReq o = false := by simp [FormatPipeOut.rdReq, hs]
  have hpass : passed r o = none := by simp [passed, FormatPipeOut.realignVal, hs]
  have hidle := realign_idle (a := a) sent hpass
  have ha' : Between (a.step sent (passed r o)) := ⟨hidle.2.1.trans ha.1, hidle.2.2.trans ha.2⟩
  cases hboth : FormatPipeOut.both o with
  | false =>
    have hv : r.hdrVal o = false := by
      simp [FormatPipeOut.hdrVal, hm, FormatPipeOut.outputMeta, hboth]
    refine ⟨[], begun, [], [], out_wait hL (by simp [FormatPipeOut.respRdy, hs, hboth]) hread hpass
      (by simp [hdrTaken, FormatPipeOut.hdrOut, hv]) (.ready ?_ ?_ rfl ha' rfl rfl)⟩
    · simp only [FormatPipeOut.next, FormatPipeOut.dataNext, hs]
      simp only [FormatPipeOut.both] at hboth
      cases hr : o.resp with
      | none => rfl
      | some p =>
        have he : o.fifoEmpty = true := by simpa [hr] using hboth
        simp [he]
    · simp [FormatPipeOut.next, FormatPipeOut.metaNext, hv]
  | true =>
    obtain ⟨he, hne, p, begun', rfl, hresp, hx⟩ := out_head hin hE hD hR hL hboth
    have hgood : FormatPipeOut.good o = p.good := by
      simp [FormatPipeOut.good, hresp, resp, IpPacket.good]
    have htake : r.respRdy o = true ∧ c.out ≠ [] ∧ (∃ p', p :: begun' = p' :: begun') ∨
        r.respRdy o = false ∧ begun' = p :: begun' :=
      .inl ⟨by simp [FormatPipeOut.respRdy, hs, hboth], hne, p, rfl⟩
    have hlines : (if r.rdReq o then l.tail else l) ++ rem = p.lines ++ linesOf begun' := by
      rw [hread]
      exact hL
    have hregs : (r.next o).pktHdr = p.hdr ∧ (r.next o).timestamp = p.head.timestamp := by
      simp [FormatPipeOut.next, FormatPipeOut.pktHdrNext, FormatPipeOut.timestampNext, hs, hx,
        IpPacket.hdr]
    have hv : r.hdrVal o = p.good := by
      simp [FormatPipeOut.hdrVal, hm, FormatPipeOut.outputMeta, hs, hboth, hgood]
    cases hg : p.good with
    | false =>
      rw [hg] at hv hgood
      have hdrain : (r.next o).dataState = .dataDrain := by
        simp [FormatPipeOut.next, FormatPipeOut.dataNext, hs, hresp, he, resp, hgood]
      refine ⟨p.lines, begun', [], [], .drain p.tlen hdrain ?_ p.framed ha' rfl rfl, htake,
        by simp [hread], hlines, ?_, ?_⟩
      · simp [FormatPipeOut.next, FormatPipeOut.metaNext, hv]
      · simp [hdrTaken, FormatPipeOut.hdrOut, hv, IpPacket.hdrOwed, hg]
      · rw [← List.append_assoc, hidle.1]
        simp [IpPacket.dataOwed, hg]
    | true =>
      rw [hg] at hv hgood
      have hpassing : (r.next o).dataState = .passData := by
        simp [FormatPipeOut.next, FormatPipeOut.dataNext, hs, hresp, he, resp, hgood]
      have hshift : (r.next o).realignShift.toNat = p.hlen := by
        have hle := p.hlen_le
        simp only [FormatPipeOut.realignShift, hregs.1, BitVec.extractLsb'_toNat,
          Nat.shiftRight_zero]
        exact Nat.mod_eq_of_lt (Nat.lt_of_le_of_lt hle (by decide))
      have hdata : beats 64 p.payload = beats 64 ((a.step sent (passed r o)).buf ++
          ((flatBytes p.lines).take p.tlen).drop
            (if (a.step sent (passed r o)).fresh then (r.next o).realignShift.toNat else 0)) := by
        rw [ha'.1, ha'.2, hshift]
        rfl
      obtain ⟨h', hh', hm'⟩ := hdr_begins hs hx hv hg
      refine ⟨p.lines, begun', h', _, .pass p.tlen hpassing hm' p.framed hdata, htake,
        by simp [hread], hlines, ?_, ?_⟩
      · rw [← List.append_assoc, hh']
        rfl
      · rw [← List.append_assoc, hidle.1]
        simp [IpPacket.dataOwed, hg]

/-- A line of the packet goes to the realigner. -/
theorem out_pass {k : Nat} (hE : o.fifoEmpty = true ↔ l = [])
    (hD : ∀ x t, l = x :: t → o.fifoData = x) (hL : l ++ rem = cur ++ linesOf begun)
    (hs : r.dataState = .passData) (hm : MetaOwes r h) (hf : Framed cur k)
    (hd : d = beats 64 (a.buf ++
      ((flatBytes cur).take k).drop (if a.fresh then r.realignShift.toNat else 0))) :
    ∃ cur' h' d', OutMoves r o a sent c l rem begun h d cur' begun h' d' := by
  have hresp : r.respRdy o = false := by simp [FormatPipeOut.respRdy, hs]
  have hkeep : (r.next o).realignShift = r.realignShift := by
    simp [FormatPipeOut.realignShift, FormatPipeOut.next, FormatPipeOut.pktHdrNext, hs]
  obtain ⟨h', hh', hm'⟩ := meta_step (o := o) hm (by simp [hs])
  cases hgo : !o.fifoEmpty && o.realignRdy with
  | false =>
    have hpass : passed r o = none := by simp [passed, FormatPipeOut.realignVal, hs, hgo]
    obtain ⟨-, hbuf, hfresh⟩ := realign_idle (a := a) sent hpass
    refine ⟨cur, h', d, out_wait hL hresp (by simp [FormatPipeOut.rdReq, hs, hgo]) hpass hh'
      (.pass k ?_ hm' hf ?_)⟩
    · simp [FormatPipeOut.next, FormatPipeOut.dataNext, hs, hgo]
    · rw [hbuf, hfresh, hkeep]
      exact hd
  | true =>
    obtain ⟨he, hrdy⟩ := Bool.and_eq_true_iff.mp hgo
    have he' : o.fifoEmpty = false := by simpa using he
    obtain ⟨x, t, rfl⟩ := exists_cons_of_not_empty hE he'
    obtain ⟨y, t', rfl⟩ := List.exists_cons_of_ne_nil hf.ne_nil
    rw [List.cons_append, List.cons_append, List.cons.injEq] at hL
    obtain ⟨rfl, hL⟩ := hL
    have hx : o.fifoData = x := hD x t rfl
    have hread : r.rdReq o = true := by simp [FormatPipeOut.rdReq, hs, hgo]
    have hpass : passed r o = some (r.realignShift, x) := by
      simp [passed, FormatPipeOut.realignVal, hs, he', hrdy, hx]
    obtain ⟨left, hleft⟩ : ∃ left, left = if sent then { a with out := a.out.tail } else a :=
      ⟨_, rfl⟩
    obtain ⟨hsent, hbuf, hfresh⟩ := sentNow_append hleft
    have hstep : a.step sent (passed r o) = left.accept r.realignShift x := by
      rw [hpass, hleft]
      rfl
    obtain ⟨add, d', hadd, howes, hcase⟩ := accept_owes (a := left) hf r.realignShift
    rw [hbuf, hfresh, ← hd] at howes
    have hdata : sentNow a sent ++ ((a.step sent (passed r o)).out ++ (d' ++ dataOf begun)) =
        a.out ++ (d ++ dataOf begun) := by
      rw [hstep, hadd, ← howes, ← hsent]
      simp only [List.append_assoc]
    have hhdrs : hdrTaken r o ++ (h' ++ hdrsOf begun) = h ++ hdrsOf begun := by
      rw [← List.append_assoc, hh']
    rcases hcase with ⟨hl, rfl, rfl, hbetween⟩ | ⟨hl, hf', hd'⟩
    · refine ⟨[], h', [], finished_phase (hstep ▸ hbetween) hm' ?_, .inr ⟨hresp, rfl⟩, by simp,
        by simpa [hread] using hL, hhdrs, hdata⟩
      simp [FormatPipeOut.next, FormatPipeOut.dataNext, hs, hx, he', hrdy, hl]
    · refine ⟨t', h', d', .pass (k - 64) ?_ hm' hf' ?_, .inr ⟨hresp, rfl⟩, by simp,
        by simpa [hread] using hL, hhdrs, hdata⟩
      · simp [FormatPipeOut.next, FormatPipeOut.dataNext, hs, hx, hl]
      · rw [hstep, hkeep]
        exact hd'

/-- A line of a packet with a bad checksum is dropped. -/
theorem out_drain {k : Nat} (hE : o.fifoEmpty = true ↔ l = [])
    (hD : ∀ x t, l = x :: t → o.fifoData = x) (hL : l ++ rem = cur ++ linesOf begun)
    (hs : r.dataState = .dataDrain) (hm : r.metaState = .waiting) (hf : Framed cur k)
    (ha : Between a) :
    ∃ cur', OutMoves r o a sent c l rem begun [] [] cur' begun [] [] := by
  have hresp : r.respRdy o = false := by simp [FormatPipeOut.respRdy, hs]
  have hpass : passed r o = none := by simp [passed, FormatPipeOut.realignVal, hs]
  have hidle := realign_idle (a := a) sent hpass
  have ha' : Between (a.step sent (passed r o)) := ⟨hidle.2.1.trans ha.1, hidle.2.2.trans ha.2⟩
  have hv : r.hdrVal o = false := by
    simp [FormatPipeOut.hdrVal, hm, FormatPipeOut.outputMeta, hs]
  have hnone : hdrTaken r o = [] := by simp [hdrTaken, FormatPipeOut.hdrOut, hv]
  have hm' : (r.next o).metaState = .waiting := by
    simp [FormatPipeOut.next, FormatPipeOut.metaNext, hv]
  cases he : o.fifoEmpty with
  | true =>
    refine ⟨cur, out_wait hL hresp (by simp [FormatPipeOut.rdReq, hs, he]) hpass (by simp [hnone])
      (.drain k ?_ hm' hf ha' rfl rfl)⟩
    simp [FormatPipeOut.next, FormatPipeOut.dataNext, hs, he]
  | false =>
    obtain ⟨x, t, rfl⟩ := exists_cons_of_not_empty hE he
    obtain ⟨y, t', rfl⟩ := List.exists_cons_of_ne_nil hf.ne_nil
    rw [List.cons_append, List.cons_append, List.cons.injEq] at hL
    obtain ⟨rfl, hL⟩ := hL
    have hx : o.fifoData = x := hD x t rfl
    have hread : r.rdReq o = true := by simp [FormatPipeOut.rdReq, hs, he]
    have hhdrs : hdrTaken r o ++ ([] ++ hdrsOf begun) = [] ++ hdrsOf begun := by rw [hnone]; rfl
    have hdata : sentNow a sent ++ ((a.step sent (passed r o)).out ++ ([] ++ dataOf begun)) =
        a.out ++ ([] ++ dataOf begun) := by
      rw [← List.append_assoc, hidle.1]
    cases hl : x.last with
    | true =>
      obtain ⟨rfl, -, -⟩ := hf.of_last hl
      refine ⟨[], finished_phase ha' (.inr ⟨hm', rfl⟩) ?_, .inr ⟨hresp, rfl⟩, by simp,
        by simpa [hread] using hL, hhdrs, hdata⟩
      simp [FormatPipeOut.next, FormatPipeOut.dataNext, hs, hx, he, hl]
    | false =>
      refine ⟨t', .drain (k - 64) ?_ hm' (hf.of_not_last hl).2 ha' rfl rfl, .inr ⟨hresp, rfl⟩,
        by simp, by simpa [hread] using hL, hhdrs, hdata⟩
      simp [FormatPipeOut.next, FormatPipeOut.dataNext, hs, hx, hl]

/-- One cycle of the output half. -/
theorem out_step (sent : Bool) (hout : OutPhase r a cur h d) (hin : InPhase q c begun rem)
    (hE : o.fifoEmpty = true ↔ l = []) (hD : ∀ x t, l = x :: t → o.fifoData = x)
    (hR : o.resp = none ∨ o.resp = c.out.head?) (hL : l ++ rem = cur ++ linesOf begun) :
    ∃ cur' begun' h' d', OutMoves r o a sent c l rem begun h d cur' begun' h' d' := by
  cases hout with
  | ready hs hm hc ha hh hd =>
    subst hc hh hd
    exact out_ready hin hE hD hR hL hs hm ha
  | pass k hs hm hf hd =>
    obtain ⟨cur', h', d', hmoves⟩ := out_pass hE hD hL hs hm hf hd
    exact ⟨cur', begun, h', d', hmoves⟩
  | drain k hs hm hf ha hh hd =>
    subst hh hd
    obtain ⟨cur', hmoves⟩ := out_drain hE hD hL hs hm hf ha
    exact ⟨cur', begun, [], [], hmoves⟩
  | waitMeta hs hm hh hc ha hd =>
    subst hc hd
    have hpass : passed r o = none := by simp [passed, FormatPipeOut.realignVal, hs]
    have hidle := realign_idle (a := a) sent hpass
    obtain ⟨h', hh', hm'⟩ := meta_step (o := o) (.inl ⟨hm, hh⟩) (by simp [hs])
    refine ⟨[], begun, h', [], out_wait hL (by simp [FormatPipeOut.respRdy, hs])
      (by simp [FormatPipeOut.rdReq, hs]) hpass hh'
      (finished_phase ⟨hidle.2.1.trans ha.1, hidle.2.2.trans ha.2⟩ hm' ?_)⟩
    simp [FormatPipeOut.next, FormatPipeOut.dataNext, hs]

end step

/-! ### The pipeline -/

/-- The lines in the FIFO and the packets behind them. -/
structure Inv (pkts : List IpPacket) (s : PipeSystem) (l cur rem : List RxLine)
    (begun rest : List IpPacket) (h : List HdrOut) (d : List (Beat (BitVec 8))) : Prop where
  fifo : s.fifo.Represents l
  lines : l ++ rem = cur ++ linesOf begun
  src : s.src = rem ++ linesOf rest
  input : InPhase s.pipeIn s.chk begun rem
  output : OutPhase s.pipeOut s.realign cur h d
  buf : s.realign.buf.length < 64
  written : ∀ b p, begun = b ++ [p] → rem.length ≤ p.tail.length
  hdrs : s.hdrs ++ (h ++ hdrsOf (begun ++ rest)) = hdrsOf pkts
  data : s.data ++ (s.realign.out ++ (d ++ dataOf (begun ++ rest))) = dataOf pkts

def Good (pkts : List IpPacket) (s : PipeSystem) : Prop :=
  ∃ l cur rem begun rest h d, Inv pkts s l cur rem begun rest h d

variable {pkts : List IpPacket} {s : PipeSystem} {e : PipeEnv}

theorem good_init (hi : Init pkts s) : Good pkts s := by
  obtain ⟨hh, hd⟩ := hi.empty
  refine ⟨[], [], [], [], pkts, [], [], Fifo1r1w.represents_init hi.fifo, rfl, hi.src,
    .ready hi.pipeIn.1 hi.pipeIn.2 rfl hi.chk, ?_, by simp [hi.realign, RealignRuntime.reset],
    by simp, by simp [hh], by simp [hd, hi.realign, RealignRuntime.reset]⟩
  exact .ready hi.pipeOut.1 hi.pipeOut.2 rfl (by simp [Between, hi.realign, RealignRuntime.reset])
    rfl rfl

theorem src_of_srcVal (hv : (s.inWires e).srcVal = true) : ∃ t, s.src = (s.inWires e).src :: t :=
  exists_tail_of_offered hv

theorem transferIn_of_reqRdy (h : (s.inWires e).reqRdy = true) : s.chk.transferIn = true :=
  (Bool.and_eq_true_iff.mp h).2

theorem fifoEmpty_iff {l : List RxLine} (hf : s.fifo.Represents l) :
    (s.outWires e).fifoEmpty = true ↔ l = [] := hf.empty_iff

theorem fifoData_eq {l : List RxLine} (hf : s.fifo.Represents l) (x : RxLine) (t : List RxLine)
    (hl : l = x :: t) : (s.outWires e).fifoData = x := by
  simp [outWires, hf.rdData hl]

theorem resp_eq : (s.outWires e).resp = none ∨ (s.outWires e).resp = s.chk.out.head? := by
  cases he : e.respond <;> simp [outWires, he]

theorem hdrs_cycle : (s.cycle e).hdrs = s.hdrs ++ hdrTaken s.pipeOut (s.outWires e) := by
  cases hr : e.hdrRdy <;> simp [cycle, hdrTaken, outWires, hr]

theorem data_cycle : (s.cycle e).data = s.data ++ sentNow s.realign (e.present && e.dataRdy) := by
  cases hr : e.present && e.dataRdy <;> simp [cycle, sentNow, hr]

/-- Taking a response does not depend on what the input half gives to the unit. -/
theorem step_take {c : ChksumCalc} (hne : c.out ≠ []) (cmd : Bool) (req : Option ChksumReq) :
    c.step cmd req true =
      { c.step cmd req false with out := (c.step cmd req false).out.tail } ∧
      (c.step cmd req false).out ≠ [] := by
  cases req with
  | none => simp [ChksumCalc.step, hne]
  | some q => cases hq : q.last <;> simp [ChksumCalc.step, hq, hne, List.tail_append_of_ne_nil]

theorem buf_step {a : RealignRuntime} (ha : a.buf.length < 64) (sent : Bool)
    (line : Option (BitVec 6 × RxLine)) : (a.step sent line).buf.length < 64 := by
  have hleft : (if sent then { a with out := a.out.tail } else a).buf = a.buf := by
    cases sent <;> rfl
  cases line with
  | none => simpa [RealignRuntime.step, hleft] using ha
  | some q =>
    cases hl : q.2.last with
    | true => simp [RealignRuntime.step, RealignRuntime.accept, hl]
    | false =>
      simp only [RealignRuntime.step, RealignRuntime.accept, hl, Bool.false_eq_true, if_false]
      exact length_rest (by decide)

/-- The FIFO moves as the two halves ask. -/
theorem fifo_cycle {l : List RxLine} (hf : s.fifo.Represents l)
    (hread : s.pipeOut.rdReq (s.outWires e) = true → l ≠ []) :
    (s.cycle e).fifo.Represents ((if s.pipeOut.rdReq (s.outWires e) then l.tail else l) ++
      (s.pipeIn.fifoWr (s.inWires e)).toList) := by
  refine hf.step ?_ hread
  intro hw
  have hfull : s.fifo.full = false := fifoWr_room hw
  have hne : l.length ≠ 2 ^ 6 := by
    intro hlen
    rw [hf.full_iff.mpr hlen] at hfull
    cases hfull
  exact Nat.lt_of_le_of_ne hf.room hne

/-- Every cycle keeps the invariant. -/
theorem inv_cycle {l cur rem : List RxLine} {begun rest : List IpPacket} {h : List HdrOut}
    {d : List (Beat (BitVec 8))} (hv : Inv pkts s l cur rem begun rest h d) :
    Good pkts (s.cycle e) := by
  obtain ⟨new, rest', rem', hrest, hwr, hsrc, hnew, hin⟩ :=
    in_step (i := s.inWires e) hv.input hv.src src_of_srcVal transferIn_of_reqRdy
  obtain ⟨cur', begun', h', d', hmoves⟩ := out_step (o := s.outWires e)
    (e.present && e.dataRdy) hv.output hv.input (fifoEmpty_iff hv.fifo) (fifoData_eq hv.fifo) resp_eq
    hv.lines
  refine ⟨(if s.pipeOut.rdReq (s.outWires e) then l.tail else l) ++
    (s.pipeIn.fifoWr (s.inWires e)).toList, cur', rem', begun' ++ new, rest', h', d',
    fifo_cycle hv.fifo hmoves.read, ?_, hsrc, ?_, hmoves.phase, buf_step hv.buf _ _, ?_, ?_, ?_⟩
  · rw [List.append_assoc, hwr, ← List.append_assoc, hmoves.lines, List.append_assoc,
      linesOf_append]
  · rcases hmoves.take with ⟨hrdy, hne, p, rfl⟩ | ⟨hrdy, rfl⟩
    · obtain ⟨htake, hne'⟩ := step_take hne (s.pipeIn.dataOut (s.inWires e))
        (if (s.inWires e).reqRdy then s.pipeIn.req else none)
      rw [List.cons_append] at hin
      have hchk : (s.cycle e).chk = _ := congrArg (s.chk.step _ _) hrdy
      rw [hchk, htake]
      exact (hin.take hne').2
    · have hchk : (s.cycle e).chk = _ := congrArg (s.chk.step _ _) hrdy
      rw [hchk]
      exact hin
  · intro b p hb
    rcases hnew with rfl | ⟨p', rfl, rfl⟩
    · have hle : rem'.length ≤ rem.length := by
        have hlen := congrArg List.length hwr
        simp only [List.length_append, linesOf_nil, List.length_nil] at hlen
        omega
      rw [List.append_nil] at hb
      refine Nat.le_trans hle ?_
      rcases hmoves.take with ⟨-, -, p', rfl⟩ | ⟨-, rfl⟩
      · exact hv.written (p' :: b) p (by rw [hb, List.cons_append])
      · exact hv.written b p hb
    · obtain ⟨-, hp⟩ := List.append_inj' hb rfl
      rw [List.singleton_inj.mp hp]
  · have hall := hv.hdrs
    rw [hrest, ← List.append_assoc begun, hdrsOf_append] at hall
    calc (s.cycle e).hdrs ++ (h' ++ hdrsOf (begun' ++ new ++ rest'))
        = s.hdrs ++ ((hdrTaken s.pipeOut (s.outWires e) ++ (h' ++ hdrsOf begun')) ++
            hdrsOf (new ++ rest')) := by
          rw [hdrs_cycle]
          simp only [hdrsOf_append, List.append_assoc]
      _ = hdrsOf pkts := by
          rw [hmoves.hdrs, ← hall]
          simp only [hdrsOf_append, List.append_assoc]
  · have hall := hv.data
    rw [hrest, ← List.append_assoc begun, dataOf_append] at hall
    calc (s.cycle e).data ++ ((s.cycle e).realign.out ++
          (d' ++ dataOf (begun' ++ new ++ rest')))
        = s.data ++ ((sentNow s.realign (e.present && e.dataRdy) ++
            ((s.cycle e).realign.out ++ (d' ++ dataOf begun'))) ++ dataOf (new ++ rest')) := by
          rw [data_cycle]
          simp only [dataOf_append, List.append_assoc]
      _ = dataOf pkts := by
          have hpre : sentNow s.realign (e.present && e.dataRdy) ++
              ((s.cycle e).realign.out ++ (d' ++ dataOf begun')) = _ := hmoves.data
          rw [hpre, ← hall]
          simp only [dataOf_append, List.append_assoc]

/-! ### Progress -/

/-- What the pipeline waits for in the units it uses. -/
inductive PipeEvent where
  | request | respond | accept | present
  deriving DecidableEq

/-- The checksum unit takes a line or presents a response, the realigner takes a line or presents
one. -/
def Given (e : PipeEnv) : PipeEvent → Prop
  | .request => e.reqRdy = true
  | .respond => e.respond = true
  | .accept => e.realignRdy = true
  | .present => e.present = true

/-- The outputs are ready and the next line is offered. -/
def Open (e : PipeEnv) : Prop := e.offer = true ∧ e.hdrRdy = true ∧ e.dataRdy = true

/-- Every line is accepted and everything is delivered. -/
def Delivered (pkts : List IpPacket) (s : PipeSystem) : Prop :=
  s.src = [] ∧ s.hdrs = hdrsOf pkts ∧ s.data = dataOf pkts

/-- The request for the checksum of the packet being written is outstanding. -/
def asking (r : FormatPipeIn) : Nat := if r.chksumState = .ipHdrFirst then 3 else 0

/-- The output half has a header or lines of the realigner to give out. -/
def giving (r : FormatPipeOut) (a : RealignRuntime) : Nat :=
  (if r.metaState = .metaOut then 1 else 0) + (if r.dataState = .waitMeta then 1 else 0) +
    a.out.length

/-- A packet in the FIFO weighs its lines and its checksum, a line in the FIFO the two lines the
realigner may make of it. -/
def work (s : PipeSystem) : Nat :=
  8 * s.src.length + asking s.pipeIn + 2 * s.chk.out.length + 4 * s.fifo.contents.length +
    giving s.pipeOut s.realign

def awaits (s : PipeSystem) : PipeEvent :=
  if s.realign.out ≠ [] then .present
  else if s.pipeIn.chksumState = .ipHdrFirst then .request
  else if s.pipeOut.dataState = .ready then .respond
  else .accept

/-- The input half gets on. -/
def inMoves (r : FormatPipeIn) (i : PipeInWires) : Bool :=
  r.accept i || (decide (r.chksumState = .ipHdrFirst) && i.reqRdy)

/-- The output half gets on. -/
def outMoves (r : FormatPipeOut) (o : PipeOutWires) (a : RealignRuntime) (sent : Bool) : Bool :=
  r.respRdy o || r.rdReq o || (sent && !a.out.isEmpty) || decide (r.metaState = .metaOut) ||
    decide (r.dataState = .waitMeta)

/-- The same when the header port may be held up. -/
def outGets (r : FormatPipeOut) (o : PipeOutWires) (a : RealignRuntime) (sent : Bool) : Bool :=
  r.respRdy o || r.rdReq o || (sent && !a.out.isEmpty) ||
    (decide (r.metaState = .metaOut) && o.hdrRdy) ||
    (decide (r.dataState = .waitMeta) && decide (r.metaNext o = .waiting))

theorem outGets_eq {r : FormatPipeOut} {o : PipeOutWires} (a : RealignRuntime) (sent : Bool)
    (hrdy : o.hdrRdy = true) : outGets r o a sent = outMoves r o a sent := by
  have hmeta : r.metaNext o = .waiting := by simp [FormatPipeOut.metaNext, hrdy]
  simp [outGets, outMoves, hrdy, hmeta]

section work

variable {r : FormatPipeIn} {c : ChksumCalc} {begun : List IpPacket} {rem src : List RxLine}
  {i : PipeInWires}

/-- What a line costs on its way from the source into the FIFO. -/
theorem line_work (hi : i.srcVal = true → ∃ t, src = i.src :: t) :
    8 * (if r.accept i then src.tail else src).length + 4 * (r.fifoWr i).toList.length +
      (if r.accept i then 4 else 0) ≤ 8 * src.length := by
  cases hacc : r.accept i with
  | false =>
    have hwr : r.fifoWr i = none := by
      simp only [FormatPipeIn.fifoWr, FormatPipeIn.dataOut, hacc]
      split <;> simp
    simp [hwr]
  | true =>
    obtain ⟨t, ht⟩ := hi (Bool.and_eq_true_iff.mp hacc).1
    have hle : (r.fifoWr i).toList.length ≤ 1 := by cases r.fifoWr i <;> simp
    simp only [if_true, ht, List.tail_cons, List.length_cons]
    omega

theorem in_work (h : InPhase r c begun rem) (hi : i.srcVal = true → ∃ t, src = i.src :: t)
    (hreq : i.reqRdy = true → c.transferIn = true) :
    8 * (if r.accept i then src.tail else src).length + asking (r.next i) +
        2 * (c.step (r.dataOut i) (if i.reqRdy then r.req else none) false).out.length +
        4 * (r.fifoWr i).toList.length + (if inMoves r i then 1 else 0) ≤
      8 * src.length + asking r + 2 * c.out.length := by
  have hline := line_work (r := r) hi
  cases h with
  | ready hs hd hr hc =>
    have hnoreq := reqRdy_of_idle hreq (by rw [hc])
    have hout : (c.step (r.dataOut i) (if i.reqRdy then r.req else none) false).out = c.out := by
      simp [hnoreq, ChksumCalc.step]
    have hnext : asking (r.next i) = if r.accept i then 3 else 0 := by
      cases hacc : r.accept i <;>
        simp [asking, FormatPipeIn.next, FormatPipeIn.chksumNext, hs, hacc]
    have hask : asking r = 0 := by simp [asking, hs]
    have hmv : inMoves r i = r.accept i := by simp [inMoves, hs]
    rw [hout, hnext, hask, hmv]
    split_ifs at hline ⊢ <;> omega
  | hdrFirst b p hb hs hm hdata hhdr hc =>
    have hfit := pipeIn_hdr_fits r
    cases hq : i.reqRdy with
    | false =>
      have hout : (c.step (r.dataOut i) none false).out = c.out := rfl
      have hnext : asking (r.next i) = asking r := by
        simp [asking, FormatPipeIn.next, FormatPipeIn.chksumNext, hs, hfit, hq]
      have hmv : inMoves r i = r.accept i := by simp [inMoves, hq]
      rw [if_neg Bool.false_ne_true, hout, hnext, hmv]
      split_ifs at hline ⊢ <;> omega
    | true =>
      have hout : (c.step (r.dataOut i) r.req false).out.length = c.out.length + 1 := by
        simp [FormatPipeIn.req, hs, hfit, hc, ChksumCalc.step, ChksumCalc.responses,
          ChksumCalc.echo]
      have hnext : asking (r.next i) = 0 := by
        simp only [asking, FormatPipeIn.next, FormatPipeIn.chksumNext, hs, if_neg hfit, hq, if_true]
        split_ifs <;> simp_all
      have hask : asking r = 3 := by simp [asking, hs]
      have hmv : inMoves r i = true := by simp [inMoves, hs, hq]
      rw [if_pos rfl, hout, hnext, hask, hmv, if_pos rfl]
      split_ifs at hline ⊢ <;> omega
  | waitData hs hd hf hc =>
    have hnoreq := reqRdy_of_idle hreq (by rw [hc])
    have hout : (c.step (r.dataOut i) (if i.reqRdy then r.req else none) false).out = c.out := by
      simp [hnoreq, ChksumCalc.step]
    have hnext : asking (r.next i) = 0 := by
      simp only [asking, FormatPipeIn.next, FormatPipeIn.chksumNext, hs]
      split_ifs <;> simp_all
    have hask : asking r = 0 := by simp [asking, hs]
    have hmv : inMoves r i = r.accept i := by simp [inMoves, hs]
    rw [hout, hnext, hask, hmv]
    split_ifs at hline ⊢ <;> omega

/-- A line accepted settles at most two lines. -/
theorem step_work {a : RealignRuntime} (ha : a.buf.length < 64) (sent : Bool)
    (line : Option (BitVec 6 × RxLine)) :
    (a.step sent line).out.length + (if sent && !a.out.isEmpty then 1 else 0) ≤
      a.out.length + 2 * line.toList.length := by
  obtain ⟨left, hleft⟩ : ∃ left, left = if sent then { a with out := a.out.tail } else a := ⟨_, rfl⟩
  have hout : left.out.length + (if sent && !a.out.isEmpty then 1 else 0) ≤ a.out.length := by
    subst hleft
    cases sent with
    | false => simp
    | true => cases a.out <;> simp
  have hbuf : left.buf = a.buf := (sentNow_append hleft).2.1
  cases line with
  | none =>
    have hstep : a.step sent none = left := by rw [hleft]; rfl
    rw [hstep]
    simpa using hout
  | some q =>
    obtain ⟨shift, x⟩ := q
    have hstep : a.step sent (some (shift, x)) = left.accept shift x := by rw [hleft]; rfl
    have hbytes : (left.buf ++ (RealignRuntime.valid x).drop
        (if left.fresh then shift.toNat else 0)).length ≤ 127 := by
      have hv : (RealignRuntime.valid x).length ≤ 64 := by
        unfold RealignRuntime.valid
        split_ifs
        · rw [List.length_take, length_lineBytes]
          exact Nat.min_le_right _ _
        · rw [length_lineBytes]
      rw [List.length_append, List.length_drop, hbuf]
      omega
    rw [hstep]
    unfold RealignRuntime.accept
    generalize left.buf ++ (RealignRuntime.valid x).drop
      (if left.fresh then shift.toNat else 0) = bytes at hbytes ⊢
    cases hl : x.last <;>
      simp only [if_true, Bool.false_eq_true, if_false, List.length_append, length_beats,
        length_whole, Option.toList_some, List.length_cons, List.length_nil] <;> omega

/-- The header machine takes a packet with its response and gives its header out. -/
theorem meta_work {r : FormatPipeOut} {o : PipeOutWires} :
    (if r.metaNext o = .metaOut then 1 else 0) +
        (if decide (r.metaState = .metaOut) && o.hdrRdy then 1 else 0) ≤
      (if r.metaState = .metaOut then 1 else 0) + (if r.respRdy o then 1 else 0) := by
  cases hr : o.hdrRdy with
  | true =>
    have hmeta : r.metaNext o = .waiting := by simp [FormatPipeOut.metaNext, hr]
    simp only [hmeta, reduceCtorEq, if_false, Bool.and_true, decide_eq_true_eq]
    omega
  | false =>
    cases hm : r.metaState with
    | metaOut => simp [FormatPipeOut.metaNext, FormatPipeOut.hdrVal, hm, hr]
    | waiting =>
      cases hv : r.outputMeta o with
      | false => simp [FormatPipeOut.metaNext, FormatPipeOut.hdrVal, hm, hv]
      | true =>
        simp only [FormatPipeOut.outputMeta, Bool.and_eq_true, decide_eq_true_eq] at hv
        have hresp : r.respRdy o = true := by simp [FormatPipeOut.respRdy, hv.1.1, hv.1.2]
        simp [hresp]
        split_ifs <;> omega

/-- The data machine waits for the header machine after the last line only. -/
theorem wait_work {r : FormatPipeOut} {o : PipeOutWires} :
    (if r.dataNext o = .waitMeta then 1 else 0) +
        (if decide (r.dataState = .waitMeta) && decide (r.metaNext o = .waiting) then 1 else 0) ≤
      (if r.dataState = .waitMeta then 1 else 0) + (if r.rdReq o then 1 else 0) := by
  cases hs : r.dataState with
  | ready =>
    have hne : r.dataNext o ≠ .waitMeta := by
      simp only [FormatPipeOut.dataNext, hs]
      split
      · split_ifs <;> simp
      · simp
    simp [hne]
  | ipHdrDrain =>
    have hne : r.dataNext o ≠ .waitMeta := by
      simp only [FormatPipeOut.dataNext, hs]
      split_ifs <;> simp
    simp [hne]
  | passData =>
    simp only [FormatPipeOut.dataNext, FormatPipeOut.rdReq, hs]
    cases he : o.fifoEmpty <;> cases hr : o.realignRdy <;> simp
    split_ifs <;> simp
  | dataDrain =>
    simp only [FormatPipeOut.dataNext, FormatPipeOut.rdReq, hs]
    cases he : o.fifoEmpty <;> simp
    split_ifs <;> simp
  | waitMeta =>
    by_cases hm : r.metaNext o = .waiting <;> simp [FormatPipeOut.dataNext, hs, hm]

theorem out_work {r : FormatPipeOut} {o : PipeOutWires} {a : RealignRuntime} (sent : Bool)
    (ha : a.buf.length < 64) :
    giving (r.next o) (a.step sent (passed r o)) + (if outGets r o a sent then 1 else 0) ≤
      giving r a + 2 * (if r.respRdy o then 1 else 0) + 4 * (if r.rdReq o then 1 else 0) := by
  have hmeta := meta_work (r := r) (o := o)
  have hwait := wait_work (r := r) (o := o)
  have hwork := step_work ha sent (passed r o)
  have hpass : (passed r o).toList.length ≤ if r.rdReq o then 1 else 0 := by
    unfold passed FormatPipeOut.realignVal FormatPipeOut.rdReq
    cases hs : r.dataState <;> cases he : o.fifoEmpty <;> cases hr : o.realignRdy <;> simp
  have hmv : (if outGets r o a sent then 1 else 0) ≤ (if r.respRdy o then 1 else 0) +
      (if r.rdReq o then 1 else 0) + (if sent && !a.out.isEmpty then 1 else 0) +
      (if decide (r.metaState = .metaOut) && o.hdrRdy then 1 else 0) +
      (if decide (r.dataState = .waitMeta) && decide (r.metaNext o = .waiting) then 1 else 0) := by
    unfold outGets
    cases r.respRdy o <;> cases r.rdReq o <;> cases sent && !a.out.isEmpty <;>
      cases decide (r.metaState = .metaOut) && o.hdrRdy <;>
      cases decide (r.dataState = .waitMeta) && decide (r.metaNext o = .waiting) <;> simp
  have hnext : giving (r.next o) (a.step sent (passed r o)) =
      (if r.metaNext o = .metaOut then 1 else 0) + (if r.dataNext o = .waitMeta then 1 else 0) +
        (a.step sent (passed r o)).out.length := rfl
  rw [hnext]
  unfold giving
  omega

end work

/-- Work never increases, and decreases when a half gets on. -/
theorem work_le {l cur rem : List RxLine} {begun rest : List IpPacket} {h : List HdrOut}
    {d : List (Beat (BitVec 8))} (hv : Inv pkts s l cur rem begun rest h d) :
    work (s.cycle e) + (if inMoves s.pipeIn (s.inWires e) then 1 else 0) +
      (if outGets s.pipeOut (s.outWires e) s.realign (e.present && e.dataRdy) then 1 else 0) ≤
        work s := by
  have hin := in_work (i := s.inWires e) hv.input src_of_srcVal transferIn_of_reqRdy
  have hout := out_work (r := s.pipeOut) (o := s.outWires e) (e.present && e.dataRdy) hv.buf
  obtain ⟨cur', begun', h', d', hmoves⟩ := out_step (o := s.outWires e)
    (e.present && e.dataRdy) hv.output hv.input (fifoEmpty_iff hv.fifo) (fifoData_eq hv.fifo) resp_eq
    hv.lines
  have hlen : (s.cycle e).fifo.contents.length + (if s.pipeOut.rdReq (s.outWires e) then 1 else 0) =
      s.fifo.contents.length + (s.pipeIn.fifoWr (s.inWires e)).toList.length := by
    rw [(fifo_cycle hv.fifo hmoves.read).contents_eq, hv.fifo.contents_eq, List.length_append]
    split_ifs with hr
    · have hpos := List.length_pos_of_ne_nil (hmoves.read hr)
      rw [List.length_tail]
      omega
    · omega
  have hchk : (s.cycle e).chk.out.length + (if s.pipeOut.respRdy (s.outWires e) then 1 else 0) =
      (s.chk.step (s.pipeIn.dataOut (s.inWires e))
        (if (s.inWires e).reqRdy then s.pipeIn.req else none) false).out.length := by
    rcases hmoves.take with ⟨hrdy, hne, -⟩ | ⟨hrdy, -⟩
    · obtain ⟨htake, hne'⟩ := step_take hne (s.pipeIn.dataOut (s.inWires e))
        (if (s.inWires e).reqRdy then s.pipeIn.req else none)
      have hc : (s.cycle e).chk = _ := congrArg (s.chk.step _ _) hrdy
      have hpos := List.length_pos_of_ne_nil hne'
      rw [hc, htake, if_pos hrdy, List.length_tail]
      omega
    · have hc : (s.cycle e).chk = _ := congrArg (s.chk.step _ _) hrdy
      rw [hc, hrdy]
      rfl
  have hsrc : (s.cycle e).src = if s.pipeIn.accept (s.inWires e) then s.src.tail else s.src := rfl
  have hask : (s.cycle e).pipeIn = s.pipeIn.next (s.inWires e) := rfl
  have hgive : giving (s.cycle e).pipeOut (s.cycle e).realign =
      giving (s.pipeOut.next (s.outWires e))
        (s.realign.step (e.present && e.dataRdy) (passed s.pipeOut (s.outWires e))) := rfl
  unfold work
  rw [hsrc, hask, hgive]
  omega

/-- A half that does not get on stays where it is. -/
theorem still_in {r : FormatPipeIn} {c : ChksumCalc} {begun : List IpPacket} {rem : List RxLine}
    {i : PipeInWires} (h : InPhase r c begun rem) (hm : inMoves r i = false) :
    (r.next i).chksumState = r.chksumState := by
  simp only [inMoves, Bool.or_eq_false_iff, Bool.and_eq_false_iff, decide_eq_false_iff_not] at hm
  obtain ⟨hacc, hreq⟩ := hm
  cases h with
  | ready hs hd hr hc => simp [FormatPipeIn.next, FormatPipeIn.chksumNext, hs, hacc]
  | hdrFirst b p hb hs hmis hdata hhdr hc =>
    have hfit := pipeIn_hdr_fits r
    have hq : i.reqRdy = false := by simpa [hs] using hreq
    simp [FormatPipeIn.next, FormatPipeIn.chksumNext, hs, hfit, hq]
  | waitData hs hd hf hc =>
    have hwr : r.fifoWr i = none := by simp [FormatPipeIn.fifoWr, hd, hacc]
    simp [FormatPipeIn.next, FormatPipeIn.chksumNext, FormatPipeIn.dataNext, hs, hwr, hd]

theorem still_out {r : FormatPipeOut} {o : PipeOutWires} {a : RealignRuntime} {cur : List RxLine}
    {h : List HdrOut} {d : List (Beat (BitVec 8))} {sent : Bool} (hph : OutPhase r a cur h d)
    (hm : outGets r o a sent = false) :
    (r.next o).dataState = r.dataState ∧ (a.step sent (passed r o)).out = a.out ∧
      (r.metaState = .metaOut → (r.next o).metaState = .metaOut) := by
  simp only [outGets, Bool.or_eq_false_iff] at hm
  obtain ⟨⟨⟨⟨hresp, hread⟩, hsent⟩, hmeta⟩, hwait⟩ := hm
  have hpass : passed r o = none := by
    unfold passed FormatPipeOut.realignVal
    by_cases hs : r.dataState = .passData
    · simp only [FormatPipeOut.rdReq, hs] at hread
      simp [hs, hread]
    · simp [hs]
  refine ⟨?_, ?_, ?_⟩
  · cases hph with
    | ready hs =>
      simp only [FormatPipeOut.respRdy, hs, FormatPipeOut.both] at hresp
      simp only [FormatPipeOut.next, FormatPipeOut.dataNext, hs]
      cases hr : o.resp with
      | none => rfl
      | some p =>
        have he : o.fifoEmpty = true := by simpa [hr] using hresp
        simp [he]
    | pass k hs =>
      simp only [FormatPipeOut.rdReq, hs] at hread
      simp [FormatPipeOut.next, FormatPipeOut.dataNext, hs, hread]
    | drain k hs =>
      simp only [FormatPipeOut.rdReq, hs] at hread
      simp [FormatPipeOut.next, FormatPipeOut.dataNext, hs, hread]
    | waitMeta hs =>
      have hne : r.metaNext o ≠ .waiting := by simpa [hs] using hwait
      simp [FormatPipeOut.next, FormatPipeOut.dataNext, hs, hne]
  · rw [hpass]
    cases hb : sent with
    | false => rfl
    | true =>
      have hnil : a.out = [] := by simpa [hb] using hsent
      simp [RealignRuntime.step, hnil]
  · intro hs
    have hr : o.hdrRdy = false := by simpa [hs] using hmeta
    simp [FormatPipeOut.next, FormatPipeOut.metaNext, FormatPipeOut.hdrVal, hs, hr]

/-- The first packet of `begun` has its header line in the FIFO. -/
theorem Inv.header_written {l cur rem : List RxLine} {begun rest : List IpPacket} {h : List HdrOut}
    {d : List (Beat (BitVec 8))} (hv : Inv pkts s l cur rem begun rest h d) (hb : begun ≠ []) :
    cur.length < l.length := by
  obtain ⟨b, p, hcat⟩ := (List.eq_nil_or_concat begun).resolve_left hb
  rw [List.concat_eq_append] at hcat
  subst hcat
  have hle := hv.written b p rfl
  have hlen := congrArg List.length hv.lines
  simp only [List.length_append, linesOf_append, linesOf_cons, linesOf_nil, List.append_nil,
    List.length_cons] at hlen
  omega

/-- What a cycle may bring. -/
inductive PipeWait where
  | request | respond | accept | present | hdr
  deriving DecidableEq

/-- The units and the two output ports let something through. -/
def Brings (e : PipeEnv) : PipeWait → Prop
  | .request => e.reqRdy = true
  | .respond => e.respond = true
  | .accept => e.realignRdy = true
  | .present => e.present = true ∧ e.dataRdy = true
  | .hdr => e.hdrRdy = true

/-- A half gets on when it is brought this. -/
def Awaiting (s : PipeSystem) : PipeWait → Prop
  | .request => s.pipeIn.chksumState = .ipHdrFirst
  | .respond => s.pipeOut.dataState = .ready ∧ s.fifo.empty = false ∧ s.chk.out ≠ []
  | .accept => s.pipeOut.dataState = .passData ∧ s.fifo.empty = false
  | .present => s.realign.out ≠ []
  | .hdr => s.pipeOut.metaState = .metaOut

/-- A line of a bad packet is dropped in any case. -/
def Drops (s : PipeSystem) : Prop := s.pipeOut.dataState = .dataDrain ∧ s.fifo.empty = false

/-- The next line is accepted as soon as it is offered. -/
def Hungry (s : PipeSystem) : Prop := s.pipeIn.chksumState ≠ .ipHdrFirst ∧ s.fifo.empty = true

/-- One of these holds at any time, and a hungry pipeline without a line to come has delivered
everything. -/
theorem waits {l cur rem : List RxLine} {begun rest : List IpPacket} {h : List HdrOut}
    {d : List (Beat (BitVec 8))} (hv : Inv pkts s l cur rem begun rest h d) :
    (∃ w, s.Awaiting w) ∨ s.Drops ∨ s.Hungry ∧ (s.src = [] → Delivered pkts s) := by
  by_cases hout : s.realign.out = []
  swap
  · exact .inl ⟨.present, hout⟩
  by_cases hfirst : s.pipeIn.chksumState = .ipHdrFirst
  · exact .inl ⟨.request, hfirst⟩
  have hchk : s.chk.out = begun.map resp := by
    cases hv.input with
    | ready hs hd hr hc => rw [hc]
    | hdrFirst b p hb hs hm hdata hhdr hc => exact absurd hs hfirst
    | waitData hs hd hf hc => rw [hc]
  have hfull : l ≠ [] → s.fifo.empty = false := by
    intro hl
    cases he : s.fifo.empty with
    | false => rfl
    | true => exact absurd (hv.fifo.empty_iff.mp he) hl
  -- an empty FIFO in the middle of a packet
  have hmiss : l = [] → cur ≠ [] → s.Hungry ∧ (s.src = [] → Delivered pkts s) := by
    intro hl hcur
    refine ⟨⟨hfirst, hv.fifo.empty_iff.mpr hl⟩, fun hsrc => ?_⟩
    have hlines := hv.lines
    rw [hl, List.nil_append] at hlines
    have hsrc' := hv.src
    simp [hsrc, hlines, hcur] at hsrc'
  cases hv.output with
  | ready hs hm hc ha hh hd =>
    cases hb : begun with
    | cons p ps =>
      have hlen := hv.header_written (by simp [hb])
      have hl : l ≠ [] := List.ne_nil_of_length_pos (Nat.lt_of_le_of_lt (Nat.zero_le _) hlen)
      exact .inl ⟨.respond, hs, hfull hl, by simp [hchk, hb]⟩
    | nil =>
      have hlines := hv.lines
      rw [hc, hb] at hlines
      obtain ⟨hl, hrem⟩ := List.append_eq_nil_iff.mp hlines
      refine .inr (.inr ⟨⟨hfirst, hv.fifo.empty_iff.mpr hl⟩, fun hsrc => ⟨hsrc, ?_, ?_⟩⟩)
      all_goals
        have hrest : rest = [] := by
          cases rest with
          | nil => rfl
          | cons p ps =>
            have hs := hv.src
            simp [hsrc] at hs
      · simpa [hh, hb, hrest] using hv.hdrs
      · simpa [hd, hb, hrest, hout] using hv.data
  | pass k hs hm hf hd =>
    by_cases hl : l = []
    · exact .inr (.inr (hmiss hl hf.ne_nil))
    · exact .inl ⟨.accept, hs, hfull hl⟩
  | drain k hs hm hf ha hh hd =>
    by_cases hl : l = []
    · exact .inr (.inr (hmiss hl hf.ne_nil))
    · exact .inr (.inl ⟨hs, hfull hl⟩)
  | waitMeta hs hm hh hc ha hd => exact .inl ⟨.hdr, hm⟩

/-- What is awaited lets one of the halves get on. -/
theorem gets_on {l cur rem : List RxLine} {begun rest : List IpPacket} {h : List HdrOut}
    {d : List (Beat (BitVec 8))} (hv : Inv pkts s l cur rem begun rest h d) {w : PipeWait}
    (ha : s.Awaiting w) (hb : Brings e w) :
    inMoves s.pipeIn (s.inWires e) = true ∨
      outGets s.pipeOut (s.outWires e) s.realign (e.present && e.dataRdy) = true := by
  cases w with
  | request =>
    have hq : e.reqRdy = true := hb
    have hfirst : s.pipeIn.chksumState = .ipHdrFirst := ha
    left
    cases hv.input with
    | ready hs hd hr hc => simp [hs] at hfirst
    | hdrFirst b p hb hs hm hdata hhdr hc => simp [inMoves, hfirst, inWires, hq, hc]
    | waitData hs hd hf hc => simp [hs] at hfirst
  | respond =>
    obtain ⟨hs, hempty, hne⟩ := ha
    have hr : e.respond = true := hb
    have hresp : (s.outWires e).resp.isSome = true := by
      simp [outWires, hr, hne]
    have hE : (s.outWires e).fifoEmpty = false := hempty
    right
    simp [outGets, FormatPipeOut.respRdy, hs, FormatPipeOut.both, hE, hresp]
  | accept =>
    obtain ⟨hs, hempty⟩ := ha
    have hr : (s.outWires e).realignRdy = true := hb
    have hE : (s.outWires e).fifoEmpty = false := hempty
    right
    simp [outGets, FormatPipeOut.rdReq, hs, hE, hr]
  | present =>
    obtain ⟨hp, hr⟩ : e.present = true ∧ e.dataRdy = true := hb
    have hne : s.realign.out ≠ [] := ha
    right
    simp [outGets, hp, hr, hne]
  | hdr =>
    have hm : s.pipeOut.metaState = .metaOut := ha
    have hr : (s.outWires e).hdrRdy = true := hb
    right
    simp [outGets, hm, hr]

theorem Drops.gets_on (hd : s.Drops) (e : PipeEnv) :
    outGets s.pipeOut (s.outWires e) s.realign (e.present && e.dataRdy) = true := by
  have hE : (s.outWires e).fifoEmpty = false := hd.2
  simp [outGets, FormatPipeOut.rdReq, hd.1, hE]

/-- A line that is offered to a hungry pipeline is accepted. -/
theorem Hungry.accepts {l cur rem : List RxLine} {begun rest : List IpPacket} {h : List HdrOut}
    {d : List (Beat (BitVec 8))} (hs : s.Hungry) (hv : Inv pkts s l cur rem begun rest h d)
    {i : PipeInWires} (hval : i.srcVal = true) (hcmd : i.cmdRdy = s.chk.cmdRdy)
    (hfull : i.fifoFull = s.fifo.full) : s.pipeIn.accept i = true := by
  have hl : l = [] := hv.fifo.empty_iff.mp hs.2
  have hroom : i.fifoFull = false := by
    rw [hfull]
    cases hf : s.fifo.full with
    | false => rfl
    | true =>
      have hlen := hv.fifo.full_iff.mp hf
      simp [hl] at hlen
  cases hv.input with
  | ready hs' hd hr hc =>
    have hidle : i.cmdRdy = true := by simp [hcmd, hc, ChksumCalc.cmdRdy]
    simp [FormatPipeIn.accept, FormatPipeIn.srcRdy, hs', hval, hroom, hidle]
  | hdrFirst b p hb hs' hm hdata hhdr hc => exact absurd hs' hs.1
  | waitData hs' hd hf hc =>
    simp [FormatPipeIn.accept, FormatPipeIn.srcRdy, hs', hval, hroom, hd]

/-- Where no half gets on, the same is awaited. -/
theorem awaiting_next {l cur rem : List RxLine} {begun rest : List IpPacket} {h : List HdrOut}
    {d : List (Beat (BitVec 8))} (hv : Inv pkts s l cur rem begun rest h d)
    (hin : inMoves s.pipeIn (s.inWires e) = false)
    (hout : outGets s.pipeOut (s.outWires e) s.realign (e.present && e.dataRdy) = false)
    {w : PipeWait} (ha : s.Awaiting w) : (s.cycle e).Awaiting w := by
  have hstate := still_in hv.input hin
  obtain ⟨hd, hr, hm⟩ := still_out hv.output hout
  simp only [outGets, Bool.or_eq_false_iff] at hout
  simp only [inMoves, Bool.or_eq_false_iff] at hin
  have hread : s.pipeOut.rdReq (s.outWires e) = false := hout.1.1.1.2
  have hfifo : s.fifo.empty = false → (s.cycle e).fifo.empty = false := by
    intro hne
    have hrep := fifo_cycle (e := e) hv.fifo (by simp [hread])
    rw [hread, if_neg Bool.false_ne_true] at hrep
    cases he : (s.cycle e).fifo.empty with
    | false => rfl
    | true =>
      have hnil := (List.append_eq_nil_iff.mp (hrep.empty_iff.mp he)).1
      rw [hv.fifo.empty_iff.mpr hnil] at hne
      cases hne
  cases w with
  | request => exact hstate.trans ha
  | respond =>
    obtain ⟨hs, hne, hc⟩ := ha
    refine ⟨hd.trans hs, hfifo hne, ?_⟩
    have hresp : s.pipeOut.respRdy (s.outWires e) = false := hout.1.1.1.1
    show (s.chk.step _ _ (s.pipeOut.respRdy (s.outWires e))).out ≠ []
    rw [hresp]
    exact (step_take hc _ _).2
  | accept => exact ⟨hd.trans ha.1, hfifo ha.2⟩
  | present =>
    show (s.realign.step _ (passed s.pipeOut (s.outWires e))).out ≠ []
    rw [hr]
    exact ha
  | hdr => exact hm ha

/-- A hungry pipeline that gets no line stays hungry. -/
theorem Hungry.next {l cur rem : List RxLine} {begun rest : List IpPacket} {h : List HdrOut}
    {d : List (Beat (BitVec 8))} (hs : s.Hungry) (hv : Inv pkts s l cur rem begun rest h d)
    (hin : inMoves s.pipeIn (s.inWires e) = false) : (s.cycle e).Hungry := by
  have hstate : (s.cycle e).pipeIn.chksumState = s.pipeIn.chksumState := still_in hv.input hin
  have hl : l = [] := hv.fifo.empty_iff.mp hs.2
  have hacc : s.pipeIn.accept (s.inWires e) = false := (Bool.or_eq_false_iff.mp hin).1
  have hwr : s.pipeIn.fifoWr (s.inWires e) = none := by
    simp only [FormatPipeIn.fifoWr, FormatPipeIn.dataOut, hacc]
    split <;> simp
  refine ⟨by rw [hstate]; exact hs.1, ?_⟩
  have hrep := fifo_cycle (e := e) hv.fifo ?_
  · rw [hl, hwr] at hrep
    refine hrep.empty_iff.mpr ?_
    cases s.pipeOut.rdReq (s.outWires e) <;> rfl
  · intro hr
    have hE : (s.outWires e).fifoEmpty = true := hs.2
    cases hst : s.pipeOut.dataState <;>
      simp [FormatPipeOut.rdReq, FormatPipeOut.both, hst, hE] at hr

/-- Short of the end, one of the halves gets on when the awaited event comes. -/
theorem moves {l cur rem : List RxLine} {begun rest : List IpPacket} {h : List HdrOut}
    {d : List (Beat (BitVec 8))} (hv : Inv pkts s l cur rem begun rest h d) (he : Open e)
    (hg : ¬ Delivered pkts s) (hev : Given e (awaits s)) :
    inMoves s.pipeIn (s.inWires e) = true ∨
      outMoves s.pipeOut (s.outWires e) s.realign (e.present && e.dataRdy) = true := by
  rw [← outGets_eq _ _ he.2.1]
  unfold awaits at hev
  by_cases hout : s.realign.out ≠ []
  · rw [if_pos hout] at hev
    exact gets_on (w := .present) hv hout ⟨hev, he.2.2⟩
  rw [if_neg hout] at hev
  by_cases hfirst : s.pipeIn.chksumState = .ipHdrFirst
  · rw [if_pos hfirst] at hev
    exact gets_on (w := .request) hv hfirst hev
  rw [if_neg hfirst] at hev
  rcases waits hv with ⟨w, hw⟩ | hd | ⟨hh, hdone⟩
  · cases w with
    | request => exact absurd hw hfirst
    | respond =>
      rw [if_pos hw.1] at hev
      exact gets_on (w := .respond) hv hw hev
    | accept =>
      rw [if_neg (by simp [hw.1])] at hev
      exact gets_on (w := .accept) hv hw hev
    | present => exact absurd hw hout
    | hdr => exact gets_on (w := .hdr) hv hw he.2.1
  · exact .inr (hd.gets_on e)
  · have hsrc : s.src ≠ [] := fun hsrc => hg (hdone hsrc)
    have hval : (s.inWires e).srcVal = true := by simp [inWires, he.1, hsrc]
    left
    simp [inMoves, hh.accepts hv hval rfl rfl]

/-- A cycle with the outputs ready and the next line offered gets on, or waits for a unit. -/
theorem work_cycle (hgood : Good pkts s) (he : Open e) (hg : ¬ Delivered pkts s) :
    work (s.cycle e) < work s ∨
      work (s.cycle e) ≤ work s ∧ awaits (s.cycle e) = awaits s ∧ ¬ Given e (awaits s) := by
  obtain ⟨l, cur, rem, begun, rest, h, d, hv⟩ := hgood
  have hle := work_le (e := e) hv
  rw [outGets_eq _ _ he.2.1] at hle
  cases hin : inMoves s.pipeIn (s.inWires e) with
  | true =>
    left
    simp only [hin, if_true] at hle
    omega
  | false =>
    cases hout : outMoves s.pipeOut (s.outWires e) s.realign (e.present && e.dataRdy) with
    | true =>
      left
      simp only [hout, if_true] at hle
      omega
    | false =>
      right
      have hs := still_in hv.input hin
      obtain ⟨hd, hr, -⟩ := still_out hv.output ((outGets_eq _ _ he.2.1).trans hout)
      refine ⟨by omega, ?_, ?_⟩
      · show (if (s.realign.step _ (passed s.pipeOut (s.outWires e))).out ≠ [] then _
          else if (s.pipeIn.next (s.inWires e)).chksumState = _ then _
          else if (s.pipeOut.next (s.outWires e)).dataState = _ then _ else _) = _
        rw [hs, hd, hr]
        rfl
      · intro hev
        rcases moves hv he hg hev with hm | hm
        · rw [hin] at hm
          cases hm
        · rw [hout] at hm
          cases hm

/-! ### Whole runs -/

/-- All runs from reset. -/
theorem good_of_reach (h : Reach (Init pkts) step Free s) : Good pkts s := by
  refine h.invariant (fun _ => good_init) ?_
  rintro s e s' ⟨l, cur, rem, begun, rest, h, d, hv⟩ - hstep
  cases hstep
  exact inv_cycle hv

theorem Good.prefixes (h : Good pkts s) : s.hdrs <+: hdrsOf pkts ∧ s.data <+: dataOf pkts := by
  obtain ⟨l, cur, rem, begun, rest, h, d, hv⟩ := h
  exact ⟨⟨_, hv.hdrs⟩, ⟨_, hv.data⟩⟩

/-- Once the outputs are ready, the next line is offered and the two units go on, all lines are
accepted and everything owed is delivered. -/
theorem Good.delivers (h : Good pkts s) {sched : Nat → PipeEnv} (ho : ∀ n, Open (sched n))
    (hf : Fair Given sched) : ∃ n, Delivered pkts (exec cycle s sched n) := by
  have hkeep : ∀ s e, Good pkts s → Open e → Good pkts (s.cycle e) := by
    rintro s e ⟨l, cur, rem, begun, rest, h, d, hv⟩ -
    exact inv_cycle hv
  exact exec_reaches work awaits hkeep (fun _ _ hg he hn => work_cycle hg he hn) h ho hf

end PipeSystem

end TcpHw
