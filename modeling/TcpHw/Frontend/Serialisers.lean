import TcpHw.Frontend.TcpToStream

/-!
# Serialisers keep header and payload together

`ip_to_ethstream` and `tcp_to_stream` put a header in front of the lines of a packet and send what
belongs to the packet on another port. Both take a packet only when both of their machines have left
the one before, so that at any time the two ports have finished the same packets and are at most in
the same packet.
-/
namespace TcpHw

open Bytes Framing Machines Trace

set_option autoImplicit false

/-! ### `ip_to_ethstream` -/

/-- A packet for `ip_to_ethstream` with the bytes of its payload. -/
structure EthPayload where
  pkt : EthPkt
  payload : List (BitVec 8)
  carried : Carries pkt.lines payload

namespace EthPayload

variable (x : EthPayload)

def lines : List DataLine := x.pkt.lines

/-- What goes out on the header port. -/
def hdr : EthHdr × BitVec 16 × Timestamp :=
  (⟨ipToMac (IpPktHdr.cast x.pkt.hdr).destAddr, ipToMac (IpPktHdr.cast x.pkt.hdr).sourceAddr, 0x0800⟩,
    (IpPktHdr.cast x.pkt.hdr).totLen, x.pkt.timestamp)

/-- What goes out on the data port: the header and the payload. -/
def bytes : List (BitVec 8) := lineBytes x.pkt.hdr ++ x.payload

theorem read_frame : x.pkt.frame.map (fun l => l.line.read) = beats 64 x.bytes := by
  have hc := ethLines_carries x.pkt.timestamp x.carried x.pkt.hdr
  have hread := hc.2
  rw [List.map_map] at hread
  exact hread

def wires (e : SerialEnv (BitVec (8 * 20) × Timestamp)) (q : List EthPayload × List DataLine) :
    EthWires where
  hdrVal := e.offerHdr && !q.1.isEmpty
  hdr := (onBus e.offerHdr e.hdrBus (q.1.map fun x => (x.pkt.hdr, x.pkt.timestamp))).1
  timestamp := (onBus e.offerHdr e.hdrBus (q.1.map fun x => (x.pkt.hdr, x.pkt.timestamp))).2
  dataVal := e.offerData && !q.2.isEmpty
  line := onBus e.offerData e.lineBus q.2
  hdrRdy := e.hdrRdy
  dataRdy := e.dataRdy

end EthPayload

namespace IpToEthstream

def hdrGiven (r : IpToEthstream) (i : EthWires) : List (EthHdr × BitVec 16 × Timestamp) :=
  if r.dstHdrVal && i.hdrRdy then [r.hdrOut] else []

def dataGiven (r : IpToEthstream) (i : EthWires) : List (Beat (BitVec 8)) :=
  if r.gives i then [(r.dataOut i).line.read] else []

end IpToEthstream

def ethStream : PairMachine IpToEthstream EthPayload DataLine EthWires
    (SerialEnv (BitVec (8 * 20) × Timestamp)) (EthHdr × BitVec 16 × Timestamp) (Beat (BitVec 8)) where
  wires := EthPayload.wires
  next := IpToEthstream.next
  takesHdr := IpToEthstream.begins
  takesData := IpToEthstream.takesData
  hdrGiven := IpToEthstream.hdrGiven
  dataGiven := IpToEthstream.dataGiven

def ethKind : LineKind EthPayload DataLine (EthHdr × BitVec 16 × Timestamp) (Beat (BitVec 8)) where
  lines := EthPayload.lines
  hdrs x := [x.hdr]
  data x := beats 64 x.bytes

namespace IpToEthstream

def Idle (r : IpToEthstream) : Prop :=
  r.dataState = .ready ∧ r.hdrState = .waiting ∧ r.lookup.state = .ready

/-- The header of the packet in hand is looked up or kept, or was given out. -/
def HdrOwes (r : IpToEthstream) (h : List (EthHdr × BitVec 16 × Timestamp)) : Prop :=
  r.hdrState = .ethHdrWait ∧ r.lookup.state = .output ∧
      h = [(r.lookup.outHdr, r.ipHdr.totLen, r.timestamp)] ∨
    r.hdrState = .hdrOutput ∧ r.lookup.state = .ready ∧
      h = [(r.outboundEthHdr, r.ipHdr.totLen, r.timestamp)] ∨
    r.hdrState = .hdrWaitTxFin ∧ r.lookup.state = .ready ∧ h = []

/-- The lines `cur` of the packet in hand are still to come, and `h` and `d` are owed for it. -/
structure Phase (r : IpToEthstream) (cur : List DataLine)
    (h : List (EthHdr × BitVec 16 × Timestamp)) (d : List (Beat (BitVec 8))) : Prop where
  busy : r.dataState ≠ .ready
  hdr : HdrOwes r h
  data : ∃ es, Owes r [] [] cur es ∧ d = es.map fun l => l.line.read

def awaits (r : IpToEthstream) : SerialEvent :=
  match r.dataState with
  | .ready => .hdr
  | .output => .data
  | .outputLast => .dataRdy
  | .waitTxFin => .hdrRdy

def phases : PairPhases IpToEthstream DataLine (EthHdr × BitVec 16 × Timestamp) (Beat (BitVec 8))
    SerialEvent where
  idle := Idle
  inside := Phase
  left r := hdrLeft r + unfinished r
  most := 3
  awaits := awaits

/-! ### One packet -/

variable {r : IpToEthstream} {i : EthWires} {cur tail : List DataLine}
  {h : List (EthHdr × BitVec 16 × Timestamp)} {d : List (Beat (BitVec 8))} {es : List RxLine}

theorem begins_eq_false (hs : r.dataState ≠ .ready) : r.begins i = false := by
  simp [begins, srcHdrRdy, hs]

/-- The header port of the source is not looked at inside a packet. -/
theorem next_hdrVal (hs : r.dataState ≠ .ready) : r.next { i with hdrVal := false } = r.next i := by
  have hb := begins_eq_false (i := i) hs
  have hb' := begins_eq_false (i := { i with hdrVal := false }) hs
  simp only [next, dataNext, hdrNext, lookupReq, hb, hb']
  rfl

theorem HdrOwes.step (hh : HdrOwes r h) (hne : r.dataState ≠ .ready) (hf : r.finishes = false) :
    ∃ h', r.hdrGiven i ++ h' = h ∧ HdrOwes (r.next i) h' := by
  have hb := begins_eq_false (i := i) hne
  have hlen : (r.next i).ipHdr = r.ipHdr := by simp [next, hb]
  have htime : (r.next i).timestamp = r.timestamp := by simp [next, hne]
  rcases hh with ⟨hs, hl, rfl⟩ | ⟨hs, hl, rfl⟩ | ⟨hs, hl, rfl⟩
  · have hout : r.lookup.outVal = true := by simp [EthHdrAssembler.outVal, hl]
    have hlook : (r.next i).lookup.state = .ready := by simp [next, hs, EthHdrAssembler.next, hl]
    cases hr : i.hdrRdy with
    | true =>
      refine ⟨[], by simp [hdrGiven, dstHdrVal, hdrOut, hs, hout, hr], .inr (.inr ⟨?_, hlook, rfl⟩)⟩
      simp [next, hdrNext, hs, hout, hr]
    | false =>
      refine ⟨[(r.lookup.outHdr, r.ipHdr.totLen, r.timestamp)], by simp [hdrGiven, hr],
        .inr (.inl ⟨?_, hlook, ?_⟩)⟩
      · simp [next, hdrNext, hs, hout, hr]
      · rw [hlen, htime]
        simp [next, hs, hout]
  · have hlook : (r.next i).lookup.state = .ready := by
      simp [next, lookupReq, hs, EthHdrAssembler.next, hl]
    cases hr : i.hdrRdy with
    | true =>
      refine ⟨[], by simp [hdrGiven, dstHdrVal, hdrOut, hs, hr], .inr (.inr ⟨?_, hlook, rfl⟩)⟩
      simp [next, hdrNext, hs, hr]
    | false =>
      refine ⟨[(r.outboundEthHdr, r.ipHdr.totLen, r.timestamp)], by simp [hdrGiven, hr],
        .inr (.inl ⟨?_, hlook, ?_⟩)⟩
      · simp [next, hdrNext, hs, hr]
      · rw [hlen, htime]
        simp [next, hs]
  · have hd : r.dataState ≠ .waitTxFin := by simpa [finishes, hs] using hf
    refine ⟨[], by simp [hdrGiven, dstHdrVal, hs], .inr (.inr ⟨?_, ?_, rfl⟩)⟩
    · simp [next, hdrNext, hs, hd]
    · simp [next, lookupReq, hs, EthHdrAssembler.next, hl]

theorem HdrOwes.finished (hh : HdrOwes r h) (hf : r.finishes = true) :
    h = [] ∧ r.hdrGiven i = [] := by
  obtain ⟨-, hs⟩ : r.dataState = .waitTxFin ∧ r.hdrState = .hdrWaitTxFin := by
    simpa [finishes] using hf
  refine ⟨?_, by simp [hdrGiven, dstHdrVal, hs]⟩
  rcases hh with ⟨ho, -⟩ | ⟨ho, -⟩ | ⟨-, -, hnil⟩
  · cases hs.symm.trans ho
  · cases hs.symm.trans ho
  · exact hnil

/-- A packet is left only where both ports have finished it. -/
theorem next_not_ready (hne : r.dataState ≠ .ready) (hf : r.finishes = false) :
    (r.next i).dataState ≠ .ready := by
  show r.dataNext i ≠ .ready
  cases hs : r.dataState with
  | ready => exact absurd hs hne
  | output =>
    simp only [dataNext, hs]
    split_ifs <;> decide
  | outputLast =>
    simp only [dataNext, hs]
    split_ifs <;> decide
  | waitTxFin =>
    have hw : r.hdrState ≠ .hdrWaitTxFin := by simpa [finishes, hs] using hf
    simp [dataNext, hs, hw]

/-- While lines are taken, some of the packet are to come. -/
theorem Owes.lines_ne_nil (ho : Owes r [] [] cur es) (hs : r.dataState = .output) : cur ≠ [] := by
  cases ho with
  | output rest _ _ hr _ hd =>
    obtain ⟨bs, hc⟩ := hr
    rw [hd]
    simpa using hc.ne_nil
  | ready ho | outputLast ho | waitTxFin ho =>
    rw [hs] at ho
    cases ho

theorem Phase.advances (hp : Phase r cur h d)
    (hx : i.dataVal = true → ∃ t, cur ++ tail = i.line :: t) :
    ethStream.Advances phases r i cur tail h d := by
  obtain ⟨hne, hh, es, ho, rfl⟩ := hp
  have hread : r.takesData i = true → ∃ ds, cur = i.line :: ds := by
    intro ht
    obtain ⟨hv, hs, -⟩ : i.dataVal = true ∧ r.dataState = .output ∧ i.dataRdy = true := by
      simpa [takesData, srcDataRdy] using ht
    exact first_of_append (ho.lines_ne_nil hs) (hx hv)
  obtain ⟨howes, hline⟩ := ho.moves (i := { i with hdrVal := false }) (by simp) hread
  have howes : Owes (r.next i) [] [] (if r.takesData i then cur.tail else cur)
      (if r.gives i then es.tail else es) := by
    rw [next_hdrVal hne, begins_eq_false hne] at howes
    exact howes
  have hcur : (if r.takesData i then (cur ++ tail).tail else cur ++ tail) =
      (if r.takesData i then cur.tail else cur) ++ tail := by
    cases ht : r.takesData i with
    | false => rfl
    | true =>
      obtain ⟨ds, rfl⟩ := hread ht
      rfl
  have hdata : r.dataGiven i ++ (if r.gives i then es.tail else es).map (fun l => l.line.read) =
      es.map fun l => l.line.read := by
    cases hg : r.gives i with
    | false => simp [dataGiven, hg]
    | true =>
      obtain ⟨es', rfl⟩ := hline hg
      simp [dataGiven, hg]
      rfl
  cases hf : r.finishes with
  | false =>
    obtain ⟨h', hh', hm⟩ := hh.step (i := i) hne hf
    exact ⟨_, h', _, hcur, hh', hdata, .inl ⟨next_not_ready hne hf, hm, _, howes, rfl⟩⟩
  | true =>
    obtain ⟨rfl, hgiven⟩ := hh.finished (i := i) hf
    have hs : (r.next i).dataState = .ready := by
      obtain ⟨hw, hw'⟩ : r.dataState = .waitTxFin ∧ r.hdrState = .hdrWaitTxFin := by
        simpa [finishes] using hf
      simp [next, dataNext, hw, hw']
    cases howes with
    | ready _ hw hl _ hd he =>
      have hgiven' : ethStream.hdrGiven r i = [] := hgiven
      refine ⟨_, [], _, hcur, by rw [hgiven', List.nil_append], hdata,
        .inr ⟨⟨hs, hw, hl⟩, ?_, rfl, ?_⟩⟩
      · exact hd
      · rw [he]
        rfl
    | output rest ho | outputLast ho | waitTxFin ho =>
      rw [hs] at ho
      cases ho

/-! ### The machine handles packets -/

/-- The header of the packet was taken. -/
theorem begins_phase {x : EthPayload} (hr : Idle r) (hb : r.begins i = true)
    (hhdr : i.hdr = x.pkt.hdr) (htime : i.timestamp = x.pkt.timestamp) :
    Phase (r.next i) x.lines [x.hdr] (beats 64 x.bytes) := by
  obtain ⟨hs, hw, hl⟩ := hr
  have hpay : (IpPktHdr.cast x.pkt.hdr).totLen ≠ 20#16 := x.pkt.hasPayload
  have hdata : (r.next i).dataState = .output := by simp [next, dataNext, hs, hb, hhdr, hpay]
  have hwait : (r.next i).hdrState = .ethHdrWait := by simp [next, hdrNext, hw, hb]
  have hlook : (r.next i).lookup = ⟨.output, (IpPktHdr.cast x.pkt.hdr).sourceAddr,
      (IpPktHdr.cast x.pkt.hdr).destAddr⟩ := by
    simp [next, lookupReq, hw, hb, EthHdrAssembler.next, hl, hhdr]
  have hip : (r.next i).ipHdr = IpPktHdr.cast x.pkt.hdr := by simp [next, hb, hhdr]
  have htime' : (r.next i).timestamp = x.pkt.timestamp := by simp [next, hs, htime]
  have hsave : (r.next i).save = x.pkt.hdr := by simp [next, hb, hhdr]
  have hphase : HdrPhase (r.next i) := .inl ⟨hwait, by rw [hlook]⟩
  refine ⟨by simp [hdata], .inl ⟨hwait, by rw [hlook], ?_⟩, x.pkt.frame, ?_, x.read_frame.symm⟩
  · rw [hlook, hip, htime']
    rfl
  · refine .output x.lines hdata hphase x.pkt.carried rfl (by simp) ?_
    rw [hsave, htime']
    simp [EthPkt.frame, EthPayload.lines]

/-- Where nothing moves, the data machine stays in its state. -/
theorem awaits_still (hm : ethStream.moves phases r i = false) : (r.next i).awaits = r.awaits := by
  obtain ⟨hth, htd, -, hg, hl⟩ := PairMachine.moves_eq_false hm
  have hth : r.begins i = false := hth
  have htd : r.takesData i = false := htd
  have hl : hdrLeft r + unfinished r ≤ hdrLeft (r.next i) + unfinished (r.next i) := hl
  have hgives : r.gives i = false := by simpa [ethStream, dataGiven] using hg
  have hst : (r.next i).dataState = r.dataState := by
    show r.dataNext i = _
    cases hst : r.dataState with
    | ready => simp [dataNext, hst, hth]
    | output => simp [dataNext, hst, htd]
    | outputLast =>
      have hr : i.dataRdy = false := by simpa [gives, dstDataVal, hst] using hgives
      simp [dataNext, hst, hr]
    | waitTxFin =>
      have hh : r.hdrState ≠ .hdrWaitTxFin := by
        intro hh
        simp [hdrLeft, unfinished, next, dataNext, hdrNext, hst, hh] at hl
      simp [dataNext, hst, hh]
  rw [awaits, hst]
  rfl

/-- The header machine gets on when the header port is ready. -/
theorem HdrOwes.stirs (hh : HdrOwes r h) (hs : r.dataState = .waitTxFin) (hr : i.hdrRdy = true) :
    ethStream.moves phases r i = true := by
  rcases hh with ⟨ho, hl, -⟩ | ⟨ho, -⟩ | ⟨ho, -⟩
  · simp [PairMachine.moves, ethStream, hdrGiven, dstHdrVal, ho, EthHdrAssembler.outVal, hl, hr]
  · simp [PairMachine.moves, ethStream, hdrGiven, dstHdrVal, ho, hr]
  · simp [PairMachine.moves, ethStream, phases, hdrLeft, unfinished, next, dataNext, hdrNext, hs, ho]

/-- Inside a packet something moves when the awaited event comes. -/
theorem Phase.stirs {e : SerialEnv (BitVec (8 * 20) × Timestamp)} {q : List EthPayload}
    (hp : Phase r cur h d) (hg : e.Given r.awaits) :
    ethStream.moves phases r (EthPayload.wires e (q, cur ++ tail)) = true := by
  obtain ⟨hne, hh, es, ho, -⟩ := hp
  cases hst : r.dataState with
  | ready => exact absurd hst hne
  | output =>
    obtain ⟨hv, hr⟩ : e.offerData = true ∧ e.dataRdy = true := by
      simpa [awaits, hst, SerialEnv.Given] using hg
    have hcur : cur ++ tail ≠ [] :=
      fun hnil => ho.lines_ne_nil hst (List.append_eq_nil_iff.mp hnil).1
    have ht : ethStream.takesData r (EthPayload.wires e (q, cur ++ tail)) = true := by
      simp only [ethStream, takesData, srcDataRdy, hst, EthPayload.wires, hv, hr]
      simpa using hcur
    rw [PairMachine.moves, ht]
    simp
  | outputLast =>
    have hr : e.dataRdy = true := by simpa [awaits, hst, SerialEnv.Given] using hg
    simp [PairMachine.moves, ethStream, dataGiven, gives, dstDataVal, hst, EthPayload.wires, hr]
  | waitTxFin =>
    have hr : e.hdrRdy = true := by simpa [awaits, hst, SerialEnv.Given] using hg
    exact hh.stirs hst hr

theorem handles :
    PairHandles ethStream ethKind phases SerialEnv.Given fun _ => True where
  left_most r := by
    have hh : hdrLeft r ≤ 2 := by
      unfold hdrLeft
      split <;> omega
    have hu : unfinished r ≤ 1 := by
      unfold unfinished
      split <;> omega
    show hdrLeft r + unfinished r ≤ 3
    omega
  takesHdr_ne r e q ht := by
    have hv : (e.offerHdr && !q.1.isEmpty) = true := (Bool.and_eq_true_iff.mp ht).1
    simpa using (Bool.and_eq_true_iff.mp hv).2
  takesData_ne r e q ht := by
    have hv : (e.offerData && !q.2.isEmpty) = true := (Bool.and_eq_true_iff.mp ht).1
    simpa using (Bool.and_eq_true_iff.mp hv).2
  idle_gives r i hr := by
    simp [ethStream, takesData, srcDataRdy, hdrGiven, dstHdrVal, dataGiven, gives, dstDataVal, hr.1,
      hr.2.1]
  idle_still r e q hr ht := by
    obtain ⟨hs, hw, hl⟩ := hr
    have hb : r.begins (EthPayload.wires e q) = false := ht
    have hs' : (r.next (EthPayload.wires e q)).dataState = .ready := by simp [next, dataNext, hs, hb]
    have hw' : (r.next (EthPayload.wires e q)).hdrState = .waiting := by
      simp [next, hdrNext, hw, hb]
    refine ⟨⟨hs', hw', ?_⟩, ?_⟩
    · simp [ethStream, next, lookupReq, hb, EthHdrAssembler.next, hl]
    · simp [phases, ethStream, hdrLeft, unfinished, hs', hw']
  idle_stirs r e q hr hne hg := by
    have ho : e.offerHdr = true := by simpa [phases, awaits, hr.1, SerialEnv.Given] using hg
    simpa [ethStream, begins, srcHdrRdy, hr.1, EthHdrAssembler.reqRdy, hr.2.2, EthPayload.wires, ho]
      using hne
  begins x q tail r e _ hr ht := by
    have hv : (e.offerHdr && !((x :: q).map fun x => (x.pkt.hdr, x.pkt.timestamp)).isEmpty) = true :=
      (Bool.and_eq_true_iff.mp ht).1
    obtain ⟨t, hreq⟩ : ∃ t, (x :: q).map (fun x => (x.pkt.hdr, x.pkt.timestamp)) =
        onBus e.offerHdr e.hdrBus ((x :: q).map fun x => (x.pkt.hdr, x.pkt.timestamp)) :: t :=
      onBus_of_val hv
    rw [List.map_cons, List.cons.injEq] at hreq
    exact begins_phase hr ht (congrArg Prod.fst hreq.1).symm (congrArg Prod.snd hreq.1).symm
  inside_hdr r cur h d i hp := begins_eq_false hp.busy
  advances r cur h d e q tail hp := hp.advances fun hv => onBus_of_val hv
  left_inside r cur h d i hp := by
    obtain ⟨hne, -, es, ho, -⟩ := hp
    have hle := ho.work_le i
    rw [begins_eq_false hne, Bool.toNat_false] at hle
    show hdrLeft (r.next i) + unfinished (r.next i) ≤ hdrLeft r + unfinished r
    omega
  stirs r cur h d e q tail hp hg := hp.stirs hg
  awaits_still r i hm := awaits_still hm

end IpToEthstream

/-! ### Header and payload -/

section together

variable {C X L W A H D K : Type}

/-- The two machines are at the same packet: both wait for the next one, or both work on the packet
`x`, for which a part of the headers and a part of the lines went out. The later packets are not
touched. -/
inductive Together (u : LineKind X L H D) (hdrWaits dataWaits : C → Prop) (xs : List X)
    (s : System C (List X × List L) H D) : Prop
  | waiting (pre post : List X) (hxs : xs = pre ++ post) (hh : hdrWaits s.ctrl)
      (hd : dataWaits s.ctrl) (hsrc : s.src = (post, post.flatMap u.lines))
      (hhdrs : s.hdrs = pre.flatMap u.hdrs) (hdata : s.data = pre.flatMap u.data)
  | working (pre : List X) (x : X) (post : List X) (cur : List L) (hxs : xs = pre ++ x :: post)
      (hh : ¬ hdrWaits s.ctrl) (hd : ¬ dataWaits s.ctrl)
      (hsrc : s.src = (post, cur ++ post.flatMap u.lines))
      (hpaid : Paid u.pairs pre (x :: post) s)

/-- The machines stay together in a run, and they get to the end of the packets unless the
surroundings stop for ever. -/
structure KeepsTogether (m : PairMachine C X L W A H D) (u : LineKind X L H D)
    (given : A → K → Prop) (hdrWaits dataWaits : C → Prop) (xs : List X)
    (s : System C (List X × List L) H D) : Prop where
  together : Together u hdrWaits dataWaits xs s
  ends : ∀ sched, Fair given sched → ∃ n,
    (exec m.machine.cycle s sched n).hdrs = xs.flatMap u.hdrs ∧
      (exec m.machine.cycle s sched n).data = xs.flatMap u.data

variable {m : PairMachine C X L W A H D} {u : LineKind X L H D} {p : PairPhases C L H D K}
  {given : A → K → Prop} {hdrWaits dataWaits : C → Prop} {xs : List X}
  {s : System C (List X × List L) H D}

theorem together_of_inRun (hidle : ∀ c, p.idle c → hdrWaits c ∧ dataWaits c)
    (hin : ∀ c cur h d, p.inside c cur h d → ¬ hdrWaits c ∧ ¬ dataWaits c)
    (hi : InRun u.pairs p.phases xs s) : Together u hdrWaits dataWaits xs s := by
  have hwait : ∀ {pre post}, xs = pre ++ post → Between u.pairs p.phases pre post s →
      Together u hdrWaits dataWaits xs s := by
    rintro pre post hxs ⟨hr, hsrc, hh, hd⟩
    rw [loadAll_pairs] at hsrc
    exact .waiting pre post hxs (hidle _ hr).1 (hidle _ hr).2 hsrc hh hd
  cases hi with
  | done hd => exact hwait (List.append_nil xs).symm hd
  | atUnit pre x post hxs hi hn =>
    have hpaid := hi.paid
    cases hi with
    | before hr hsrc hh hd => exact hwait hxs ⟨hr, hsrc, hh, hd⟩
    | behind hr hsrc hh hd => exact absurd ⟨hr, hsrc, hh, hd⟩ hn
    | phase h d hp =>
      obtain ⟨hq, cur, hcur, hp⟩ := hp
      rw [loadAll_pairs] at hq hcur
      exact .working pre x post cur hxs (hin _ _ _ _ hp).1 (hin _ _ _ _ hp).2 (Prod.ext hq hcur)
        hpaid

/-- All packets are at the source, and nothing was given out. -/
def SerialInit (u : LineKind X L H D) (idle : C → Prop) (xs : List X)
    (s : System C (List X × List L) H D) : Prop :=
  idle s.ctrl ∧ s.src = (xs, xs.flatMap u.lines) ∧ s.hdrs = [] ∧ s.data = []

theorem keepsTogether_of_handles (hm : PairHandles m u p given fun _ => True)
    (hidle : ∀ c, p.idle c → hdrWaits c ∧ dataWaits c)
    (hin : ∀ c cur h d, p.inside c cur h d → ¬ hdrWaits c ∧ ¬ dataWaits c)
    (h : Reach (SerialInit u p.idle xs) m.machine.step Free s) :
    KeepsTogether m u given hdrWaits dataWaits xs s := by
  have hinit : ∀ s, SerialInit u p.idle xs s → Between u.pairs p.phases [] xs s := by
    rintro s ⟨hr, hsrc, hh, hd⟩
    exact ⟨hr, hsrc.trans (loadAll_pairs u xs).symm, hh, hd⟩
  have hx : ∀ x ∈ xs, (fun _ : X => True) x := fun _ _ => trivial
  have hrun := inRun_of_reach hm.handles hx (h.of_init hinit)
  refine ⟨together_of_inRun hidle hin hrun, fun sched hf => ?_⟩
  obtain ⟨n, -, -, hh, hd⟩ := hrun.ends hm.handles hx hf
  exact ⟨n, hh, hd⟩

end together

def IpToEthstream.hdrWaits (r : IpToEthstream) : Prop := r.hdrState = .waiting

def IpToEthstream.dataWaits (r : IpToEthstream) : Prop := r.dataState = .ready

def TcpToStream.hdrWaits (r : TcpToStream) : Prop := r.hdrState = .waiting

def TcpToStream.dataWaits (r : TcpToStream) : Prop := r.dataState = .ready

theorem IpToEthstream.HdrOwes.not_waiting {r : IpToEthstream}
    {h : List (EthHdr × BitVec 16 × Timestamp)} (hh : HdrOwes r h) : ¬ r.hdrWaits := by
  rcases hh with ⟨hs, -⟩ | ⟨hs, -⟩ | ⟨hs, -⟩ <;> simp [IpToEthstream.hdrWaits, hs]

theorem TcpToStream.Phase.not_waiting {r : TcpToStream} {cur : List DataLine} {h : List StreamHdr}
    {d : List (Beat (BitVec 8))} (hp : Phase r cur h d) : ¬ r.hdrWaits := by
  have hh : HdrOwes r h := by
    cases hp with
    | output _ _ hh | outputLast _ _ hh | waitTxFin _ hh => exact hh
  rcases hh with ⟨hs, -⟩ | ⟨hs, -⟩ <;> simp [TcpToStream.hdrWaits, hs]

/-- Packet by packet and in order, the header bytes and the payload bytes come out, in lines of which
exactly the final one is marked last and padded; the header goes out with them, and the two machines
are never in different packets. -/
theorem serialisers_keep_together :
    (∀ (xs : List EthPayload) s,
      Reach (SerialInit ethKind IpToEthstream.Idle xs) ethStream.machine.step Free s →
      KeepsTogether ethStream ethKind SerialEnv.Given IpToEthstream.hdrWaits
        IpToEthstream.dataWaits xs s) ∧
    (∀ (xs : List StreamPkt) s,
      Reach (SerialInit streamKind TcpToStream.Idle xs) tcpStream.machine.step Free s →
      KeepsTogether tcpStream streamKind SerialEnv.Given TcpToStream.hdrWaits
        TcpToStream.dataWaits xs s) := by
  refine ⟨fun xs s h => ?_, fun xs s h => ?_⟩
  · apply keepsTogether_of_handles IpToEthstream.handles ?_ ?_ h
    · rintro r ⟨hs, hw, -⟩
      exact ⟨hw, hs⟩
    · intro r cur h d hp
      exact ⟨hp.hdr.not_waiting, hp.busy⟩
  · apply keepsTogether_of_handles TcpToStream.handles ?_ ?_ h
    · rintro r ⟨hs, hw⟩
      exact ⟨hw, hs⟩
    · intro r cur h d hp
      exact ⟨hp.not_waiting, hp.not_ready⟩

/-! ### Fixed packets -/

/-- The only line of a payload of one byte. -/
def byteLine : DataLine := ⟨0, 63, true⟩

theorem carries_byteLine : Carries [byteLine] [0] := ⟨by decide, by decide +kernel⟩

/-- A packet with the total length 21. -/
def bytePkt (time : Timestamp) : EthPayload where
  pkt := ⟨0x4500001500000000400600000a0000010a000002, [byteLine], time, ⟨_, carries_byteLine⟩,
    by decide +kernel⟩
  payload := [0]
  carried := carries_byteLine

/-- A packet without a payload. -/
def emptyPkt (port : BitVec 16) : StreamPkt where
  req := ⟨1, 2, 20, { (default : TcpPktHdr) with srcPort := port, rawDataOffset := 5 }⟩
  payload := []
  lines := []
  offset := rfl
  len := rfl
  carried := rfl

/-- A packet with a payload of one byte. -/
def oneBytePkt (port : BitVec 16) : StreamPkt where
  req := ⟨1, 2, 21, { (default : TcpPktHdr) with srcPort := port, rawDataOffset := 5 }⟩
  payload := [0]
  lines := [byteLine]
  offset := rfl
  len := rfl
  carried := carries_byteLine.2

/-- Everything is offered and taken. -/
def SerialEnv.calm {B : Type} [Inhabited B] : SerialEnv B := ⟨true, true, true, true, default, default⟩

def ethReset (xs : List EthPayload) : System IpToEthstream (List EthPayload × List DataLine)
    (EthHdr × BitVec 16 × Timestamp) (Beat (BitVec 8)) where
  ctrl := ⟨.ready, .waiting, 0, 0, IpPktHdr.cast 0, default, 0, ⟨.ready, 0, 0⟩⟩
  src := (xs, xs.flatMap EthPayload.lines)
  hdrs := []
  data := []

def streamReset (xs : List StreamPkt) : System TcpToStream (List StreamPkt × List DataLine)
    StreamHdr (Beat (BitVec 8)) where
  ctrl := ⟨.ready, .waiting, 0, 0, false, 0, 0, 0, 0, 0⟩
  src := (xs, xs.flatMap StreamPkt.lines)
  hdrs := []
  data := []

/-- Two packets after each other through each of the serialisers. -/
theorem serialisers_keep_together_two :
    (∃ s, Reach (SerialInit ethKind IpToEthstream.Idle [bytePkt 1, bytePkt 2])
        ethStream.machine.step Free s ∧
      s.hdrs.map (fun h => (h.2.1, h.2.2)) = [(21, 1), (21, 2)] ∧
      s.data.map (fun b => (b.bytes.length, b.last, b.padbytes)) =
        [(21, true, 43), (21, true, 43)] ∧
      KeepsTogether ethStream ethKind SerialEnv.Given IpToEthstream.hdrWaits
        IpToEthstream.dataWaits [bytePkt 1, bytePkt 2] s) ∧
    (∃ s, Reach (SerialInit streamKind TcpToStream.Idle [emptyPkt 1, oneBytePkt 2])
        tcpStream.machine.step Free s ∧
      s.hdrs.map StreamHdr.tcpLen = [20, 21] ∧
      s.data.map (fun b => (b.bytes.length, b.last, b.padbytes)) =
        [(20, true, 44), (21, true, 43)] ∧
      KeepsTogether tcpStream streamKind SerialEnv.Given TcpToStream.hdrWaits
        TcpToStream.dataWaits [emptyPkt 1, oneBytePkt 2] s) := by
  have heth : ∃ s, Reach (SerialInit ethKind IpToEthstream.Idle [bytePkt 1, bytePkt 2])
      ethStream.machine.step Free s ∧
        decide (s.hdrs.map (fun h => (h.2.1, h.2.2)) = [(21, 1), (21, 2)] ∧
          s.data.map (fun b => (b.bytes.length, b.last, b.padbytes)) =
            [(21, true, 43), (21, true, 43)]) = true :=
    Reach.exists_of_run (s := ethReset _) (List.replicate 8 .calm) ⟨⟨rfl, rfl, rfl⟩, rfl, rfl, rfl⟩
      (by decide +kernel)
  have hstream : ∃ s, Reach (SerialInit streamKind TcpToStream.Idle [emptyPkt 1, oneBytePkt 2])
      tcpStream.machine.step Free s ∧
        decide (s.hdrs.map StreamHdr.tcpLen = [20, 21] ∧
          s.data.map (fun b => (b.bytes.length, b.last, b.padbytes)) =
            [(20, true, 44), (21, true, 43)]) = true :=
    Reach.exists_of_run (s := streamReset _) (List.replicate 8 .calm) ⟨⟨rfl, rfl⟩, rfl, rfl, rfl⟩
      (by decide +kernel)
  obtain ⟨s, hs, hp⟩ := heth
  obtain ⟨t, ht, hq⟩ := hstream
  obtain ⟨hh, hd⟩ := of_decide_eq_true hp
  obtain ⟨hh', hd'⟩ := of_decide_eq_true hq
  exact ⟨⟨s, hs, hh, hd, serialisers_keep_together.1 _ s hs⟩,
    t, ht, hh', hd', serialisers_keep_together.2 _ t ht⟩

end TcpHw
