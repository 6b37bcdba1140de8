import TcpHw.Frontend.EthHdrToStream
import TcpHw.Lib.Machines

/-!
# Marks of the frames behind `eth_hdrtostream`

Header and payload leave in order whatever the inserter does, and the size is right on every line.
The start mark is a register that a line clears only if it leaves in `WRITE_IN`. If all lines of the
payload are in the inserter before the first line of the frame leaves, that line leaves in
`WAIT_OUT`, and every other line of the frame is marked as the start as well. In the runs where no
line but a last one leaves in `WAIT_OUT` with the start mark set, all marks are right.
-/
namespace TcpHw

open Bytes Framing Machines Trace

set_option autoImplicit false

/-! ### The surroundings -/

/-- What the surroundings and the inserter do in one cycle. -/
structure EthTxEnv where
  offerHdr : Bool
  offerData : Bool
  wrRdy : Bool
  emits : Bool
  dataRdy : Bool
  hdrBus : EthTxHdr
  lineBus : DataLine

/-- A header comes, a line comes and the inserter takes it, or the inserter has a line ready for the
port. -/
inductive EthTxEvent where
  | hdr | data | out
  deriving DecidableEq

namespace EthTxEnv

def wires (e : EthTxEnv) (q : List EthTxFrame × List DataLine) : EthTxWires where
  hdrVal := e.offerHdr && !q.1.isEmpty
  hdr := onBus e.offerHdr e.hdrBus (q.1.map EthTxFrame.hdr)
  dataVal := e.offerData && !q.2.isEmpty
  line := onBus e.offerData e.lineBus q.2
  wrRdy := e.wrRdy
  emits := e.emits
  dataRdy := e.dataRdy

/-- Everything happens in every cycle. -/
def calm : EthTxEnv := ⟨true, true, true, true, true, default, default⟩

/-- The inserter keeps what it has. -/
def keeps : EthTxEnv := { calm with emits := false }

def Given (e : EthTxEnv) : EthTxEvent → Prop
  | .hdr => e.offerHdr = true
  | .data => e.offerData = true ∧ e.wrRdy = true
  | .out => e.emits = true ∧ e.dataRdy = true

end EthTxEnv

/-! ### The inserter -/

namespace Inserter

variable {x : Inserter} {ins : List (BitVec 8)} {cur : List DataLine} {q : List (Beat (BitVec 8))}
  {b : Beat (BitVec 8)} {l : DataLine}

/-- With the lines `cur` of the packet to come, the lines `q` are still to leave. -/
inductive Pending (x : Inserter) (ins : List (BitVec 8)) (cur : List DataLine)
    (q : List (Beat (BitVec 8))) : Prop
  | taking (bs : List (BitVec 8)) (hc : Carries cur bs) (hm : ∀ b ∈ x.queue, b.last = false)
      (hq : q = x.queue ++ beats 64 (x.held.getD ins ++ bs))
  | complete (hc : cur = []) (hheld : x.held = none) (hm : MarkedEnd x.queue) (hq : q = x.queue)

/-- The inserter takes the next line of the packet. -/
theorem Pending.write (h : Pending x ins (l :: cur) q) : Pending (x.write ins l) ins cur q := by
  cases h with
  | complete hc => cases hc
  | taking bs hc hm hq =>
    subst hq
    have hread : l.bytes = l.read.bytes := rfl
    rcases hc.cons with ⟨hle, rfl, hlast, hpad, hbytes⟩ | ⟨hlong, hc', hlast, hbytes⟩
    · have hpos := hc.1
      have hcut : 64 - (64 - bs.length) = bs.length := by omega
      have hall : l.bytes = bs := by
        rw [hread, DataLine.read, readBeat, hlast, if_pos rfl, hpad, hcut, hbytes]
      have hx : x.write ins l = ⟨none, x.queue ++ beats 64 (x.held.getD ins ++ bs)⟩ := by
        rw [Inserter.write, if_pos hlast, hall]
      refine .complete rfl (by rw [hx]) ?_ (by rw [hx])
      rw [hx]
      refine MarkedEnd.append hm (markedEnd_beats (by decide) ?_)
      rw [List.length_append]
      omega
    · have hall : l.bytes = bs.take 64 := by
        rw [hread, DataLine.read, readBeat, hlast, if_neg Bool.false_ne_true, hbytes]
      have hx : x.write ins l = ⟨some (rest 64 (x.held.getD ins ++ bs.take 64)),
          x.queue ++ whole 64 (x.held.getD ins ++ bs.take 64)⟩ := by
        rw [Inserter.write, hlast, if_neg Bool.false_ne_true, hall]
      refine .taking (bs.drop 64) hc' ?_ ?_
      · rw [hx]
        intro b hb
        rcases List.mem_append.mp hb with hb | hb
        · exact hm b hb
        · exact last_of_mem_whole hb
      · have hmore : bs.drop 64 ≠ [] := List.ne_nil_of_length_pos hc'.1
        have hsplit : beats 64 (x.held.getD ins ++ bs.take 64 ++ bs.drop 64) =
            whole 64 (x.held.getD ins ++ bs.take 64) ++
              beats 64 (rest 64 (x.held.getD ins ++ bs.take 64) ++ bs.drop 64) :=
          beats_append (by decide) hmore
        rw [List.append_assoc, List.take_append_drop] at hsplit
        rw [hx, hsplit, List.append_assoc]
        rfl

/-- The next line leaves. -/
theorem Pending.pop (h : Pending x ins cur q) {t : List (Beat (BitVec 8))} (hx : x.queue = b :: t) :
    ∃ q', q = b :: q' ∧ (b.last = true → cur = [] ∧ q' = [] ∧ t = [] ∧ x.held = none) ∧
      (b.last = false → Pending { x with queue := t } ins cur q') := by
  cases h with
  | taking bs hc hm hq =>
    have hb : b.last = false := hm b (by rw [hx]; exact List.mem_cons_self)
    refine ⟨t ++ beats 64 (x.held.getD ins ++ bs), by rw [hq, hx]; rfl, ?_, fun _ => ?_⟩
    · intro hlast
      rw [hb] at hlast
      cases hlast
    · exact .taking bs hc (fun b' hb' => hm b' (by rw [hx]; exact List.mem_cons_of_mem b hb')) rfl
  | complete hc hheld hm hq =>
    rw [hx] at hm hq
    rcases hm with ⟨hlast, hnil⟩ | ⟨hlast, hm⟩
    · refine ⟨t, hq, fun _ => ⟨hc, hnil, hnil, hheld⟩, fun hno => ?_⟩
      rw [hlast] at hno
      cases hno
    · refine ⟨t, hq, fun hyes => ?_, fun _ => .complete hc hheld hm rfl⟩
      rw [hlast] at hyes
      cases hyes

/-- The last line of the packet is marked. -/
theorem Pending.last_iff (h : Pending x ins (l :: cur) q) : l.last = true ↔ cur = [] := by
  cases h with
  | complete hc => cases hc
  | taking bs hc =>
    rcases hc.cons with ⟨-, hnil, hlast, -⟩ | ⟨-, hc', hlast, -⟩
    · exact ⟨fun _ => hnil, fun _ => hlast⟩
    · rw [hlast]
      exact ⟨fun hno => (Bool.false_ne_true hno).elim, fun hnil => absurd hnil hc'.ne_nil⟩

theorem Pending.ne_nil (h : Pending x ins cur q) (hc : cur = []) : x.queue ≠ [] := by
  cases h with
  | taking bs hb => exact absurd hc hb.ne_nil
  | complete _ _ hm => exact hm.ne_nil

end Inserter

/-! ### The phases of a frame -/

/-- A line without its start mark. -/
abbrev SizedLine := Beat (BitVec 8) × Nat

namespace EthHdrToStream

variable {r : EthHdrToStream} {i : EthTxWires} {cur tail : List DataLine} {h : List Empty}
  {d : List SizedLine} {q : List (Beat (BitVec 8))} {b : Beat (BitVec 8)}

/-- Between two frames the inserter is empty. -/
def Idle (r : EthHdrToStream) : Prop := r.state = .ready ∧ r.inserter = ⟨none, []⟩

/-- Lines of the frame are to come exactly in `WRITE_IN`. -/
def Taking (r : EthHdrToStream) (cur : List DataLine) : Prop :=
  r.state = .writeIn ∧ cur ≠ [] ∨ r.state = .waitOut ∧ cur = []

/-- The lines `cur` of the frame in hand are still to come, and `d` is owed for it. -/
structure Phase (r : EthHdrToStream) (cur : List DataLine) (h : List Empty) (d : List SizedLine) :
    Prop where
  taking : Taking r cur
  pending : ∃ q, r.inserter.Pending (lineBytes r.hdr.bits) cur q ∧
    d = q.map fun b => (b, r.frameSize.toNat)
  hdrs : h = []

/-- What leaves in this cycle, without the start mark. -/
def sizedGiven (r : EthHdrToStream) (i : EthTxWires) : List SizedLine :=
  if r.gives i then [(r.shown i, r.frameSize.toNat)] else []

def linesGiven (r : EthHdrToStream) (i : EthTxWires) : List EthTxLine :=
  if r.gives i then [r.lineOut i] else []

/-- The machine without the start mark. -/
def sizedLines : PairMachine EthHdrToStream EthTxFrame DataLine EthTxWires EthTxEnv Empty
    SizedLine where
  wires := EthTxEnv.wires
  next := next
  takesHdr := takesHdr
  takesData := takesData
  hdrGiven _ _ := []
  dataGiven := sizedGiven

def frameLines : LineKind EthTxFrame DataLine Empty SizedLine where
  lines := EthTxFrame.lines
  hdrs _ := []
  data x := (beats 64 x.bytes).map fun b => (b, x.payload.length + 14)

def awaits (r : EthHdrToStream) : EthTxEvent :=
  match r.state with
  | .ready => .hdr
  | .writeIn => .data
  | .waitOut => .out

def phases : PairPhases EthHdrToStream DataLine Empty SizedLine EthTxEvent where
  idle := Idle
  inside := Phase
  left _ := 0
  most := 0
  awaits := awaits

theorem Taking.not_ready (h : Taking r cur) : r.state ≠ .ready := by
  rcases h with ⟨hs, -⟩ | ⟨hs, -⟩ <;> simp [hs]

/-- The registers that only `READY` writes. -/
theorem next_hdr (hne : r.state ≠ .ready) : (r.next i).hdr = r.hdr ∧
    (r.next i).frameSize = r.frameSize := by
  simp [next, hdrNext, srcHdrRdy, frameSize, hne]

/-- The inserter after a cycle in a frame. -/
theorem inserter_next (hne : r.state ≠ .ready) : (r.next i).inserter =
    ⟨(r.fed i).held, if r.gives i then (r.fed i).queue.tail else (r.fed i).queue⟩ := by
  have hg : (r.rdVal i && r.rdRdy i) = r.gives i := by
    have hb : (r.state != .ready) = true := by simpa using hne
    rw [gives, dstDataVal, rdRdy, hb, if_neg hne, Bool.true_and]
  show (⟨(r.fed i).held, if r.rdVal i && r.rdRdy i then _ else _⟩ : Inserter) = _
  rw [hg]

/-- The line that leaves is the first of the inserter. -/
theorem queue_of_gives (hg : r.gives i = true) : ∃ t, (r.fed i).queue = r.shown i :: t := by
  have hne : (r.fed i).queue ≠ [] := by
    have hv := (Bool.and_eq_true_iff.mp (Bool.and_eq_true_iff.mp hg).1).2
    simpa using (Bool.and_eq_true_iff.mp hv).2
  obtain ⟨b, t, ht⟩ := List.exists_cons_of_ne_nil hne
  exact ⟨t, by rw [shown, ht]; rfl⟩

/-- What is to come and the inserter after the line of this cycle. -/
theorem fed_pending (ht : Taking r cur) (hp : r.inserter.Pending (lineBytes r.hdr.bits) cur q)
    (hx : i.dataVal = true → ∃ t, cur ++ tail = i.line :: t) :
    ∃ cur', (if r.takesData i then (cur ++ tail).tail else cur ++ tail) = cur' ++ tail ∧
      (r.fed i).Pending (lineBytes r.hdr.bits) cur' q ∧ (r.takesData i = false → cur' = cur) ∧
      (r.takesData i = true → (i.line.last = true ↔ cur' = [])) := by
  have hne := ht.not_ready
  cases htk : r.takesData i with
  | false =>
    have hfed : r.fed i = r.inserter := by simp [fed, htk]
    exact ⟨cur, rfl, by rw [hfed]; exact hp, fun _ => rfl, fun hno => (Bool.false_ne_true hno).elim⟩
  | true =>
    obtain ⟨hwr, -⟩ := Bool.and_eq_true_iff.mp htk
    obtain ⟨hst, hv⟩ := Bool.and_eq_true_iff.mp hwr
    have hcur : cur ≠ [] := by
      rcases ht with ⟨-, hc⟩ | ⟨hs, -⟩
      · exact hc
      · rw [hs] at hst
        cases hst
    obtain ⟨cur', rfl⟩ := first_of_append hcur (hx hv)
    have hfed : r.fed i = r.inserter.write (lineBytes r.hdr.bits) i.line := by
      simp [fed, htk, hdrNext, srcHdrRdy, hne]
    refine ⟨cur', rfl, ?_, fun hno => (Bool.false_ne_true hno.symm).elim, fun _ => hp.last_iff⟩
    rw [hfed]
    exact hp.write

/-- Where the machine goes while the frame is not over. -/
theorem taking_next {cur' : List DataLine} (ht : Taking r cur)
    (hkeep : r.takesData i = false → cur' = cur)
    (hlast : r.takesData i = true → (i.line.last = true ↔ cur' = []))
    (hend : r.gives i = true → r.endframe i = false) : Taking (r.next i) cur' := by
  rcases ht with ⟨hs, hc⟩ | ⟨hs, hc⟩
  · cases htk : r.takesData i with
    | false =>
      refine .inl ⟨by simp [next, stateNext, hs, htk], ?_⟩
      rw [hkeep htk]
      exact hc
    | true =>
      have hiff := hlast htk
      cases hl : i.line.last with
      | false =>
        refine .inl ⟨by simp [next, stateNext, hs, hl], fun hnil => ?_⟩
        rw [hiff.mpr hnil] at hl
        cases hl
      | true =>
        refine .inr ⟨?_, hiff.mp hl⟩
        cases hg : r.gives i with
        | false => simp [next, stateNext, hs, htk, hl, hg]
        | true => simp [next, stateNext, hs, htk, hl, hg, hend hg]
  · have htk : r.takesData i = false := by simp [takesData, wrVal, hs]
    refine .inr ⟨?_, by rw [hkeep htk]; exact hc⟩
    cases hg : r.gives i with
    | false => simp [next, stateNext, hs, hg]
    | true => simp [next, stateNext, hs, hg, hend hg]

/-- The last line of the frame leaves. -/
theorem ready_next {cur' : List DataLine} (ht : Taking r cur)
    (hkeep : r.takesData i = false → cur' = cur) (hnil : cur' = [])
    (hlast : r.takesData i = true → (i.line.last = true ↔ cur' = []))
    (hg : r.gives i = true) (hend : r.endframe i = true) : (r.next i).state = .ready := by
  rcases ht with ⟨hs, hc⟩ | ⟨hs, hc⟩
  · cases htk : r.takesData i with
    | false => exact absurd ((hkeep htk).symm.trans hnil) hc
    | true => simp [next, stateNext, hs, htk, hg, hend, (hlast htk).mpr hnil]
  · simp [next, stateNext, hs, hg, hend]

theorem phase_next (hne : r.state ≠ .ready) (ht : Taking (r.next i) cur)
    (hp : (r.next i).inserter.Pending (lineBytes r.hdr.bits) cur q) :
    Phase (r.next i) cur [] (q.map fun b => (b, r.frameSize.toNat)) := by
  obtain ⟨hhdr, hsize⟩ := next_hdr (i := i) hne
  exact ⟨ht, ⟨q, by rw [hhdr]; exact hp, by rw [hsize]⟩, rfl⟩

theorem Phase.advances (hp : Phase r cur h d)
    (hx : i.dataVal = true → ∃ t, cur ++ tail = i.line :: t) :
    sizedLines.Advances phases r i cur tail h d := by
  obtain ⟨htk, ⟨q, hpend, rfl⟩, rfl⟩ := hp
  have hne := htk.not_ready
  obtain ⟨cur', hcur, hfed, hkeep, hlast⟩ := fed_pending htk hpend hx
  have hins := inserter_next (i := i) hne
  cases hg : r.gives i with
  | false =>
    have hnone : sizedLines.dataGiven r i = [] := by simp [sizedLines, sizedGiven, hg]
    rw [hg, if_neg Bool.false_ne_true] at hins
    refine ⟨cur', [], _, hcur, rfl, by rw [hnone, List.nil_append],
      .inl (phase_next hne ?_ (by rw [hins]; exact hfed))⟩
    exact taking_next htk hkeep hlast fun hno => (Bool.false_ne_true (hg.symm.trans hno)).elim
  | true =>
    obtain ⟨t, ht⟩ := queue_of_gives hg
    obtain ⟨q', rfl, hend, hmore⟩ := hfed.pop ht
    rw [hg, if_pos rfl, ht, List.tail_cons] at hins
    have hdata : sizedLines.dataGiven r i ++ (q'.map fun b => (b, r.frameSize.toNat)) =
        (r.shown i :: q').map fun b => (b, r.frameSize.toNat) := by
      simp [sizedLines, sizedGiven, hg]
    cases he : r.endframe i with
    | true =>
      obtain ⟨hnil, rfl, rfl, hheld⟩ := hend he
      rw [hheld] at hins
      exact ⟨cur', [], [], hcur, rfl, hdata,
        .inr ⟨⟨ready_next htk hkeep hnil hlast hg he, hins⟩, hnil, rfl, rfl⟩⟩
    | false =>
      refine ⟨cur', [], _, hcur, rfl, hdata,
        .inl (phase_next hne ?_ (by rw [hins]; exact hmore he))⟩
      exact taking_next htk hkeep hlast fun _ => he

/-- The header of the frame was taken. -/
theorem begins_phase {x : EthTxFrame} (hr : r.Idle) (hx : x.Fits) (ht : r.takesHdr i = true)
    (hhdr : i.hdr = x.hdr) : (r.next i).Phase x.lines [] (frameLines.data x) := by
  obtain ⟨hs, hins⟩ := hr
  have hv : i.hdrVal = true := (Bool.and_eq_true_iff.mp ht).1
  have hfed : r.fed i = ⟨none, []⟩ := by simp [fed, takesData, wrVal, hs, hins]
  have hins' : (r.next i).inserter = ⟨none, []⟩ := by
    show ({ r.fed i with queue := _ } : Inserter) = _
    rw [hfed]
    simp
  have hh : (r.next i).hdr = x.hdr.ethHdr := by simp [next, hdrNext, srcHdrRdy, hs, hhdr]
  have hsize : (r.next i).frameSize.toNat = x.payload.length + 14 := by
    have hfit : x.payload.length + 14 < 2 ^ 14 := hx
    have hlen : (r.next i).payloadLen = x.hdr.payloadLen.setWidth 16 := by
      simp [next, srcHdrRdy, hs, hhdr]
    rw [frameSize, hlen, BitVec.toNat_setWidth, BitVec.toNat_add, BitVec.toNat_setWidth, x.len]
    show ((x.payload.length % 2 ^ 16 + 14) % 2 ^ 16) % 2 ^ 14 = _
    omega
  refine ⟨.inl ⟨by simp [next, stateNext, hs, hv], x.carried.ne_nil⟩, ⟨beats 64 x.bytes, ?_, ?_⟩, rfl⟩
  · rw [hins', hh]
    exact .taking x.payload x.carried (fun b hb => (List.not_mem_nil hb).elim) rfl
  · rw [hsize]
    rfl

/-! ### The machine handles frames -/

/-- Where nothing moves, the machine stays in its state. -/
theorem awaits_still (hm : sizedLines.moves phases r i = false) : (r.next i).awaits = r.awaits := by
  obtain ⟨hth, htd, -, hg, -⟩ := PairMachine.moves_eq_false hm
  have hth : r.takesHdr i = false := hth
  have htd : r.takesData i = false := htd
  have hgives : r.gives i = false := by simpa [sizedLines, sizedGiven] using hg
  have hst : (r.next i).state = r.state := by
    show r.stateNext i = _
    cases hs : r.state with
    | ready =>
      have hv : i.hdrVal = false := by simpa [takesHdr, srcHdrRdy, hs] using hth
      simp [stateNext, hs, hv]
    | writeIn => simp [stateNext, hs, htd]
    | waitOut => simp [stateNext, hs, hgives]
  rw [awaits, hst]
  rfl

/-- Inside a frame something moves when the awaited event comes. -/
theorem Phase.stirs {e : EthTxEnv} {q : List EthTxFrame} (hp : Phase r cur h d)
    (hg : e.Given r.awaits) : sizedLines.moves phases r (e.wires (q, cur ++ tail)) = true := by
  obtain ⟨htk, ⟨lines, hpend, -⟩, -⟩ := hp
  rcases htk with ⟨hs, hc⟩ | ⟨hs, hc⟩
  · obtain ⟨ho, hw⟩ : e.offerData = true ∧ e.wrRdy = true := by
      simpa [awaits, hs, EthTxEnv.Given] using hg
    have hne : cur ++ tail ≠ [] := fun hnil => hc (List.append_eq_nil_iff.mp hnil).1
    have ht : sizedLines.takesData r (e.wires (q, cur ++ tail)) = true := by
      show (r.state == .writeIn && (e.offerData && !(cur ++ tail).isEmpty) && e.wrRdy) = true
      simp [hs, ho, hw, hc]
    rw [PairMachine.moves, ht]
    simp
  · obtain ⟨he, hr⟩ : e.emits = true ∧ e.dataRdy = true := by
      simpa [awaits, hs, EthTxEnv.Given] using hg
    have hfed : r.fed (e.wires (q, cur ++ tail)) = r.inserter := by
      simp [fed, takesData, wrVal, hs]
    have hqueue : r.inserter.queue ≠ [] := hpend.ne_nil hc
    have hgives : r.gives (e.wires (q, cur ++ tail)) = true := by
      rw [gives, dstDataVal, rdVal, hfed]
      simp [hs, hqueue, EthTxEnv.wires, he, hr]
    simp [PairMachine.moves, sizedLines, sizedGiven, hgives]

theorem handles : PairHandles sizedLines frameLines phases EthTxEnv.Given EthTxFrame.Fits where
  left_most _ := Nat.le_refl 0
  takesHdr_ne r e q ht := by
    have hv : (e.offerHdr && !q.1.isEmpty) = true := (Bool.and_eq_true_iff.mp ht).1
    simpa using (Bool.and_eq_true_iff.mp hv).2
  takesData_ne r e q ht := by
    have hw := (Bool.and_eq_true_iff.mp ht).1
    have hv : (e.offerData && !q.2.isEmpty) = true := (Bool.and_eq_true_iff.mp hw).2
    simpa using (Bool.and_eq_true_iff.mp hv).2
  idle_gives r i hr := by
    refine ⟨?_, rfl, ?_⟩
    · simp [sizedLines, takesData, wrVal, hr.1]
    · simp [sizedLines, sizedGiven, gives, dstDataVal, hr.1]
  idle_still r e q hr ht := by
    obtain ⟨hs, hins⟩ := hr
    have hv : (e.wires q).hdrVal = false := by
      have ht : r.takesHdr (e.wires q) = false := ht
      simpa [takesHdr, srcHdrRdy, hs] using ht
    refine ⟨⟨?_, ?_⟩, Nat.le_refl 0⟩
    · simp [sizedLines, next, stateNext, hs, hv]
    · simp [sizedLines, next, fed, takesData, wrVal, hs, hins]
  idle_stirs r e q hr hne hg := by
    have ho : e.offerHdr = true := by simpa [phases, awaits, hr.1, EthTxEnv.Given] using hg
    simpa [sizedLines, takesHdr, srcHdrRdy, hr.1, EthTxEnv.wires, ho] using hne
  begins x q tail r e hx hr ht := by
    have hv : (e.offerHdr && !((x :: q).map EthTxFrame.hdr).isEmpty) = true :=
      (Bool.and_eq_true_iff.mp ht).1
    obtain ⟨t, hreq⟩ : ∃ t, (x :: q).map EthTxFrame.hdr =
        onBus e.offerHdr e.hdrBus ((x :: q).map EthTxFrame.hdr) :: t := onBus_of_val hv
    rw [List.map_cons, List.cons.injEq] at hreq
    exact begins_phase hr hx ht hreq.1.symm
  inside_hdr r cur h d i hp := by
    have hne := hp.taking.not_ready
    simp [sizedLines, takesHdr, srcHdrRdy, hne]
  advances r cur h d e q tail hp := hp.advances fun hv => onBus_of_val hv
  left_inside _ _ _ _ _ _ := Nat.le_refl 0
  stirs r cur h d e q tail hp hg := hp.stirs hg
  awaits_still r i hm := awaits_still hm

end EthHdrToStream

/-! ### The start mark -/

/-- The machine behind its two sources. -/
def ethTxLines : PairMachine EthHdrToStream EthTxFrame DataLine EthTxWires EthTxEnv Empty
    EthTxLine where
  wires := EthTxEnv.wires
  next := EthHdrToStream.next
  takesHdr := EthHdrToStream.takesHdr
  takesData := EthHdrToStream.takesData
  hdrGiven _ _ := []
  dataGiven := EthHdrToStream.linesGiven

abbrev ethTxMachine := ethTxLines.machine

/-- The machine, the headers and the lines that are to come, and the lines that have left. -/
abbrev EthTxSystem := System EthHdrToStream (List EthTxFrame × List DataLine) Empty EthTxLine

namespace EthTxLine

variable {l : EthTxLine} {ls es : List EthTxLine} {first : Bool}

/-- The line without its start mark. -/
def sized (l : EthTxLine) : SizedLine := (l.line, l.frameSize)

/-- Whether the next line is the first of a frame. -/
def after (first : Bool) (ls : List EthTxLine) : Bool := ls.foldl (fun _ l => l.line.last) first

/-- The start mark is set on the first line and on every line behind the end of a frame. -/
def StartsRight (first : Bool) : List EthTxLine → Prop
  | [] => True
  | l :: t => l.startframe = first ∧ StartsRight l.line.last t

theorem after_append : after first (ls ++ [l]) = l.line.last := by
  rw [after, List.foldl_append]
  rfl

theorem StartsRight.append (h : StartsRight first ls) (hl : l.startframe = after first ls) :
    StartsRight first (ls ++ [l]) := by
  induction ls generalizing first with
  | nil => exact ⟨hl, trivial⟩
  | cons x ls ih => exact ⟨h.1, ih h.2 hl⟩

/-- The start marks follow from the end marks. -/
theorem StartsRight.isPrefix (h : StartsRight first ls) (he : StartsRight first es)
    (hp : ls.map sized <+: es.map sized) : ls <+: es := by
  induction ls generalizing first es with
  | nil => exact List.nil_prefix
  | cons l ls ih =>
    cases es with
    | nil => exact absurd (List.prefix_nil.mp hp) (List.cons_ne_nil _ _)
    | cons e es =>
      obtain ⟨heq, ht⟩ := List.cons_prefix_cons.mp hp
      have hline : l.line = e.line := congrArg Prod.fst heq
      have hsize : l.frameSize = e.frameSize := congrArg Prod.snd heq
      have hl : l = e := by
        cases l
        cases e
        simp only [EthTxLine.mk.injEq]
        exact ⟨hline, h.1.trans he.1.symm, hsize⟩
      subst hl
      exact List.cons_prefix_cons.mpr ⟨rfl, ih h.2 he.2 ht⟩

end EthTxLine

namespace EthTxFrame

variable {first : Bool} {size : Nat} {bs : List (Beat (BitVec 8))} {rest : List EthTxLine}

open EthTxLine

theorem map_sized_marked : (marked first size bs).map sized = bs.map fun b => (b, size) := by
  induction bs generalizing first with
  | nil => rfl
  | cons b bs ih => rw [marked, List.map_cons, List.map_cons, ih]; rfl

theorem startsRight_marked (hb : MarkedEnd bs) (hr : StartsRight true rest) :
    StartsRight first (marked first size bs ++ rest) := by
  induction bs generalizing first with
  | nil => exact absurd hb id
  | cons b bs ih =>
    refine ⟨rfl, ?_⟩
    show StartsRight b.last (marked false size bs ++ rest)
    rcases hb with ⟨hlast, rfl⟩ | ⟨hlast, hb⟩
    · rw [hlast]
      exact hr
    · rw [hlast]
      exact ih hb

theorem startsRight_outLines (frames : List EthTxFrame) :
    StartsRight true (frames.flatMap outLines) := by
  induction frames with
  | nil => trivial
  | cons x xs ih =>
    rw [List.flatMap_cons]
    refine startsRight_marked (markedEnd_beats (by decide) ?_) ih
    rw [x.length_bytes]
    omega

theorem map_sized_outLines (frames : List EthTxFrame) :
    (frames.flatMap outLines).map sized = frames.flatMap EthHdrToStream.frameLines.data := by
  induction frames with
  | nil => rfl
  | cons x xs ih =>
    rw [List.flatMap_cons, List.flatMap_cons, List.map_append, ih, outLines, map_sized_marked]
    rfl

end EthTxFrame

namespace EthTxSystem

open EthHdrToStream EthTxLine

variable {s : EthTxSystem} {e : EthTxEnv} {frames : List EthTxFrame}

/-- A line that leaves in `WAIT_OUT` with the start mark set is the last of its frame. -/
def Sound (s : EthTxSystem) (e : EthTxEnv) : Prop :=
  s.ctrl.state = .waitOut → s.ctrl.isStart = true → s.ctrl.gives (e.wires s.src) = true →
    s.ctrl.endframe (e.wires s.src) = true

instance (s : EthTxSystem) (e : EthTxEnv) : Decidable (Sound s e) :=
  inferInstanceAs (Decidable (_ → _ → _ → _))

/-- The start marks are forgotten. -/
def forget (s : EthTxSystem) :
    System EthHdrToStream (List EthTxFrame × List DataLine) Empty SizedLine where
  ctrl := s.ctrl
  src := s.src
  hdrs := s.hdrs
  data := s.data.map sized

theorem forget_cycle (s : EthTxSystem) (e : EthTxEnv) :
    forget (ethTxMachine.cycle s e) = sizedLines.machine.cycle (forget s) e := by
  have hgiven : (s.ctrl.linesGiven (e.wires s.src)).map sized = s.ctrl.sizedGiven (e.wires s.src) := by
    unfold linesGiven sizedGiven
    split <;> rfl
  have hdata : (s.data ++ s.ctrl.linesGiven (e.wires s.src)).map sized =
      s.data.map sized ++ s.ctrl.sizedGiven (e.wires s.src) := by
    rw [List.map_append, hgiven]
  show (⟨_, _, _, (s.data ++ s.ctrl.linesGiven (e.wires s.src)).map sized⟩ : System _ _ _ _) = _
  rw [hdata]
  rfl

/-- What holds of the start mark: outside `READY` it is set exactly before the first line. -/
structure StartInv (s : EthTxSystem) : Prop where
  marks : StartsRight true s.data
  ready : s.ctrl.state = .ready → after true s.data = true
  busy : s.ctrl.state ≠ .ready → s.ctrl.isStart = after true s.data

/-- Between two frames no line leaves. -/
theorem StartInv.idle (h : StartInv s) (hs : s.ctrl.state = .ready) :
    StartInv (ethTxMachine.cycle s e) := by
  have hnone : s.ctrl.linesGiven (e.wires s.src) = [] := by
    simp [linesGiven, gives, dstDataVal, hs]
  have hdata : (ethTxMachine.cycle s e).data = s.data := by
    show s.data ++ s.ctrl.linesGiven (e.wires s.src) = _
    rw [hnone, List.append_nil]
  have hstart : (ethTxMachine.cycle s e).ctrl.isStart = true := by
    show s.ctrl.isStartNext _ = true
    simp [isStartNext, hs]
  refine ⟨by rw [hdata]; exact h.marks, fun _ => by rw [hdata]; exact h.ready hs, fun _ => ?_⟩
  rw [hstart, hdata, h.ready hs]

/-- Inside a frame; `hend` says that the end of a frame leads to `READY`. -/
theorem StartInv.inside (h : StartInv s) (hs : s.ctrl.state ≠ .ready) (hok : Sound s e)
    (hend : s.ctrl.gives (e.wires s.src) = true → (s.ctrl.endframe (e.wires s.src) = true ↔
      (ethTxMachine.cycle s e).ctrl.state = .ready))
    (hstay : s.ctrl.gives (e.wires s.src) = false → (ethTxMachine.cycle s e).ctrl.state ≠ .ready) :
    StartInv (ethTxMachine.cycle s e) := by
  have hctrl : (ethTxMachine.cycle s e).ctrl = s.ctrl.next (e.wires s.src) := rfl
  have hdata : (ethTxMachine.cycle s e).data = s.data ++ s.ctrl.linesGiven (e.wires s.src) := rfl
  have hbusy := h.busy hs
  unfold Sound at hok
  generalize e.wires s.src = i at *
  cases hg : s.ctrl.gives i with
  | false =>
    have hnone : s.ctrl.linesGiven i = [] := by simp [linesGiven, hg]
    have hstart : (s.ctrl.next i).isStart = s.ctrl.isStart := by
      show s.ctrl.isStartNext i = _
      cases hst : s.ctrl.state with
      | ready => exact absurd hst hs
      | writeIn => simp [isStartNext, hst, hg]
      | waitOut => simp [isStartNext, hst]
    rw [hnone, List.append_nil] at hdata
    refine ⟨by rw [hdata]; exact h.marks, fun hr => absurd hr (hstay hg), fun _ => ?_⟩
    rw [hctrl, hdata, hstart]
    exact hbusy
  | true =>
    have hgiven : s.ctrl.linesGiven i = [s.ctrl.lineOut i] := by simp [linesGiven, hg]
    rw [hgiven] at hdata
    have hlast : after true (ethTxMachine.cycle s e).data = s.ctrl.endframe i := by
      rw [hdata, after_append]
      rfl
    refine ⟨?_, fun hr => ?_, fun hr => ?_⟩
    · rw [hdata]
      exact h.marks.append hbusy
    · rw [hlast]
      exact (hend hg).mpr hr
    · have hno : s.ctrl.endframe i = false := by
        apply Bool.eq_false_iff.mpr
        intro hyes
        exact hr ((hend hg).mp hyes)
      rw [hlast, hno, hctrl]
      show s.ctrl.isStartNext i = false
      cases hst : s.ctrl.state with
      | ready => exact absurd hst hs
      | writeIn => simp [isStartNext, hst, hg]
      | waitOut =>
        -- the flag is not cleared here; it was cleared before
        have hclear : s.ctrl.isStart = false := by
          apply Bool.eq_false_iff.mpr
          intro hset
          rw [hok hst hset hg] at hno
          cases hno
        simp [isStartNext, hst, hclear]

/-- The end of a frame leads to `READY`, and nothing else does. -/
theorem ends_ready (hrun : InRun frameLines.pairs phases.phases frames (forget s))
    (hs : s.ctrl.state ≠ .ready) :
    (s.ctrl.gives (e.wires s.src) = true → (s.ctrl.endframe (e.wires s.src) = true ↔
      (ethTxMachine.cycle s e).ctrl.state = .ready)) ∧
    (s.ctrl.gives (e.wires s.src) = false → (ethTxMachine.cycle s e).ctrl.state ≠ .ready) := by
  rcases hrun.idle_or_inside with hidle | ⟨tail, h, d, -, cur, hsrc, hp⟩
  · exact absurd hidle.1 hs
  · have hx : (e.wires s.src).dataVal = true → ∃ t, cur ++ tail.2 = (e.wires s.src).line :: t := by
      rw [← hsrc]
      exact fun hv => onBus_of_val hv
    obtain ⟨htk, ⟨q, hpend, -⟩, -⟩ := hp
    obtain ⟨cur', -, hfed, hkeep, hlast⟩ := fed_pending htk hpend hx
    have hmore := taking_next (i := e.wires s.src) htk hkeep hlast
    refine ⟨fun hg => ⟨fun he => ?_, fun hr => ?_⟩, fun hg => ?_⟩
    · obtain ⟨t, ht⟩ := queue_of_gives hg
      obtain ⟨q', -, hend, -⟩ := hfed.pop ht
      exact ready_next htk hkeep (hend he).1 hlast hg he
    · cases he : s.ctrl.endframe (e.wires s.src) with
      | true => rfl
      | false => exact absurd hr (hmore fun _ => he).not_ready
    · exact (hmore fun hno => (Bool.false_ne_true (hg.symm.trans hno)).elim).not_ready

/-! ### All frames -/

/-- Nothing is in the machine, and the frames are at the sources. -/
def Init (frames : List EthTxFrame) (s : EthTxSystem) : Prop :=
  s.ctrl.Idle ∧ s.src = (frames, frames.flatMap EthTxFrame.lines) ∧ s.hdrs = [] ∧ s.data = []

/-- All frames have left. -/
def Delivered (frames : List EthTxFrame) (s : EthTxSystem) : Prop :=
  s.ctrl.Idle ∧ s.src = ([], []) ∧ s.data = frames.flatMap EthTxFrame.outLines

/-- The lines leave in order with the right marks and sizes, and in the end all of them have left. -/
structure Marks (ok : EthTxSystem → EthTxEnv → Prop) (frames : List EthTxFrame) (s : EthTxSystem) :
    Prop where
  lines : s.data <+: frames.flatMap EthTxFrame.outLines
  ends : ∀ sched, Fair EthTxEnv.Given sched → (∀ n, ok (exec ethTxMachine.cycle s sched n) (sched n)) →
    ∃ n, Delivered frames (exec ethTxMachine.cycle s sched n)

theorem inRun_start (hfits : ∀ x ∈ frames, x.Fits)
    (h : Reach (Init frames) ethTxMachine.step Sound s) :
    InRun frameLines.pairs phases.phases frames (forget s) ∧ StartInv s := by
  induction h with
  | start h0 =>
    obtain ⟨hr, hsrc, hh, hd⟩ := h0
    have hnone : (forget _).data = [] := congrArg (List.map sized) hd
    have hb : Between frameLines.pairs phases.phases [] frames (forget _) :=
      ⟨hr, hsrc.trans (loadAll_pairs frameLines frames).symm, hh, hnone⟩
    refine ⟨hb.inRun handles.handles rfl, ⟨?_, ?_, ?_⟩⟩
    · rw [hd]
      trivial
    · intro _
      rw [hd]
      rfl
    · exact fun hne => absurd hr.1 hne
  | @next s _ e _ hok hstep ih =>
    obtain ⟨hrun, hinv⟩ := ih
    cases hstep
    refine ⟨?_, ?_⟩
    · rw [forget_cycle]
      exact hrun.keeps handles.handles hfits
    · by_cases hs : s.ctrl.state = .ready
      · exact hinv.idle hs
      · obtain ⟨hend, hstay⟩ := ends_ready (e := e) hrun hs
        exact hinv.inside hs hok hend hstay

end EthTxSystem

/-- In the runs where no line but a last one leaves in `WAIT_OUT` with the start mark set, the lines
that leave are those of the frames, and all marks and sizes are right. -/
theorem eth_hdrtostream_marks (frames : List EthTxFrame) (hfits : ∀ x ∈ frames, x.Fits)
    {s : EthTxSystem} (h : Reach (EthTxSystem.Init frames) ethTxMachine.step EthTxSystem.Sound s) :
    EthTxSystem.Marks EthTxSystem.Sound frames s := by
  have hright := EthTxFrame.startsRight_outLines frames
  have hall : ∀ {s}, Reach (EthTxSystem.Init frames) ethTxMachine.step EthTxSystem.Sound s →
      s.data <+: frames.flatMap EthTxFrame.outLines := by
    intro s h
    obtain ⟨hrun, hinv⟩ := EthTxSystem.inRun_start hfits h
    refine hinv.marks.isPrefix hright ?_
    rw [EthTxFrame.map_sized_outLines]
    exact hrun.beginning.2
  refine ⟨hall h, fun sched hf hok => ?_⟩
  obtain ⟨n, hr, hsrc, -, hd⟩ :=
    (EthTxSystem.inRun_start hfits h).1.ends EthHdrToStream.handles.handles hfits hf
  rw [← exec_map EthTxSystem.forget_cycle] at hr hsrc hd
  refine ⟨n, hr, hsrc, (hall (h.of_exec (fun _ _ => rfl) hok n)).eq_of_length ?_⟩
  have hlen : ((exec ethTxMachine.cycle s sched n).data.map EthTxLine.sized).length =
      ((frames.flatMap EthTxFrame.outLines).map EthTxLine.sized).length := by
    rw [EthTxFrame.map_sized_outLines]
    exact congrArg List.length hd
  rwa [List.length_map, List.length_map] at hlen

/-! ### Fixed frames -/

/-- A frame with 64 bytes of payload; with its header it takes two lines. -/
def wideFrame : EthTxFrame where
  hdr := ⟨⟨0xb8599fb7bd6c, 0x000a350e14d2, 0x0800⟩, 64, 0⟩
  payload := lineBytes (0x55 : Line)
  lines := [⟨0x55, 0, true⟩]
  carried := ⟨by decide +kernel, by decide +kernel⟩
  len := by decide +kernel

namespace EthTxSystem

/-- After a reset; the other registers may hold anything. -/
def start (frames : List EthTxFrame) : EthTxSystem where
  ctrl := ⟨.ready, false, default, 0, 0, true, ⟨none, []⟩⟩
  src := (frames, frames.flatMap EthTxFrame.lines)
  hdrs := []
  data := []

theorem init_start (frames : List EthTxFrame) : Init frames (start frames) :=
  ⟨⟨rfl, rfl⟩, rfl, rfl, rfl⟩

end EthTxSystem

/-- The first line leaves in the cycle in which the payload is taken. -/
theorem eth_hdrtostream_marks_wide :
    ∃ s, Reach (EthTxSystem.Init [wideFrame]) ethTxMachine.step EthTxSystem.Sound s ∧
      s.data.map (fun l => (l.startframe, l.line.last, l.frameSize)) =
        [(true, false, 78), (false, true, 78)] ∧
      EthTxSystem.Marks EthTxSystem.Sound [wideFrame] s := by
  have hs : ∃ s, Reach (EthTxSystem.Init [wideFrame]) ethTxMachine.step EthTxSystem.Sound s ∧
      decide (s.data.map (fun l => (l.startframe, l.line.last, l.frameSize)) =
        [(true, false, 78), (false, true, 78)]) = true :=
    Reach.exists_of_run (List.replicate 3 .calm) (EthTxSystem.init_start _) (by decide +kernel)
  obtain ⟨s, hs, hp⟩ := hs
  exact ⟨s, hs, of_decide_eq_true hp, eth_hdrtostream_marks _ (by decide +kernel) hs⟩

/-- The inserter keeps both lines of the frame until the payload is taken, and both leave with the
start mark. -/
theorem eth_hdrtostream_marks_twice :
    ¬ ∀ frames : List EthTxFrame, (∀ x ∈ frames, x.Fits) → ∀ s,
      Reach (EthTxSystem.Init frames) ethTxMachine.step Free s →
        EthTxSystem.Marks Free frames s := by
  intro h
  have hs : ∃ s, Reach (EthTxSystem.Init [wideFrame]) ethTxMachine.step Free s ∧
      decide (s.data.map (fun l => l.startframe) = [true, true]) = true :=
    Reach.exists_of_run [.calm, .keeps, .calm, .calm] (EthTxSystem.init_start _) (by decide +kernel)
  obtain ⟨s, hs, hp⟩ := hs
  have hpre := (h [wideFrame] (by decide +kernel) s hs).lines.map (fun l => l.startframe)
  rw [of_decide_eq_true hp] at hpre
  have hno : ¬ [true, true] <+:
      ([wideFrame].flatMap EthTxFrame.outLines).map fun l => l.startframe := by
    decide +kernel
  exact hno hpre

end TcpHw
