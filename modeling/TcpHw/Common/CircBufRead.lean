import TcpHw.Common.RdMemNoc
import TcpHw.Lib.Trace

/-!
# Reads of a ring

What a read is to deliver, and the composition of a reader with `rd_mem_noc_module` and the
memory tile. The two readers differ in their registers and in the requests they make; what they
have in common is stated for a reader given by its output functions and its step.
-/
namespace TcpHw

open Bytes Trace

set_option autoImplicit false

/-- A request of the source. -/
structure RdReq where
  flowid : FlowId
  offset : Nat
  size : Nat
  deriving DecidableEq, Inhabited

/-- A line handed to the source. -/
structure RdOut where
  data : Line
  last : Bool
  padbytes : Nat
  deriving DecidableEq

/-- Byte `k` of the read. -/
def RdReq.ring (W : Nat) (mem : Memory) (r : RdReq) (k : Nat) : BitVec 8 :=
  mem (ringAddr W r.flowid r.offset k)

/-- Requests for a piece of the ring of at most its size. -/
def RdReq.Valid (W : Nat) (r : RdReq) : Prop := r.offset < 2 ^ W ∧ 0 < r.size ∧ r.size ≤ 2 ^ W

instance (W : Nat) (r : RdReq) : Decidable (r.Valid W) := by
  unfold RdReq.Valid
  infer_instance

/-! ### What a read delivers -/

/-- The lines of a complete read. -/
structure RdReq.Exact (W : Nat) (mem : Memory) (r : RdReq) (out : List RdOut) : Prop where
  lines : out.length = (r.size + 63) / 64
  last : ∀ k (h : k < out.length), (out[k].last = true ↔ k + 1 = out.length)
  padbytes : ∀ k (h : k < out.length),
    out[k].padbytes = if k + 1 = out.length then (64 - r.size % 64) % 64 else 0
  bytes : ∀ k < r.size, streamByte (out.map RdOut.data) k = r.ring W mem k

/-- Full lines up to byte `pos`, with more to come. -/
structure RdReq.Begun (W : Nat) (mem : Memory) (r : RdReq) (out : List RdOut) (pos : Nat) :
    Prop where
  full : pos = 64 * out.length
  more : pos < r.size
  plain : ∀ o ∈ out, o.last = false ∧ o.padbytes = 0
  bytes : ∀ k < pos, streamByte (out.map RdOut.data) k = r.ring W mem k

section spec

variable {W pos : Nat} {mem : Memory} {r : RdReq} {out : List RdOut}

theorem RdReq.Begun.start (h : 0 < r.size) : r.Begun W mem [] 0 :=
  ⟨rfl, h, fun _ ho => absurd ho List.not_mem_nil, fun k hk => absurd hk (Nat.not_lt_zero k)⟩

theorem RdReq.Begun.bytes_push (h : r.Begun W mem out pos) {x : RdOut} {n : Nat} (hn : n ≤ 64)
    (hx : ∀ k < n, byte x.data k = r.ring W mem (pos + k)) :
    ∀ k < pos + n, streamByte ((out ++ [x]).map RdOut.data) k = r.ring W mem k := by
  intro k hk
  have hp := h.full
  rw [List.map_append]
  by_cases hlt : k < pos
  · rw [streamByte_append _ _ (by rw [List.length_map]; omega), h.bytes k hlt]
  · have hd : k / 64 = (out.map RdOut.data).length := by
      rw [List.length_map]
      omega
    have hm : k % 64 = k - pos := by omega
    unfold streamByte
    rw [hd, hm, List.getD_append_right _ _ _ _ (Nat.le_refl _), Nat.sub_self]
    show byte x.data (k - pos) = _
    rw [hx _ (by omega), Nat.add_sub_of_le (by omega)]

/-- A full line. -/
theorem RdReq.Begun.push (h : r.Begun W mem out pos) {d : Line} (hmore : pos + 64 < r.size)
    (hd : ∀ k < 64, byte d k = r.ring W mem (pos + k)) :
    r.Begun W mem (out ++ [⟨d, false, 0⟩]) (pos + 64) := by
  refine ⟨?_, hmore, ?_, h.bytes_push (Nat.le_refl 64) hd⟩
  · rw [List.length_append, List.length_singleton, h.full]
    omega
  · intro o ho
    rcases List.mem_append.mp ho with ho | ho
    · exact h.plain o ho
    · rw [List.mem_singleton.mp ho]
      exact ⟨rfl, rfl⟩

/-- The last line. -/
theorem RdReq.Begun.finish (h : r.Begun W mem out pos) {d : Line} (hend : r.size ≤ pos + 64)
    (hd : ∀ k < r.size - pos, byte d k = r.ring W mem (pos + k)) :
    r.Exact W mem (out ++ [⟨d, true, 64 - (r.size - pos)⟩]) := by
  have hp := h.full
  have hm := h.more
  have hlen : (out ++ [(⟨d, true, 64 - (r.size - pos)⟩ : RdOut)]).length = out.length + 1 := by simp
  refine ⟨?_, ?_, ?_, ?_⟩
  · rw [hlen]
    omega
  · intro k hk
    rw [hlen]
    by_cases hl : k < out.length
    · rw [List.getElem_append_left hl, (h.plain _ (List.getElem_mem hl)).1]
      simp only [Bool.false_eq_true, false_iff]
      omega
    · have he : k = out.length := by omega
      subst he
      simp
  · intro k hk
    rw [hlen]
    by_cases hl : k < out.length
    · rw [List.getElem_append_left hl, (h.plain _ (List.getElem_mem hl)).2, if_neg (by omega)]
    · have he : k = out.length := by omega
      subst he
      simp only [List.getElem_concat_length, if_true]
      omega
  · have hb := h.bytes_push (x := ⟨d, true, 64 - (r.size - pos)⟩) (n := r.size - pos) (by omega) hd
    rw [Nat.add_sub_of_le hm.le] at hb
    exact hb

/-- What a line shows: its bytes without the padding and its marks. -/
def RdOut.view (o : RdOut) : List (BitVec 8) × Bool × Nat :=
  ((List.range (64 - o.padbytes)).map (byte o.data), o.last, o.padbytes)

/-- A complete read is determined by the ring up to its padding. -/
theorem RdReq.Exact.view_eq {out' : List RdOut} (h : r.Exact W mem out) (h' : r.Exact W mem out') :
    out.map RdOut.view = out'.map RdOut.view := by
  have hlen : out.length = out'.length := h.lines.trans h'.lines.symm
  refine List.ext_getElem (by simp [hlen]) ?_
  intro k hk hk'
  rw [List.length_map] at hk hk'
  simp only [List.getElem_map]
  have hpad : out[k].padbytes = out'[k].padbytes := by
    rw [h.padbytes k hk, h'.padbytes k hk', hlen]
  have hlast : out[k].last = out'[k].last := by
    rw [Bool.eq_iff_iff, h.last k hk, h'.last k hk', hlen]
  have hbyte : ∀ (o : List RdOut), r.Exact W mem o → ∀ (hk : k < o.length),
      ∀ j < 64 - o[k].padbytes, byte o[k].data j = r.ring W mem (64 * k + j) := by
    intro o ho hk j hj
    rw [ho.padbytes k hk] at hj
    have hl := ho.lines
    have hlt : 64 * k + j < r.size := by
      split at hj <;> omega
    rw [← ho.bytes _ hlt]
    unfold streamByte
    have hj64 : j < 64 := by omega
    have hd : (64 * k + j) / 64 = k := by omega
    have hm : (64 * k + j) % 64 = j := by omega
    rw [hd, hm, List.getD_eq_getElem _ _ (by rw [List.length_map]; exact hk), List.getElem_map]
  unfold RdOut.view
  rw [hpad, hlast]
  congr 1
  refine List.map_congr_left fun j hj => ?_
  rw [List.mem_range] at hj
  rw [hbyte out h hk j (by rw [hpad]; exact hj), hbyte out' h' hk' j hj]

end spec

/-! ### A reader with the memory -/

/-- What a reader sees in one cycle. -/
structure RdSignals where
  reqVal : Bool
  req : RdReq
  dataRdy : Bool
  memReqRdy : Bool
  respVal : Bool
  respData : Line
  respLast : Bool
  respPadbytes : Nat

/-- A reader with registers `ρ`: whether it is in its ready state, its request to the memory, its
ready for a line of the response, the line it offers and its clock edge. -/
structure RdCore (ρ : Type) where
  idle : ρ → Bool
  memReq : ρ → RdSignals → Option MemReq
  respRdy : ρ → Bool → Bool
  out : ρ → RdSignals → Option RdOut
  step : ρ → RdSignals → ρ

/-- `out` lists the lines taken since the request `job` was accepted, and `finished` the requests
after which the reader was ready again. -/
structure RdSystem (ρ : Type) where
  core : ρ
  noc : RdMemNoc
  tile : RdTile
  job : RdReq
  out : List RdOut
  finished : List (RdReq × List RdOut)

/-- One cycle of the source, the network and the tile; `req` is the value of the request bus,
valid or not. -/
structure RdIn extends NocIn where
  reqVal : Bool
  req : RdReq
  dataRdy : Bool

/-- The line at an address. -/
def lineAt (mem : Memory) (addr : Nat) : Line :=
  BitVec.ofNat _ ((List.range 64).foldl (fun x j => 256 * x + (mem (addr + j)).toNat) 0)

namespace RdIn

/-- A cycle in which everything is ready, without a response. -/
def calm : RdIn := ⟨⟨true, false, 0, 0⟩, false, default, true⟩

def ask (r : RdReq) : RdIn := { calm with reqVal := true, req := r }

/-- The header of a response of `n` lines. -/
def header (n : Nat) : RdIn := { calm with resp := true, respMsgLen := n }

def line (d : Line) : RdIn := { calm with resp := true, respData := d }

end RdIn

namespace RdSystem

variable {ρ : Type} (C : RdCore ρ) (s : RdSystem ρ) (i : RdIn)

def respRdy : Bool := C.respRdy s.core i.dataRdy

def signals : RdSignals where
  reqVal := i.reqVal
  req := i.req
  dataRdy := i.dataRdy
  memReqRdy := s.noc.reqRdy
  respVal := s.noc.respVal i.toNocIn
  respData := i.respData
  respLast := s.noc.respLast i.toNocIn (s.respRdy C i)
  respPadbytes := s.noc.respPadbytes i.toNocIn (s.respRdy C i)

def accepts : Bool := C.idle s.core && i.reqVal && s.noc.reqRdy

def outStep : List RdOut :=
  (if s.accepts C i then [] else s.out) ++
    (if i.dataRdy then (C.out s.core (s.signals C i)).toList else [])

/-- The reader becomes ready. -/
def completes : Bool := !C.idle s.core && C.idle (C.step s.core (s.signals C i))

def cycle : RdSystem ρ where
  core := C.step s.core (s.signals C i)
  noc := s.noc.step (C.memReq s.core (s.signals C i)) (s.respRdy C i) i.toNocIn
  tile := s.tile.step s.noc (s.respRdy C i) i.toNocIn
  job := if s.accepts C i then i.req else s.job
  out := s.outStep C i
  finished :=
    if s.completes C i then s.finished ++ [(s.job, s.outStep C i)] else s.finished

def step : Option (RdSystem ρ) := some (s.cycle C i)

/-- After reset. -/
def Init : Prop := C.idle s.core = true ∧ RdIdle s.noc s.tile ∧ s.finished = []

/-- Requests meet `P`, and the tile answers as it should. -/
def AllowedBy (P : RdReq → Prop) (mem : Memory) (s : RdSystem ρ) (i : RdIn) : Prop :=
  (i.reqVal = true → P i.req) ∧ s.tile.Answers mem i.toNocIn

instance (P : RdReq → Prop) [DecidablePred P] (mem : Memory) : Decidable (AllowedBy P mem s i) := by
  unfold AllowedBy
  infer_instance

/-- Requests are for a piece of the ring, and the tile answers as it should. -/
def Allowed (W : Nat) (mem : Memory) (s : RdSystem ρ) (i : RdIn) : Prop :=
  AllowedBy (RdReq.Valid W) mem s i

instance (W : Nat) (mem : Memory) : Decidable (Allowed W mem s i) :=
  inferInstanceAs (Decidable (AllowedBy _ mem s i))

/-- A cycle in which the source takes a line and the network and the tile do what they can. -/
def smooth : Bool := i.dataRdy && s.tile.smooth i.toNocIn

/-- The completion number `n` is that of request `r`. -/
def Finished (n : Nat) (r : RdReq) : Prop := ∃ d, s.finished[n]? = some d ∧ d.1 = r

/-- The request on the bus is accepted and goes into service. -/
structure Takes : Prop where
  accepts : s.accepts C i = true
  busy : C.idle (s.cycle C i).core = false
  job : (s.cycle C i).job = i.req
  out : (s.cycle C i).out = []

/-- A request offered to a ready reader is taken, and its read completes within a number of
favourable cycles that its size bounds. -/
def Serves (P : RdReq → Prop) [DecidablePred P] (mem : Memory) : Prop :=
  C.idle s.core = true → ∀ i, i.reqVal = true → s.AllowedBy P mem i →
    s.Takes C i ∧ ∀ is s', run (step C) (AllowedBy P mem) (s.cycle C i) is = some s' →
      4 * i.req.size + 8 < tally (step C) smooth (s.cycle C i) is →
      s'.Finished s.finished.length i.req

end RdSystem

/-- What is to be shown of a reader: in each phase of a request a cycle ends it with a complete
read or leaves no more work than before, and less after a favourable one. -/
structure RdCore.Sound {ρ : Type} (C : RdCore ρ) (P : RdReq → Prop) (W : Nat) (mem : Memory)
    (Phase : RdSystem ρ → Prop) (work : RdSystem ρ → Nat) : Prop where
  init : ∀ s, RdSystem.Init C s → Phase s
  takes : ∀ s i, Phase s → C.idle s.core = true → i.reqVal = true → s.Takes C i
  idle : ∀ s i, Phase s → C.idle s.core = true → s.AllowedBy P mem i → Phase (s.cycle C i)
  busy : ∀ s i, Phase s → C.idle s.core = false → s.AllowedBy P mem i →
    Phase (s.cycle C i) ∧
      (s.completes C i = true ∧ s.job.Exact W mem (s.outStep C i) ∨
        s.completes C i = false ∧
          work (s.cycle C i) + (if s.smooth i then 1 else 0) ≤ work s)
  bound : ∀ s, Phase s → work s ≤ 4 * s.job.size + 8

/-- A reader that serves more requests serves these. -/
theorem RdCore.Sound.mono {ρ : Type} {C : RdCore ρ} {P Q : RdReq → Prop} {W : Nat} {mem : Memory}
    {Phase : RdSystem ρ → Prop} {work : RdSystem ρ → Nat} (S : C.Sound P W mem Phase work)
    (h : ∀ r, Q r → P r) : C.Sound Q W mem Phase work where
  init := S.init
  takes := S.takes
  idle s i hp hi hok := S.idle s i hp hi ⟨fun hv => h _ (hok.1 hv), hok.2⟩
  busy s i hp hi hok := S.busy s i hp hi ⟨fun hv => h _ (hok.1 hv), hok.2⟩
  bound := S.bound

namespace RdSystem

variable {ρ : Type} {C : RdCore ρ} {P : RdReq → Prop} {W : Nat} {mem : Memory}
  {Phase : RdSystem ρ → Prop}
  {work : RdSystem ρ → Nat} {s : RdSystem ρ} {i : RdIn}

theorem Finished.cycle {n : Nat} {r : RdReq} (h : s.Finished n r) :
    (s.cycle C i).Finished n r := by
  obtain ⟨d, hd, hr⟩ := h
  refine ⟨d, ?_, hr⟩
  simp only [RdSystem.cycle]
  split
  · rw [List.getElem?_append_left (List.getElem?_eq_some_iff.mp hd).1, hd]
  · exact hd

theorem finished_of_completes (hc : s.completes C i = true) :
    (s.cycle C i).Finished s.finished.length s.job := by
  refine ⟨(s.job, s.outStep C i), ?_, rfl⟩
  simp only [cycle, hc, if_true]
  exact List.getElem?_concat_length

/-! A cycle of a busy reader. -/

theorem cycle_job (hb : C.idle s.core = false) : (s.cycle C i).job = s.job := by
  simp [cycle, accepts, hb]

theorem cycle_out (hb : C.idle s.core = false) : (s.cycle C i).out = s.out ++
    (if i.dataRdy then (C.out s.core (s.signals C i)).toList else []) := by
  simp [cycle, outStep, accepts, hb]

theorem not_completes (hs : C.idle (s.cycle C i).core = false) : s.completes C i = false := by
  show (_ && C.idle (s.cycle C i).core) = false
  rw [hs, Bool.and_false]

theorem completes_of_idle (hb : C.idle s.core = false) (hs : C.idle (s.cycle C i).core = true) :
    s.completes C i = true := by
  show (!C.idle s.core && C.idle (s.cycle C i).core) = true
  rw [hb, hs]
  rfl

theorem cycle_eq {b : ρ} {r : RdReq} {out : List RdOut} (hc : (s.cycle C i).core = b)
    (hj : (s.cycle C i).job = r) (ho : (s.cycle C i).out = out) :
    s.cycle C i =
      ⟨b, (s.cycle C i).noc, (s.cycle C i).tile, r, out, (s.cycle C i).finished⟩ := by
  subst hc hj ho
  rfl

/-! The request between `rd_mem_noc_module` and the tile, in a cycle of the reader. -/

section port

variable {r : MemReq} {c : Nat}

theorem idle_stay (h : RdIdle s.noc s.tile) (hok : s.AllowedBy P mem i)
    (hm : C.memReq s.core (s.signals C i) = none) :
    RdIdle (s.cycle C i).noc (s.cycle C i).tile := by
  simp only [cycle, hm]
  exact h.stay hok.2

/-- A request is taken: nothing was delivered for it yet. -/
theorem takes_of_busy (h : RdIdle s.noc s.tile) (hi : C.idle s.core = true) (hv : i.reqVal = true)
    (hn : C.out s.core (s.signals C i) = none) (hb : C.idle (s.cycle C i).core = false) :
    s.Takes C i := by
  have hacc : s.accepts C i = true := by simp [accepts, hi, hv, h.reqRdy]
  exact ⟨hacc, hb, by simp [cycle, hacc], by simp [cycle, outStep, hacc, hn]⟩

theorem idle_ask (h : RdIdle s.noc s.tile) (hok : s.AllowedBy P mem i)
    (hm : C.memReq s.core (s.signals C i) = some r) (h0 : 0 < r.memReqSize)
    (hs : r.memReqSize ≤ 2 ^ 27) : RdServing (s.cycle C i).noc (s.cycle C i).tile r 0 := by
  simp only [cycle, hm]
  exact h.ask hok.2 h0 hs

theorem serving_wait (h : RdServing s.noc s.tile r c) (hok : s.AllowedBy P mem i)
    (hno : (s.noc.respVal i.toNocIn && s.respRdy C i) = false) :
    RdServing (s.cycle C i).noc (s.cycle C i).tile r c ∧
      (s.cycle C i).noc.delay ≤ s.noc.delay ∧
      (s.smooth i = true → s.respRdy C i = true → (s.cycle C i).noc.delay < s.noc.delay) := by
  obtain ⟨hs, hle, hlt⟩ := h.wait (q := C.memReq s.core (s.signals C i)) hok.2 hno
  exact ⟨hs, hle, fun hsm => hlt (Bool.and_eq_true _ _ ▸ hsm).2⟩

theorem serving_line (h : RdServing s.noc s.tile r c) (hok : s.AllowedBy P mem i)
    (hv : s.noc.respVal i.toNocIn = true) (hrdy : s.respRdy C i = true) :
    (∀ j < 64, 64 * c + j < r.memReqSize →
      byte i.respData j = mem (r.memReqAddr + (64 * c + j))) ∧
    (64 * (c + 1) < r.memReqSize → (s.signals C i).respLast = false ∧
      (s.signals C i).respPadbytes = 0 ∧
      RdServing (s.cycle C i).noc (s.cycle C i).tile r (c + 1)) ∧
    (r.memReqSize ≤ 64 * (c + 1) → (s.signals C i).respLast = true ∧
      (s.signals C i).respPadbytes = (64 - r.memReqSize % 64) % 64 ∧
      RdIdle (s.cycle C i).noc (s.cycle C i).tile) := by
  obtain ⟨hb, hmore, hend⟩ := h.line (q := C.memReq s.core (s.signals C i)) hok.2 hv hrdy
  refine ⟨fun j hj hlt => ?_, hmore, hend⟩
  rw [← Nat.add_assoc]
  exact hb j hj hlt

/-- Behind the first line a cycle without a line is not a favourable one. -/
theorem not_smooth (h : RdServing s.noc s.tile r c) (hc : 0 < c)
    (hv : s.noc.respVal i.toNocIn = false) : ¬ s.smooth i = true := by
  intro hs
  rw [h.resp_of_smooth hc (Bool.and_eq_true _ _ ▸ hs).2] at hv
  cases hv

end port

/-- The phase of a request and the reads completed before. -/
structure Inv (W : Nat) (mem : Memory) (Phase : RdSystem ρ → Prop) (s : RdSystem ρ) : Prop where
  phase : Phase s
  finished : ∀ d ∈ s.finished, d.1.Exact W mem d.2

theorem inv_cycle (S : C.Sound P W mem Phase work) (h : Inv W mem Phase s)
    (hok : s.AllowedBy P mem i) : Inv W mem Phase (s.cycle C i) := by
  cases hidle : C.idle s.core with
  | true =>
    refine ⟨S.idle s i h.phase hidle hok, fun d hd => ?_⟩
    simp only [cycle, completes, hidle] at hd
    exact h.finished d hd
  | false =>
    obtain ⟨hp, hb⟩ := S.busy s i h.phase hidle hok
    refine ⟨hp, fun d hd => ?_⟩
    simp only [cycle] at hd
    rcases hb with ⟨hc, hx⟩ | ⟨hc, -⟩
    · rw [hc, if_pos rfl] at hd
      rcases List.mem_append.mp hd with hd | hd
      · exact h.finished d hd
      · rw [List.mem_singleton.mp hd]
        exact hx
    · rw [hc, if_neg Bool.false_ne_true] at hd
      exact h.finished d hd

theorem busy_of_not_completes (hb : C.idle s.core = false) (hc : s.completes C i = false) :
    C.idle (s.cycle C i).core = false ∧ (s.cycle C i).job = s.job ∧
      (s.cycle C i).finished = s.finished := by
  refine ⟨?_, ?_, ?_⟩
  · show C.idle (C.step s.core (s.signals C i)) = false
    simpa [completes, hb] using hc
  · simp [cycle, accepts, hb]
  · simp [cycle, hc]

/-- The request being served completes within a number of favourable cycles that its size
bounds. -/
theorem finishes [DecidablePred P] (S : C.Sound P W mem Phase work) (h : Inv W mem Phase s)
    (hb : C.idle s.core = false) {is : List RdIn} {s' : RdSystem ρ}
    (hr : run (step C) (AllowedBy P mem) s is = some s')
    (ht : 4 * s.job.size + 8 < tally (step C) smooth s is) :
    s'.Finished s.finished.length s.job := by
  refine run_finishes_busy (F := fun t => t.Finished s.finished.length s.job)
    (I := Inv W mem Phase)
    (B := fun t => t.finished = s.finished ∧ C.idle t.core = false ∧ t.job = s.job)
    work ?_ ?_ ?_ h ⟨rfl, hb, rfl⟩ hr (Nat.lt_of_le_of_lt (S.bound s h.phase) ht)
  · intro t i t' hinv hok hs
    cases hs
    exact inv_cycle S hinv hok
  · intro t i t' hF hs
    cases hs
    exact hF.cycle
  · rintro t i t' hinv ⟨hf, hbt, hj⟩ hok hs
    cases hs
    obtain ⟨-, ⟨hc, -⟩ | ⟨hc, hw⟩⟩ := S.busy t i hinv.phase hbt hok
    · rw [← hf, ← hj]
      exact .inl (finished_of_completes hc)
    · obtain ⟨h1, h2, h3⟩ := busy_of_not_completes hbt hc
      exact .inr ⟨⟨h3.trans hf, h1, h2.trans hj⟩, hw⟩

/-- A cycle of a ready reader completes nothing. -/
theorem idle_finished (hi : C.idle s.core = true) : (s.cycle C i).finished = s.finished := by
  simp [cycle, completes, hi]

theorem serves [DecidablePred P] (S : C.Sound P W mem Phase work) (h : Inv W mem Phase s) :
    s.Serves C P mem := by
  intro hi i hv hok
  have htakes := S.takes s i h.phase hi hv
  refine ⟨htakes, fun is s' hr ht => ?_⟩
  rw [← htakes.job] at ht ⊢
  rw [← idle_finished (i := i) hi]
  exact finishes S (inv_cycle S h hok) htakes.busy hr ht

theorem inv_of_reach (S : C.Sound P W mem Phase work)
    (h : Reach (Init C) (step C) (AllowedBy P mem) s) : Inv W mem Phase s := by
  refine h.invariant ?_ ?_
  · intro t ht
    refine ⟨S.init t ht, fun d hd => ?_⟩
    rw [ht.2.2] at hd
    cases hd
  · intro t i t' hI hok hs
    cases hs
    exact inv_cycle S hI hok

end RdSystem

end TcpHw
