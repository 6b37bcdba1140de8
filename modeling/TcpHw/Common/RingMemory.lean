import TcpHw.Common.CircBufReadNew
import TcpHw.Common.CircBufWrite
import TcpHw.Lib.ByteMemory

/-!
# A writer and a reader on one memory

A circular buffer is written by `wr_circ_buf` and read by `rd_circ_buf_new` at the same time, each
through its own memory interface. While they work on different bytes, every operation is as if it
were done at once at its completion, on a memory that nobody else touches.
-/
namespace TcpHw

open Bytes Trace

set_option autoImplicit false

/-! ### Operations on a memory at rest -/

/-- A completed write with the lines it consumed, and a completed read with what it delivered. -/
inductive RingOp where
  | wrote (req : WrReq) (lines : List Line)
  | read (req : RdReq) (out : List RdOut)
  deriving DecidableEq

namespace RingOp

variable (W : Nat) (mem : Memory)

/-- The memory after the operation. -/
def apply : RingOp → Memory
  | .wrote r lines => storeBytes (ringAddr W r.flowid r.wrPtr) (streamByte lines) mem r.size
  | .read _ _ => mem

/-- The operation goes as it should on this memory. -/
def Exact : RingOp → Prop
  | .wrote r lines => lines.length = (r.size + 63) / 64
  | .read r out => r.Exact W mem out

end RingOp

/-- The operations one after the other. -/
def OneByOne (W : Nat) : Memory → List RingOp → Prop
  | _, [] => True
  | mem, op :: ops => op.Exact W mem ∧ OneByOne W (op.apply W mem) ops

/-- The memory after the operations. -/
def contents (W : Nat) (mem : Memory) (ops : List RingOp) : Memory := ops.foldl (RingOp.apply W) mem

theorem contents_append (W : Nat) (mem : Memory) (ops ops' : List RingOp) :
    contents W mem (ops ++ ops') = contents W (contents W mem ops) ops' := List.foldl_append

theorem oneByOne_append {W : Nat} {mem : Memory} {ops ops' : List RingOp} :
    OneByOne W mem (ops ++ ops') ↔ OneByOne W mem ops ∧ OneByOne W (contents W mem ops) ops' := by
  induction ops generalizing mem with
  | nil => simp [OneByOne, contents]
  | cons op ops ih =>
    show _ ∧ OneByOne W (op.apply W mem) (ops ++ ops') ↔ (_ ∧ _) ∧ _
    rw [ih, and_assoc]
    rfl

/-- A piece to be written and a piece to be read have no byte in common. -/
def Apart (W : Nat) (w : WrReq) (r : RdReq) : Prop :=
  ∀ j < w.size, ∀ k < r.size, ringAddr W w.flowid w.wrPtr j ≠ ringAddr W r.flowid r.offset k

instance (W : Nat) (w : WrReq) (r : RdReq) : Decidable (Apart W w r) := by
  unfold Apart
  infer_instance

theorem Apart.ring_wrote {W : Nat} {w : WrReq} {r : RdReq} (h : Apart W w r) (mem : Memory)
    (lines : List Line) {k : Nat} (hk : k < r.size) :
    r.ring W ((RingOp.wrote w lines).apply W mem) k = r.ring W mem k :=
  storeBytes_frame fun j hj => h j hj k hk

/-! ### The writer -/

namespace WrSystem

variable {W : Nat} {s : WrSystem} {i : WrIn}

/-- Some first bytes of a request that is served are stored. -/
theorem Phase.filled (h : s.Phase W) (hb : s.buf.state ≠ .ready) :
    ∃ pos ≤ s.job.req.size, Filled W s.job s.tile.mem pos := by
  cases h with
  | idle hr _ _ => exact absurd hr hb
  | making h =>
    have hr := h.serves.base_add_rem
    exact ⟨s.base, Nat.le.intro hr, h.filled⟩
  | buffering h =>
    have hr := h.serves.base_add_rem
    exact ⟨s.base, Nat.le.intro hr, h.filled⟩
  | sending sent h =>
    have hr := h.serves.base_add_reqSize
    have hlt := h.flight.lt
    have hle : s.base + sent ≤ s.job.req.size := by
      have hb : s.base = s.buf.base s.job.req := rfl
      omega
    exact ⟨s.base + sent, hle, h.filled⟩
  | waiting h => exact ⟨_, h.serves.base_add_reqSize, h.filled⟩

/-- A byte outside the piece is as it was before the request. -/
theorem Phase.kept (h : s.Phase W) (hb : s.buf.state ≠ .ready) {x : Nat}
    (hx : ∀ k < s.job.req.size, ringAddr W s.job.req.flowid s.job.req.wrPtr k ≠ x) :
    s.tile.mem x = s.job.before x := by
  obtain ⟨pos, hle, hf⟩ := h.filled hb
  exact hf.kept x fun k hk => (hx k (by omega)).symm

theorem cycle_before (hb : s.buf.state ≠ .ready) : (s.cycle W i).job.before = s.job.before := by
  simp only [cycle, jobStep]
  split
  · rename_i hs _
    exact absurd hs hb
  · rfl

theorem Phase.idle_noc (h : s.Phase W) (hb : s.buf.state = .ready) : s.noc.state = .ready := by
  cases h with
  | idle _ hn _ => exact hn
  | making h => rw [h.state] at hb; cases hb
  | buffering h => rw [h.state] at hb; cases hb
  | sending _ h => rw [h.state] at hb; cases hb
  | waiting h => rw [h.state] at hb; cases hb

/-- A ready writer stores nothing, and takes a request if there is one. -/
theorem Phase.idle_cycle (h : s.Phase W) (hb : s.buf.state = .ready) :
    (s.cycle W i).tile.mem = s.tile.mem ∧
      (∀ r, i.req = some r → (s.cycle W i).job.before = s.tile.mem ∧ (s.cycle W i).job.req = r) ∧
      ((s.cycle W i).buf.state ≠ .ready → i.req.isSome = true) ∧ s.completes W i = false := by
  have hn := h.idle_noc hb
  refine ⟨?_, ?_, ?_, ?_⟩
  · have hflit : s.flit W i = none := by simp [flit, WrMemNoc.nocReq, hn]
    simp only [cycle, tileStep, hflit]
    split <;> rfl
  · intro r hr
    simp [cycle, jobStep, hb, hr]
  · intro hne
    cases hr : i.req with
    | none => exact absurd (by simp [cycle, WrCircBuf.step, hb, bufIn, hr]) hne
    | some r => rfl
  · simp [completes, WrCircBuf.srcDone, hb]

/-- A write completes without storing anything more, and leaves what it was to leave. -/
theorem Phase.completes_cycle (h : s.Phase W) (hok : s.Allowed W i) (hc : s.completes W i = true) :
    (s.cycle W i).buf.state = .ready ∧
      (s.cycle W i).tile.mem = (RingOp.wrote s.job.req s.job.lines).apply W s.job.before ∧
      s.job.lines.length = (s.job.req.size + 63) / 64 := by
  have hexact := h.completed hc
  simp only [completes, WrCircBuf.srcDone, Bool.and_eq_true, beq_iff_eq, Bool.not_eq_true'] at hc
  obtain ⟨⟨⟨hw, hs⟩, hd⟩, hrdy⟩ := hc
  have hwait : s.Waiting W := by
    cases h with
    | idle hb _ _ => rw [hb] at hw; cases hw
    | making h => rw [h.state] at hw; cases hw
    | buffering h => rw [h.state] at hw; cases hw
    | sending _ h => rw [h.state] at hw; cases hw
    | waiting h => exact h
  refine ⟨?_, ?_, hexact.lines⟩
  · have hdone : s.noc.wrReqDone i.resp = true := hd
    simp [cycle, WrCircBuf.step, hw, hdone, WrCircBuf.memDoneRdy, hs, bufIn, hrdy]
  · have hmem : (s.cycle W i).tile.mem = s.tile.mem := by rw [hwait.cycle_tile hok]
    rw [hmem]
    funext x
    show _ = storeBytes _ _ _ _ x
    by_cases hx : ∃ k < s.job.req.size, ringAddr W s.job.req.flowid s.job.req.wrPtr k = x
    · obtain ⟨k, hk, rfl⟩ := hx
      have hp := hwait.serves.ptr
      have hz := hwait.serves.size
      rw [hexact.stored.written k hk, storeBytes_apply ?_ hk]
      intro a ha b hb hab
      exact ringAddr_inj hp (by omega) (by omega) hab
    · have hout : ∀ k < s.job.req.size, ringAddr W s.job.req.flowid s.job.req.wrPtr k ≠ x :=
        fun k hk hc => hx ⟨k, hk, hc⟩
      rw [storeBytes_frame hout, hexact.stored.kept x fun k hk => (hout k hk).symm]

end WrSystem

/-! ### The reader -/

namespace RdNew

variable {W : Nat} {mem mem' : Memory} {s : RdSystem RdCircBufNew} {i : RdIn}

/-- The request at the memory tile is a part of the read. -/
theorem Phase.serving (h : Phase W mem s) (hs : s.core.state ≠ .ready) :
    s.job.Fits W ∧ (RdIdle s.noc s.tile ∨ ∃ w c, (w = true → s.job.wraps W = true) ∧
      RdServing s.noc s.tile (s.job.part W w) c) := by
  cases h with
  | idle hr => exact absurd hr hs
  | waitResp h => exact ⟨h.reading.valid, .inr ⟨false, 0, fun hw => Bool.noConfusion hw, h.serving⟩⟩
  | dataBuffer h => exact ⟨h.reading.valid, .inr ⟨false, 1, fun hw => Bool.noConfusion hw, h.serving⟩⟩
  | dataOutput w c pos h => exact ⟨h.reading.valid, .inr ⟨w, c, h.wrapped, h.serving⟩⟩
  | dataDrain pos h => exact ⟨h.reading.valid, .inl h.idle⟩
  | dataOutForWrap pos h => exact ⟨h.reading.valid, .inl h.idle⟩
  | wrapReq pos h => exact ⟨h.saved.reading.valid, .inl h.idle⟩
  | waitWrapResp pos h =>
    exact ⟨h.saved.reading.valid, .inr ⟨true, 0, fun _ => h.saved.wraps, h.serving⟩⟩

/-- An answer out of one memory is an answer out of another one that has the same bytes in the piece
that is read. -/
theorem Phase.answers (h : Phase W mem s) (hok : s.tile.Answers mem' i.toNocIn)
    (hsame : s.core.state ≠ .ready → ∀ k < s.job.size, s.job.ring W mem' k = s.job.ring W mem k) :
    s.tile.Answers mem i.toNocIn := by
  intro hr
  obtain ⟨hbusy, hlen, hbytes⟩ := hok hr
  refine ⟨hbusy, hlen, fun hhdr j hj hlt => ?_⟩
  rw [hbytes hhdr j hj hlt]
  have hs : s.core.state ≠ .ready := by
    intro hs
    have hidle := (h.rdIdle hs).tile
    rw [hbusy] at hidle
    cases hidle
  obtain ⟨hfits, hidle | ⟨w, c, hw, hserv⟩⟩ := h.serving hs
  · have htile := hidle.tile
    rw [hbusy] at htile
    cases htile
  · rcases hserv.ctl with ⟨-, -, hb⟩ | ⟨-, haddr, hsize, -, -⟩
    · rw [hbusy] at hb
      cases hb
    · rw [hsize] at hlt
      have hend := (part_end (W := W) (r := s.job) (w := w)).1
      rw [haddr, Nat.add_assoc, RdReq.part_byte mem' hfits hw hlt, RdReq.part_byte mem hfits hw hlt]
      exact hsame hs _ (by omega)

end RdNew

theorem RdReq.Exact.congr {W : Nat} {mem mem' : Memory} {r : RdReq} {out : List RdOut}
    (h : r.Exact W mem out) (hsame : ∀ k < r.size, r.ring W mem k = r.ring W mem' k) :
    r.Exact W mem' out :=
  ⟨h.lines, h.last, h.padbytes, fun k hk => (h.bytes k hk).trans (hsame k hk)⟩

/-! ### Both on one memory -/

/-- The memory is that of the writer's tile; `log` lists the completed operations. -/
structure RingSystem where
  wr : WrSystem
  rd : RdSystem RdCircBufNew
  log : List RingOp

structure RingIn where
  wr : WrIn
  rd : RdIn

namespace RingSystem

variable {W : Nat} {start : Memory} {s : RingSystem} {i : RingIn}

/-- The piece being written, or to be written from this cycle on. -/
def writing (s : RingSystem) (i : RingIn) : Option WrReq :=
  if s.wr.buf.state = .ready then i.wr.req else some s.wr.job.req

/-- The piece being read, or to be read from this cycle on. -/
def reading (s : RingSystem) (i : RingIn) : Option RdReq :=
  if s.rd.core.state = .ready then (if i.rd.reqVal then some i.rd.req else none) else some s.rd.job

/-- The read that completes in this cycle, if there is one. -/
def readDone (W : Nat) (s : RingSystem) (i : RingIn) : List RingOp :=
  if s.rd.completes (rdCircBufNew W) i.rd then
    [.read s.rd.job (s.rd.outStep (rdCircBufNew W) i.rd)] else []

/-- The write that completes in this cycle, if there is one. -/
def writeDone (W : Nat) (s : RingSystem) (i : RingIn) : List RingOp :=
  if s.wr.completes W i.wr then [.wrote s.wr.job.req s.wr.job.lines] else []

def cycle (W : Nat) (s : RingSystem) (i : RingIn) : RingSystem where
  wr := s.wr.cycle W i.wr
  rd := s.rd.cycle (rdCircBufNew W) i.rd
  log := s.log ++ (s.readDone W i ++ s.writeDone W i)

def step (W : Nat) (s : RingSystem) (i : RingIn) : Option RingSystem := some (s.cycle W i)

def Init (W : Nat) (start : Memory) (s : RingSystem) : Prop :=
  s.wr.Init ∧ RdSystem.Init (rdCircBufNew W) s.rd ∧ s.wr.tile.mem = start ∧ s.log = []

/-- The tile of the reader answers out of the memory as it is. -/
def Served (W : Nat) (s : RingSystem) (i : RingIn) : Prop :=
  s.wr.Allowed W i.wr ∧ s.rd.Allowed W s.wr.tile.mem i.rd

instance (W : Nat) (s : RingSystem) (i : RingIn) : Decidable (s.Served W i) := by
  unfold Served
  infer_instance

/-- Besides, what is written and what is read are apart. -/
def Allowed (W : Nat) (s : RingSystem) (i : RingIn) : Prop :=
  s.Served W i ∧ ∀ w ∈ s.writing i, ∀ r ∈ s.reading i, Apart W w r

instance (W : Nat) (s : RingSystem) (i : RingIn) : Decidable (s.Allowed W i) := by
  unfold Allowed
  infer_instance

/-- The memory after the completed operations. -/
def stored (W : Nat) (start : Memory) (s : RingSystem) : Memory := contents W start s.log

/-- The operations so far are serial; the memory differs from what they left only in the piece being
written, and what the reader has seen of its piece is still there. -/
structure Inv (W : Nat) (start : Memory) (s : RingSystem) : Prop where
  serial : OneByOne W start s.log
  wr : s.wr.Phase W
  idle : s.wr.buf.state = .ready → s.wr.tile.mem = s.stored W start
  busy : s.wr.buf.state ≠ .ready → s.wr.job.before = s.stored W start
  rd : ∃ seen, RdNew.Phase W seen s.rd ∧ (s.rd.core.state ≠ .ready →
    ∀ k < s.rd.job.size, s.rd.job.ring W (s.stored W start) k = s.rd.job.ring W seen k)

/-- The piece that is read is in the memory as the completed operations left it. -/
theorem Inv.ring_eq (h : Inv W start s) (hok : s.Allowed W i) {r : RdReq} (hr : r ∈ s.reading i)
    {k : Nat} (hk : k < r.size) : r.ring W s.wr.tile.mem k = r.ring W (s.stored W start) k := by
  by_cases hb : s.wr.buf.state = .ready
  · rw [h.idle hb]
  · have hw : s.wr.job.req ∈ s.writing i := by simp [writing, hb]
    have hapart := hok.2 _ hw r hr
    rw [← h.busy hb]
    exact h.wr.kept hb fun j hj => hapart j hj k hk

theorem stored_cycle : (s.cycle W i).stored W start =
    if s.wr.completes W i.wr then
      (RingOp.wrote s.wr.job.req s.wr.job.lines).apply W (s.stored W start)
    else s.stored W start := by
  show contents W start (s.log ++ (s.readDone W i ++ s.writeDone W i)) = _
  rw [contents_append, contents_append, readDone, writeDone]
  cases s.rd.completes (rdCircBufNew W) i.rd <;> cases s.wr.completes W i.wr <;> rfl

/-- The write that completes changes nothing in the piece that is read. -/
theorem Inv.ring_next (h : Inv W start s) (hok : s.Allowed W i) {r : RdReq} (hr : r ∈ s.reading i)
    {k : Nat} (hk : k < r.size) :
    r.ring W ((s.cycle W i).stored W start) k = r.ring W (s.stored W start) k := by
  rw [stored_cycle]
  cases hc : s.wr.completes W i.wr with
  | false => rfl
  | true =>
    have hb : s.wr.buf.state ≠ .ready := by
      intro hb
      rw [(h.wr.idle_cycle hb).2.2.2] at hc
      cases hc
    have hw : s.wr.job.req ∈ s.writing i := by simp [writing, hb]
    exact (hok.2 _ hw r hr).ring_wrote _ _ hk

/-- What the reader sees agrees with what it has seen. -/
theorem Inv.answers (h : Inv W start s) (hok : s.Allowed W i) {seen : Memory}
    (hp : RdNew.Phase W seen s.rd) (hseen : s.rd.core.state ≠ .ready →
      ∀ k < s.rd.job.size, s.rd.job.ring W (s.stored W start) k = s.rd.job.ring W seen k) :
    s.rd.Allowed W seen i.rd := by
  refine ⟨hok.1.2.1, hp.answers hok.1.2.2 ?_⟩
  intro hs k hk
  have hr : s.rd.job ∈ s.reading i := by simp [reading, hs]
  exact (h.ring_eq hok hr hk).trans (hseen hs k hk)

theorem inv_init (h : Init W start s) : Inv W start s := by
  obtain ⟨⟨hb, hn, ht, -⟩, ⟨hi, hidle, -⟩, hmem, hlog⟩ := h
  have hstored : s.stored W start = start := by rw [stored, hlog]; rfl
  refine ⟨by rw [hlog]; trivial, .idle hb hn ht, fun _ => hmem.trans hstored.symm,
    fun hne => absurd hb hne, start, .idle (beq_iff_eq.mp hi) hidle, ?_⟩
  intro hne
  exact absurd (beq_iff_eq.mp hi) hne

/-- A read delivers what is stored. -/
theorem Inv.read_delivers (hW : W < 28) (h : Inv W start s) (hok : s.Allowed W i)
    (hc : s.rd.completes (rdCircBufNew W) i.rd = true) :
    s.rd.core.state ≠ .ready ∧
      s.rd.job.Exact W (s.stored W start) (s.rd.outStep (rdCircBufNew W) i.rd) := by
  obtain ⟨seen, hp, hseen⟩ := h.rd
  have hs : s.rd.core.state ≠ .ready := by
    intro hs
    simp [RdSystem.completes, rdCircBufNew, hs] at hc
  refine ⟨hs, ?_⟩
  obtain ⟨-, ⟨-, hexact⟩ | ⟨hno, -⟩⟩ :=
    (RdNew.sound hW).busy s.rd i.rd hp (RdNew.busy hs) (h.answers hok hp hseen)
  · exact hexact.congr fun k hk => (hseen hs k hk).symm
  · rw [hno] at hc
    cases hc

/-- What completes in this cycle goes as it should on what was completed before. -/
theorem Inv.completed (hW : W < 28) (h : Inv W start s) (hok : s.Allowed W i) :
    OneByOne W (s.stored W start) (s.readDone W i ++ s.writeDone W i) := by
  refine oneByOne_append.mpr ⟨?_, ?_⟩
  · unfold readDone
    cases hc : s.rd.completes (rdCircBufNew W) i.rd with
    | false => trivial
    | true => exact ⟨(h.read_delivers hW hok hc).2, trivial⟩
  · unfold writeDone
    cases hc : s.wr.completes W i.wr with
    | false => trivial
    | true => exact ⟨(h.wr.completes_cycle hok.1.1 hc).2.2, trivial⟩

/-- The writer goes on, takes a request, or completes one. -/
theorem Inv.writer (hW : W < 28) (h : Inv W start s) (hok : s.Allowed W i) :
    (s.wr.cycle W i.wr).Phase W ∧
      ((s.wr.cycle W i.wr).buf.state = .ready →
        (s.wr.cycle W i.wr).tile.mem = (s.cycle W i).stored W start) ∧
      ((s.wr.cycle W i.wr).buf.state ≠ .ready →
        (s.wr.cycle W i.wr).job.before = (s.cycle W i).stored W start) := by
  rw [stored_cycle]
  have hnext : (s.wr.cycle W i.wr).Phase W := by
    rcases h.wr.advances hW hok.1.1 with ⟨-, hp⟩ | ha
    · exact hp
    · exact ha.phase
  refine ⟨hnext, ?_⟩
  by_cases hb : s.wr.buf.state = .ready
  · obtain ⟨hmem, htakes, hreq, hno⟩ := h.wr.idle_cycle (i := i.wr) hb
    rw [hno, if_neg Bool.false_ne_true]
    refine ⟨fun _ => hmem.trans (h.idle hb), fun hne => ?_⟩
    obtain ⟨r, hr⟩ := Option.isSome_iff_exists.mp (hreq hne)
    exact (htakes r hr).1.trans (h.idle hb)
  · cases hc : s.wr.completes W i.wr with
    | true =>
      obtain ⟨hready, hmem, -⟩ := h.wr.completes_cycle hok.1.1 hc
      rw [if_pos rfl]
      exact ⟨fun _ => h.busy hb ▸ hmem, fun hne => absurd hready hne⟩
    | false =>
      rw [if_neg Bool.false_ne_true]
      refine ⟨fun hready => ?_, fun _ => (WrSystem.cycle_before hb).trans (h.busy hb)⟩
      rw [WrSystem.completes_of_ready hb hready] at hc
      cases hc

/-- The reader goes on with what it has seen, or takes a request and sees what is stored. -/
theorem Inv.reader (hW : W < 28) (h : Inv W start s) (hok : s.Allowed W i) :
    ∃ seen, RdNew.Phase W seen (s.rd.cycle (rdCircBufNew W) i.rd) ∧
      ((s.rd.cycle (rdCircBufNew W) i.rd).core.state ≠ .ready →
        ∀ k < (s.rd.cycle (rdCircBufNew W) i.rd).job.size,
          (s.rd.cycle (rdCircBufNew W) i.rd).job.ring W ((s.cycle W i).stored W start) k =
            (s.rd.cycle (rdCircBufNew W) i.rd).job.ring W seen k) := by
  obtain ⟨seen, hp, hseen⟩ := h.rd
  by_cases hs : s.rd.core.state = .ready
  · have hidle : RdNew.Phase W (s.stored W start) s.rd := .idle hs (hp.rdIdle hs)
    have hans := h.answers hok hidle fun hne => absurd hs hne
    refine ⟨s.stored W start, (RdNew.sound hW).idle s.rd i.rd hidle (beq_iff_eq.mpr hs) hans, ?_⟩
    intro hne k hk
    have hval : i.rd.reqVal = true := by
      by_contra hv
      exact hne (RdNew.ready_stays hs (by simpa using hv))
    have hjob := (RdNew.ready_takes (W := W) hs (hp.rdIdle hs) hval).job
    rw [hjob] at hk ⊢
    exact h.ring_next hok (by simp [reading, hs, hval]) hk
  · have hans := h.answers hok hp hseen
    obtain ⟨hnext, -⟩ := (RdNew.sound hW).busy s.rd i.rd hp (RdNew.busy hs) hans
    refine ⟨seen, hnext, fun _ k hk => ?_⟩
    rw [RdNew.cycle_job hs] at hk ⊢
    exact (h.ring_next hok (by simp [reading, hs]) hk).trans (hseen hs k hk)

theorem inv_cycle (hW : W < 28) (h : Inv W start s) (hok : s.Allowed W i) :
    Inv W start (s.cycle W i) := by
  obtain ⟨hwr, hidle, hbusy⟩ := h.writer hW hok
  exact ⟨oneByOne_append.mpr ⟨h.serial, h.completed hW hok⟩, hwr, hidle, hbusy, h.reader hW hok⟩

theorem inv_of_reach (hW : W < 28) (h : Reach (Init W start) (step W) (Allowed W) s) :
    Inv W start s := by
  refine h.invariant (fun t ht => inv_init ht) ?_
  intro t i t' hI hok hs
  cases hs
  exact inv_cycle hW hI hok

/-- While what is written and what is read are apart, the completed operations are serial in the
order of their completion: each read has delivered what the writes completed before it have left,
and between two writes the memory is what all of them have left. -/
theorem ring_memory_serial (hW : W < 28) (h : Reach (Init W start) (step W) (Allowed W) s) :
    OneByOne W start s.log ∧
      (s.wr.buf.state = .ready → s.wr.tile.mem = contents W start s.log) :=
  ⟨(inv_of_reach hW h).serial, (inv_of_reach hW h).idle⟩

def reset : RingSystem := ⟨WrSystem.reset, RdNew.reset, []⟩

/-- The bytes 1, 2, 3 and so on. -/
def counting : Line := lineOf 64 fun j => BitVec.ofNat 8 (j + 1)

/-- Ten bytes are written up to the end of the ring of flow 3, and read while ten more are written
behind them. -/
def writeThenBoth : List RingIn :=
  [⟨{ WrSystem.ready 0 false with req := some ⟨3, 4086, 10⟩ }, .calm⟩,
    ⟨WrSystem.ready counting false, .calm⟩, ⟨WrSystem.ready counting false, .calm⟩,
    ⟨WrSystem.ready counting false, .calm⟩, ⟨WrSystem.ready counting true, .calm⟩,
    ⟨{ WrSystem.ready 0 false with req := some ⟨3, 0, 10⟩ }, .ask ⟨3, 4086, 10⟩⟩,
    ⟨WrSystem.ready counting false, .calm⟩, ⟨WrSystem.ready counting false, .header 1⟩,
    ⟨WrSystem.ready counting false, .line counting⟩, ⟨WrSystem.ready counting true, .calm⟩]

theorem ring_memory_serial_both : ∃ s, Reach (Init 12 fun _ => 0) (step 12) (Allowed 12) s ∧
    s.log = [.wrote ⟨3, 4086, 10⟩ [counting], .read ⟨3, 4086, 10⟩ [⟨counting, true, 54⟩],
      .wrote ⟨3, 0, 10⟩ [counting]] ∧
    OneByOne 12 (fun _ => 0) s.log := by
  have hrun : ∃ s, Reach (Init 12 fun _ => 0) (step 12) (Allowed 12) s ∧
      decide (s.log = [.wrote ⟨3, 4086, 10⟩ [counting],
        .read ⟨3, 4086, 10⟩ [⟨counting, true, 54⟩], .wrote ⟨3, 0, 10⟩ [counting]]) = true :=
    Reach.exists_of_run (s := reset) writeThenBoth
      ⟨⟨rfl, rfl, rfl, rfl⟩, ⟨rfl, ⟨rfl, rfl⟩, rfl⟩, rfl, rfl⟩ (by decide +kernel)
  obtain ⟨s, hr, hp⟩ := hrun
  exact ⟨s, hr, of_decide_eq_true hp, (ring_memory_serial (by decide) hr).1⟩

end RingSystem

end TcpHw
