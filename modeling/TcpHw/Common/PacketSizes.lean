import TcpHw.Common.PacketFrames

/-!
# The queue of packet sizes

With every packet it commits the controller writes the packet's size into a FIFO of the same
depth, without looking whether there is room. For a stream of whole frames, and a reader that
takes a size exactly with the last line of a packet, the FIFO has one entry for each packet
that has not been read to its end.
-/
namespace TcpHw

open Trace

set_option autoImplicit false

/-! ### Packets not read to their end -/

/-- The frames of which some line is left after `k` lines have been read. -/
def unread {β : Type} : List (List β) → Nat → List (List β)
  | [], _ => []
  | f :: fs, k => if f.length ≤ k then unread fs (k - f.length) else f :: fs

section Unread

variable {β : Type} {fs : List (List β)}

theorem unread_zero (h : ∀ f ∈ fs, f ≠ []) : unread fs 0 = fs := by
  cases fs with
  | nil => rfl
  | cons f fs =>
    have hne : ¬ f.length ≤ 0 := by
      have hpos := List.length_pos_iff.mpr (h f (by simp))
      omega
    rw [unread, if_neg hne]

theorem unread_append {k : Nat} (hk : k ≤ fs.flatten.length) {f : List β} (hf : f ≠ []) :
    unread (fs ++ [f]) k = unread fs k ++ [f] := by
  induction fs generalizing k with
  | nil =>
    have h0 : k = 0 := by simpa using hk
    subst h0
    exact unread_zero (by simpa using hf)
  | cons g fs ih =>
    rw [List.flatten_cons, List.length_append] at hk
    rw [List.cons_append, unread, unread]
    split
    · exact ih (by omega)
    · rfl

/-- Every frame not read to its end has a line left. -/
theorem unread_length_le (h : ∀ f ∈ fs, f ≠ []) (k : Nat) :
    (unread fs k).length ≤ fs.flatten.length - k := by
  induction fs generalizing k with
  | nil => simp [unread]
  | cons g fs ih =>
    have htail : ∀ f ∈ fs, f ≠ [] := fun f hf => h f (List.mem_cons_of_mem _ hf)
    rw [List.flatten_cons, List.length_append, unread]
    split
    · have hi := ih htail (k - g.length)
      omega
    · have hi := ih htail 0
      rw [unread_zero htail] at hi
      rw [List.length_cons]
      omega

end Unread

variable {n : Nat} {α : Type}

theorem Whole.ne_nil {f : List (FrameLine α)} (h : Whole f) : f ≠ [] := by
  obtain ⟨⟨_, _, rfl, -⟩, -⟩ := h
  simp

/-- Of the lines of a whole frame just the last one ends it. -/
theorem Whole.endFrame_iff {f : List (FrameLine α)} (h : Whole f) {k : Nat} {l : FrameLine α}
    (hl : f[k]? = some l) : l.endFrame = true ↔ k + 1 = f.length := by
  obtain ⟨-, g, last, rfl, hlast, hg⟩ := h
  rw [List.length_append, List.length_singleton]
  by_cases hlt : k < g.length
  · rw [List.getElem?_append_left hlt] at hl
    rw [hg l (List.mem_of_getElem? hl)]
    simp
    omega
  · have hk : k < (g ++ [last]).length := (List.getElem?_eq_some_iff.mp hl).1
    rw [List.length_append, List.length_singleton] at hk
    have he : k = g.length := by omega
    subst he
    simp only [List.getElem?_concat_length, Option.some.injEq] at hl
    simp [← hl, hlast]

/-- Reading a line takes a frame off the list when the line is its last. -/
theorem unread_succ {fs : List (List (FrameLine α))} (h : ∀ f ∈ fs, Whole f) {k : Nat}
    {l : FrameLine α} (hl : fs.flatten[k]? = some l) :
    unread fs k ≠ [] ∧ unread fs (k + 1) =
      if l.endFrame then (unread fs k).tail else unread fs k := by
  induction fs generalizing k with
  | nil => simp at hl
  | cons g fs ih =>
    have htail : ∀ f ∈ fs, Whole f := fun f hf => h f (List.mem_cons_of_mem _ hf)
    rw [List.flatten_cons] at hl
    by_cases hg : g.length ≤ k
    · have hs : k + 1 - g.length = k - g.length + 1 := by omega
      rw [List.getElem?_append_right hg] at hl
      rw [unread, if_pos hg, unread, if_pos (by omega), hs]
      exact ih htail hl
    · have hlt : k < g.length := by omega
      rw [List.getElem?_append_left hlt] at hl
      rw [unread, if_neg hg, unread]
      refine ⟨by simp, ?_⟩
      have hend := (h g (by simp)).endFrame_iff hl
      by_cases hlast : k + 1 = g.length
      · rw [if_pos (by omega), hlast, Nat.sub_self, if_pos (hend.mpr hlast),
          unread_zero fun f hf => (htail f hf).ne_nil]
        rfl
      · rw [if_neg (by omega), if_neg (fun he => hlast (hend.mp he))]

/-! ### The sizes -/

/-- The bytes of a frame. -/
def frameBytes (f : List (FrameLine α)) : Nat :=
  64 * f.length - (f.getLast?.map fun l => l.endPadbytes.toNat).getD 0

/-- The lines since the last one that ended a frame. -/
def current (w : List (FrameLine α × Bool)) : List (FrameLine α) :=
  w.foldl (fun cur x => if x.1.endFrame then [] else cur ++ [x.1]) []

theorem current_append (w : List (FrameLine α × Bool)) (x : FrameLine α × Bool) :
    current (w ++ [x]) = if x.1.endFrame then [] else current w ++ [x.1] := by
  simp [current]

namespace PqRun

/-- The stream is one of whole frames shorter than `2 ^ MTU_SIZE_W` bytes, and a size is taken
exactly with the last line of a packet. -/
structure InOrder (s : PqRun n α) (i : PqIn α) : Prop where
  start : ∀ l ∈ i.wr, l.startFrame = true ↔ current s.written = []
  short : ∀ l ∈ i.wr, l.endFrame = true → frameBytes (current s.written ++ [l]) < 2 ^ 14
  sizeRd : i.sizeRdReq = true ↔
    i.rdReq = true ∧ (s.framer.frames.flatten[s.read.length]?).any FrameLine.endFrame = true

/-- The sizes are those of the packets not read to their end, and there is room for them. -/
structure SizesInStep (s : PqRun n α) (frames : List (List (FrameLine α))) : Prop where
  sizes : s.ctl.sizes.contents.map BitVec.toNat = (unread frames s.read.length).map frameBytes
  count : s.ctl.sizes.contents.length ≤ 2 ^ n
  noOverflow : ∀ i, (s.ctl.ctl i).sizeWrReq = true → s.ctl.sizes.full = false

structure SizeInv (s : PqRun n α) (sizes : List (BitVec 14)) : Prop where
  open_eq : s.framer.state = .writingFrame → s.framer.opened = current s.written
  represents : s.ctl.sizes.Represents sizes
  sizes : sizes.map BitVec.toNat = (unread s.framer.frames s.read.length).map frameBytes

variable {s : PqRun n α} {i : PqIn α}

/-- `curr_pkt_els << NOC_DATA_BYTES_W` less the padding is the length, also when the shift
overflows. -/
theorem size_eq {m : Nat} {pad : BitVec 6} (hm : 0 < m) (hm' : m < 2 ^ (n + 1))
    (hs : 64 * m - pad.toNat < 2 ^ 14) :
    (((BitVec.ofNat (n + 1) m).setWidth 14 <<< 6) - pad.setWidth 14 : BitVec 14).toNat =
      64 * m - pad.toNat := by
  have hpad := pad.isLt
  simp only [BitVec.toNat_sub, BitVec.toNat_shiftLeft, BitVec.toNat_setWidth, BitVec.toNat_ofNat,
    Nat.mod_eq_of_lt hm', Nat.shiftLeft_eq]
  omega

/-- A commit writes a size, and nothing else does. -/
theorem sizeWrReq_eq (st : PqState) (full : Bool) (l : FrameLine α) :
    (pqControl st full l).sizeWrReq = (pqControl st full l).cmtPacket := by
  cases st <;> cases full <;> cases hs : l.startFrame <;> cases he : l.endFrame <;>
    simp [pqControl, PqCtl.idle, hs, he]

theorem cmtPacket_cases {st : PqState} {full : Bool} {l : FrameLine α}
    (h : (pqControl st full l).cmtPacket = true) :
    full = false ∧ l.endFrame = true ∧
      ((st = .ready ∧ l.startFrame = true) ∨ st = .writingFrame) := by
  cases st <;> cases full <;> cases hs : l.startFrame <;> cases he : l.endFrame <;>
    simp [pqControl, PqCtl.idle, hs, he] at h ⊢

/-- A stream of whole frames has no frame inside another. -/
theorem noSingleInside_of_inOrder (h : Sound s) {sizes : List (BitVec 14)} (hz : SizeInv s sizes)
    (hok : InOrder s i) : NoSingleInside s i := by
  intro l hl hw _ hse
  obtain ⟨done, pending, hi⟩ := h.queue
  rw [hi.state] at hw
  obtain ⟨⟨a, g, ho, -⟩, -⟩ := h.frames.started hw
  rw [hz.open_eq hw, (hok.start l hl).mp hse.1] at ho
  cases ho

theorem open_step (h : Sound s) {sizes : List (BitVec 14)} (hz : SizeInv s sizes)
    (hok : InOrder s i) (hw' : (s.step i).framer.state = .writingFrame) :
    (s.step i).framer.opened = current (s.step i).written := by
  cases hw : i.wr with
  | none =>
    rw [framer_none hw] at hw' ⊢
    simpa [step, hw] using hz.open_eq hw'
  | some l =>
    have hcur : current (s.step i).written =
        if l.endFrame then [] else current s.written ++ [l] := by
      simp only [step, hw, Option.map_some, Option.toList_some, current_append]
    rw [framer_some hw] at hw' ⊢
    rw [hcur]
    have ht := Framer.take_cases s.framer l s.ctl.queue.full
    generalize s.framer.take (l, s.ctl.queue.full) = f' at ht hw' ⊢
    cases ht with
    | ignore _ _ next | overflow _ _ next => exact absurd hw' next
    | single | commit => cases hw'
    | opens ready _ first more =>
      rw [if_neg (by simp [more]), (hok.start l hw).mp first]
      show s.framer.opened ++ [l] = _
      rw [h.frames.closed (by simp [ready])]
    | line writing _ _ more =>
      rw [if_neg (by simp [more]), ← hz.open_eq writing]
    | restart writing _ first =>
      obtain ⟨⟨a, g, ho, -⟩, -⟩ := h.frames.started writing
      rw [hz.open_eq writing, (hok.start l hw).mp first] at ho
      cases ho

/-- The frame a commit completes is the one the stream has been in. -/
theorem opened_of_commit (h : Sound s) {sizes : List (BitVec 14)} (hz : SizeInv s sizes)
    (hok : InOrder s i) {l : FrameLine α} (hw : i.wr = some l)
    (hc : (pqControl s.framer.state s.ctl.queue.full l).cmtPacket = true) :
    s.framer.opened = current s.written := by
  obtain ⟨-, -, ⟨hr, hs⟩ | hwr⟩ := cmtPacket_cases hc
  · rw [h.frames.closed (by simp [hr]), (hok.start l hw).mp hs]
  · exact hz.open_eq hwr

theorem lines_lt {done pending : List (FrameLine α)} (hi : Inv s done pending)
    (hf : s.ctl.queue.full = false) : pending.length + s.framer.opened.length < 2 ^ n := by
  have hroom := hi.queue.room
  rw [List.length_map, List.length_map] at hroom
  refine Nat.lt_of_le_of_ne hroom fun he => ?_
  rw [hi.queue.full_iff.mpr (by simpa using he)] at hf
  cases hf

theorem sizeData_eq {done pending : List (FrameLine α)} (hi : Inv s done pending) (h : Sound s)
    {sizes : List (BitVec 14)} (hz : SizeInv s sizes) (hok : InOrder s i) {l : FrameLine α}
    (hw : i.wr = some l) (hc : (pqControl s.framer.state s.ctl.queue.full l).cmtPacket = true) :
    (s.ctl.sizeData l).toNat = frameBytes (s.framer.opened ++ [l]) := by
  have hshort := hok.short l hw (cmtPacket_cases hc).2.1
  rw [← opened_of_commit h hz hok hw hc] at hshort
  have hbytes : frameBytes (s.framer.opened ++ [l]) =
      64 * (s.framer.opened.length + 1) - l.endPadbytes.toNat := by
    simp [frameBytes]
  rw [hbytes] at hshort ⊢
  have hlt := lines_lt hi (cmtPacket_cases hc).1
  rw [PacketQueueController.sizeData, hi.queue.currPktEls, List.length_map]
  refine size_eq (Nat.succ_pos _) ?_ hshort
  rw [Nat.pow_succ]
  omega

/-- The next line to be read. -/
theorem next_line {done pending : List (FrameLine α)} (hi : Inv s done pending) :
    s.framer.frames.flatten[s.read.length]? = pending.head? := by
  rw [hi.lines, hi.read, List.length_map, List.getElem?_append_right (Nat.le_refl _), Nat.sub_self,
    List.head?_eq_getElem?]

/-- A size is taken exactly when a packet has been read to its end. -/
theorem unread_read {done pending : List (FrameLine α)} (hi : Inv s done pending) (h : Sound s)
    (hok : InOrder s i) (hrd : i.rdReq = true → s.ctl.queue.empty = false) :
    (i.sizeRdReq = true → unread s.framer.frames s.read.length ≠ []) ∧
      unread s.framer.frames (s.step i).read.length =
        if i.sizeRdReq then (unread s.framer.frames s.read.length).tail
        else unread s.framer.frames s.read.length := by
  obtain ⟨hread, hne⟩ := hi.read_step hrd
  have hlen : (s.step i).read.length = s.read.length + (taken i pending).length := by
    rw [hread, hi.read, List.length_map, List.length_map, List.length_append]
  have hnext := next_line hi
  have hsz := hok.sizeRd
  rw [hnext] at hsz
  rw [hlen]
  cases hr : i.rdReq with
  | false =>
    have hno : i.sizeRdReq = false := by simpa [hr] using hsz
    simp [hno, taken, hr]
  | true =>
    obtain ⟨p, t, rfl⟩ := List.exists_cons_of_ne_nil (hne hr)
    obtain ⟨hpos, hsucc⟩ := unread_succ h.frames.whole hnext
    refine ⟨fun _ => hpos, ?_⟩
    have hend : i.sizeRdReq = p.endFrame := by
      rw [Bool.eq_iff_iff, hsz]
      simp [hr]
    rw [hend, ← hsucc]
    simp [taken, hr]

theorem count_le {done pending : List (FrameLine α)} (hi : Inv s done pending) (h : Sound s)
    {sizes : List (BitVec 14)} (hz : SizeInv s sizes) : sizes.length ≤ pending.length := by
  have hle := unread_length_le (fun f hf => (h.frames.whole f hf).ne_nil) s.read.length
  have hlen := congrArg List.length hz.sizes
  rw [List.length_map, List.length_map] at hlen
  rw [hi.lines, hi.read, List.length_append, List.length_map] at hle
  rw [hi.read, List.length_map] at hlen
  omega

/-- There is room for a size whenever there is room for a line. -/
theorem count_lt {done pending : List (FrameLine α)} (hi : Inv s done pending) (h : Sound s)
    {sizes : List (BitVec 14)} (hz : SizeInv s sizes) (hf : s.ctl.queue.full = false) :
    sizes.length < 2 ^ n := by
  have hle := count_le hi h hz
  have hlt := lines_lt hi hf
  omega

theorem sizeInv_step (h : Sound s) {sizes : List (BitVec 14)} (hz : SizeInv s sizes)
    (hok : InOrder s i) (hrd : i.rdReq = true → s.ctl.queue.empty = false) :
    ∃ sizes', SizeInv (s.step i) sizes' := by
  obtain ⟨done, pending, hi⟩ := h.queue
  obtain ⟨hpos, hunread⟩ := unread_read hi h hok hrd
  have hne : i.sizeRdReq = true → sizes ≠ [] := by
    rintro hr rfl
    have hnil := hz.sizes
    exact hpos hr (List.map_eq_nil_iff.mp hnil.symm)
  have hk : (s.step i).read.length ≤ s.framer.frames.flatten.length := by
    have hread := (inv_step hi hrd).read
    have hall := congrArg List.length (taken_left (i := i) pending)
    rw [List.length_append] at hall
    rw [hread, List.length_map, hi.lines, List.length_append, List.length_append]
    omega
  have htail : (if i.sizeRdReq then sizes.tail else sizes).map BitVec.toNat =
      (unread s.framer.frames (s.step i).read.length).map frameBytes := by
    rw [hunread]
    split
    · rw [List.map_tail, List.map_tail, hz.sizes]
    · exact hz.sizes
  have hopen := open_step h hz hok
  cases hw : i.wr with
  | none =>
    have hctl : s.ctl.ctl i = .idle s.ctl.state := by simp [PacketQueueController.ctl, hw]
    have hq : (s.ctl.sizes.step none i.sizeRdReq).Represents _ :=
      hz.represents.step (fun h => by cases h) hne
    refine ⟨if i.sizeRdReq then sizes.tail else sizes, hopen, ?_, ?_⟩
    · simpa [step, PacketQueueController.step, hctl, PqCtl.idle] using hq
    · rw [framer_none hw]
      simpa using htail
  | some l =>
    have hctl : s.ctl.ctl i = pqControl s.framer.state s.ctl.queue.full l := by
      simp [PacketQueueController.ctl, hw, hi.state]
    cases hc : (pqControl s.framer.state s.ctl.queue.full l).cmtPacket with
    | false =>
      have hq : (s.ctl.sizes.step none i.sizeRdReq).Represents _ :=
        hz.represents.step (fun h => by cases h) hne
      refine ⟨if i.sizeRdReq then sizes.tail else sizes, hopen, ?_, ?_⟩
      · simpa [step, PacketQueueController.step, hctl, sizeWrReq_eq, hc] using hq
      · rw [framer_some hw]
        simpa [Framer.take, hc] using htail
    | true =>
      have hroom := count_lt hi h hz (cmtPacket_cases hc).1
      have hq : (s.ctl.sizes.step (some (s.ctl.sizeData l)) i.sizeRdReq).Represents _ :=
        hz.represents.step (fun _ => hroom) hne
      refine ⟨(if i.sizeRdReq then sizes.tail else sizes) ++ [s.ctl.sizeData l], hopen, ?_, ?_⟩
      · simpa [step, PacketQueueController.step, hctl, sizeWrReq_eq, hc, hw] using hq
      · rw [framer_some hw]
        have hframes : (s.framer.take (l, s.ctl.queue.full)).frames =
            s.framer.frames ++ [s.framer.opened ++ [l]] := by
          simp [Framer.take, hc]
        rw [hframes, unread_append hk (by simp), List.map_append, List.map_append, htail]
        simp [sizeData_eq hi h hz hok hw hc]

theorem sizeInv_init (h : s.Init) : SizeInv s [] := by
  have hf : s.framer = Framer.start := by simp [framer, h.2.1, Framer.of]
  refine ⟨?_, Fifo1r1w.represents_init h.1.2.2, ?_⟩
  · rw [hf]
    intro h
    cases h
  · simp [hf, Framer.start, unread]

theorem sized_of_reach (h : Reach Init cycle InOrder s) :
    Sound s ∧ ∃ sizes, SizeInv s sizes := by
  refine h.invariant (I := fun s => Sound s ∧ ∃ sizes, SizeInv s sizes)
    (fun _ h0 => ⟨sound_init h0, [], sizeInv_init h0⟩) ?_
  intro s i s' hi hok hs
  obtain ⟨hrd, rfl⟩ := cycle_eq_some hs
  obtain ⟨hsound, sizes, hz⟩ := hi
  exact ⟨sound_step hsound (noSingleInside_of_inOrder hsound hz hok) hrd,
    sizeInv_step hsound hz hok hrd⟩

/-- In every run of whole frames the size queue is in step with the frames the packet queue
delivers. -/
theorem sizes_in_step (h : Reach Init cycle InOrder s) :
    ∃ frames, Delivers s frames ∧ SizesInStep s frames := by
  obtain ⟨hsound, sizes, hz⟩ := sized_of_reach h
  obtain ⟨done, pending, hi⟩ := hsound.queue
  refine ⟨s.framer.frames, hsound.delivers, ?_, ?_, ?_⟩
  · rw [hz.represents.contents_eq, hz.sizes]
  · rw [hz.represents.contents_eq]
    exact hz.represents.room
  · intro i hwr
    have hfull : s.ctl.queue.full = false := by
      cases hw : i.wr with
      | none => simp [PacketQueueController.ctl, hw, PqCtl.idle] at hwr
      | some l =>
        simp only [PacketQueueController.ctl, hw, sizeWrReq_eq] at hwr
        exact (cmtPacket_cases hwr).1
    by_contra hno
    have hlen := hz.represents.full_iff.mp (by simpa using hno)
    have hlt := count_lt hi hsound hz hfull
    omega

instance (s : PqRun n α) (i : PqIn α) : Decidable (InOrder s i) :=
  decidable_of_iff
    ((∀ l ∈ i.wr, l.startFrame = true ↔ (current s.written).isEmpty = true) ∧
      (∀ l ∈ i.wr, l.endFrame = true → frameBytes (current s.written ++ [l]) < 2 ^ 14) ∧
      (i.sizeRdReq = true ↔ i.rdReq = true ∧
        (s.framer.frames.flatten[s.read.length]?).any FrameLine.endFrame = true))
    ⟨fun h => ⟨by simpa using h.1, h.2.1, h.2.2⟩, fun h => ⟨by simpa using h.1, h.2, h.3⟩⟩

/-- Of three frames the second does not fit; the first is read and the third waits. -/
theorem sizes_in_step_waiting : ∃ s : PqRun 2 Nat, Reach Init cycle InOrder s ∧
    s.ctl.sizes.contents = [64] ∧ ∃ frames, Delivers s frames ∧ SizesInStep s frames := by
  have hrun : ∃ s : PqRun 2 Nat, Reach Init cycle InOrder s ∧
      decide (s.ctl.sizes.contents = [64]) = true :=
    Reach.exists_of_run
      [put 1 true false, put 2 false false, put 3 false true, put 4 true false, put 5 false false,
        put 6 false true, get false, get false, get true, put 7 true true]
      reset_init (by decide +kernel)
  obtain ⟨s, hr, hp⟩ := hrun
  exact ⟨s, hr, of_decide_eq_true hp, sizes_in_step hr⟩

end PqRun

end TcpHw
