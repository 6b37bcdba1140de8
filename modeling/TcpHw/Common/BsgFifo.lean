import Mathlib.Data.Nat.Log
import Mathlib.Data.Nat.ModEq
import Mathlib.Logic.Function.Basic
import TcpHw.Lib.Trace

/-!
# `bsg_fifo_1r1w_small`

The small FIFO of the basejump library has two implementations. The hardened one keeps its entries in
a memory with registered reads: it asks for the cell of the next read pointer in every cycle, except
when this cell is just being written, and then takes the entry from a register beside the memory. The
one for two entries has a memory that is read without delay and a bit for each pointer. Both are
a queue with valid-and-ready at the input (or ready before valid, by a parameter) and valid-then-yumi
at the output.
-/
namespace TcpHw

open Trace

set_option autoImplicit false

/-! ### Circular pointers -/

/-- `BSG_SAFE_CLOG2` -/
def safeClog2 (x : Nat) : Nat := if x = 1 then 1 else Nat.clog 2 x

/-- A pointer to one of `slots` slots. -/
abbrev SlotPtr (slots : Nat) := BitVec (safeClog2 slots)

/-- `n_o` of `bsg_circular_ptr`. -/
def circularPtrNext {slots : Nat} (ptr : SlotPtr slots) (add : Nat) : SlotPtr slots :=
  if slots = 1 then 0
  else if 2 ^ Nat.clog 2 slots = slots then ptr + BitVec.ofNat _ add
  else
    let ptrWrap : BitVec (safeClog2 slots + 1) :=
      BitVec.cons false ptr - BitVec.ofNat _ slots + BitVec.ofNat _ add
    if ptrWrap.msb = false then ptrWrap.setWidth _ else ptr + BitVec.ofNat _ add

theorem le_two_pow_safeClog2 (x : Nat) : x ≤ 2 ^ safeClog2 x := by
  unfold safeClog2
  split
  · omega
  · exact Nat.le_pow_clog (by decide) x

/-- The sum less the number of slots, with a bit that tells whether it is negative. -/
theorem ptrWrap_toNat {w slots add : Nat} {p : BitVec w} (hs : slots ≤ 2 ^ w) (hp : p.toNat < slots)
    (ha : add ≤ slots) :
    (BitVec.cons false p - BitVec.ofNat _ slots + BitVec.ofNat _ add : BitVec (w + 1)).toNat =
      if slots ≤ p.toNat + add then p.toNat + add - slots
      else 2 ^ (w + 1) - (slots - (p.toNat + add)) := by
  have hpow : 2 ^ (w + 1) = 2 ^ w + 2 ^ w := by omega
  have hcons : (BitVec.cons false p).toNat = p.toNat := by
    rw [BitVec.toNat_cons]
    simp
  rw [BitVec.toNat_add, BitVec.toNat_sub, hcons, BitVec.toNat_ofNat, BitVec.toNat_ofNat,
    Nat.mod_eq_of_lt (by omega : slots < 2 ^ (w + 1)),
    Nat.mod_eq_of_lt (by omega : add < 2 ^ (w + 1)), Nat.mod_add_mod]
  split
  · have hsum : 2 ^ (w + 1) - slots + p.toNat + add = (p.toNat + add - slots) + 2 ^ (w + 1) := by
      omega
    rw [hsum, Nat.add_mod_right, Nat.mod_eq_of_lt (by omega)]
  · rw [Nat.mod_eq_of_lt (by omega)]
    omega

theorem toNat_circularPtrNext {slots : Nat} {ptr : SlotPtr slots} {add : Nat}
    (hp : ptr.toNat < slots) (ha : add ≤ slots) :
    (circularPtrNext ptr add).toNat = (ptr.toNat + add) % slots := by
  have hle := le_two_pow_safeClog2 slots
  have hwrap := ptrWrap_toNat hle hp ha
  unfold circularPtrNext
  dsimp only
  split_ifs with h1 h2 h3
  · subst h1
    rw [Nat.mod_one]
    rfl
  · have hs : 2 ^ safeClog2 slots = slots := by rw [safeClog2, if_neg h1, h2]
    rw [BitVec.toNat_add, BitVec.toNat_ofNat, hs, Nat.add_mod_mod]
  · rw [BitVec.msb_eq_decide, hwrap] at h3
    have hover : slots ≤ ptr.toNat + add := by
      by_contra hlt
      rw [if_neg hlt, decide_eq_false_iff_not, Nat.add_sub_cancel, Nat.pow_succ] at h3
      omega
    rw [BitVec.toNat_setWidth, hwrap, if_pos hover, Nat.mod_eq_of_lt (by omega),
      Nat.mod_eq_sub_mod hover, Nat.mod_eq_of_lt (by omega)]
  · rw [BitVec.msb_eq_decide, hwrap] at h3
    have hunder : ptr.toNat + add < slots := by
      by_contra hge
      rw [if_pos (by omega), decide_eq_false_iff_not, Nat.add_sub_cancel] at h3
      omega
    rw [BitVec.toNat_add, BitVec.toNat_ofNat, Nat.add_mod_mod, Nat.mod_eq_of_lt (by omega),
      Nat.mod_eq_of_lt hunder]

/-! ### The hardened FIFO -/

/-- `bsg_fifo_tracker`; `enq` and `deq` are the last operation. -/
structure BsgFifoTracker (els : Nat) where
  rptr : SlotPtr els
  wptr : SlotPtr els
  enq : Bool
  deq : Bool

namespace BsgFifoTracker

variable {els : Nat} (t : BsgFifoTracker els)

def reset : BsgFifoTracker els := ⟨0, 0, false, true⟩

def equalPtrs : Bool := t.rptr == t.wptr

def empty : Bool := t.equalPtrs && t.deq

def full : Bool := t.equalPtrs && t.enq

/-- `rptr_n_o` -/
def rptrNext (deq : Bool) : SlotPtr els := circularPtrNext t.rptr deq.toNat

def step (enq deq : Bool) : BsgFifoTracker els where
  rptr := t.rptrNext deq
  wptr := circularPtrNext t.wptr enq.toNat
  enq := if enq || deq then enq else t.enq
  deq := if enq || deq then deq else t.deq

end BsgFifoTracker

/-- `v_i` with `data_i`, and `yumi_i`. -/
structure BsgFifoIn (α : Type) where
  v : Option α
  yumi : Bool

/-- `memAddr` is the address register of the memory, which holds nothing after a cycle without
a read; `dataReg` is the bypass register. -/
structure BsgFifoHardened (els : Nat) (α : Type) where
  fts : BsgFifoTracker els
  mem : SlotPtr els → α
  memAddr : Option (SlotPtr els)
  dataReg : α
  readWriteSameAddr : Bool

namespace BsgFifoHardened

variable {els : Nat} {α : Type} (readyThenValid : Bool) (f : BsgFifoHardened els α) (i : BsgFifoIn α)

def ready : Bool := !f.fts.full

def valid : Bool := !f.fts.empty

def dataO : Option α := if f.readWriteSameAddr then some f.dataReg else f.memAddr.map f.mem

/-- `enque` with its data. -/
def enque : Option α := if readyThenValid || f.ready then i.v else none

/-- `read_write_same_addr_n` -/
def sameAddrNext : Bool :=
  (f.enque readyThenValid i).isSome && f.fts.wptr == f.fts.rptrNext i.yumi

def step : BsgFifoHardened els α where
  fts := f.fts.step (f.enque readyThenValid i).isSome i.yumi
  mem := (f.enque readyThenValid i).elim f.mem fun d => Function.update f.mem f.fts.wptr d
  memAddr := if f.sameAddrNext readyThenValid i then none else some (f.fts.rptrNext i.yumi)
  dataReg := if f.sameAddrNext readyThenValid i then i.v.getD f.dataReg else f.dataReg
  readWriteSameAddr := f.sameAddrNext readyThenValid i

end BsgFifoHardened

/-! ### The FIFO of two entries -/

structure BsgTwoFifo (α : Type) where
  mem : Bool → α
  head : Bool
  tail : Bool
  empty : Bool
  full : Bool

namespace BsgTwoFifo

variable {α : Type} (allowEnqDeqOnFull readyThenValid : Bool) (f : BsgTwoFifo α) (i : BsgFifoIn α)

def reset (mem : Bool → α) : BsgTwoFifo α := ⟨mem, false, false, true, false⟩

def ready : Bool := !f.full

def valid : Bool := !f.empty

def dataO : α := f.mem f.head

/-- `enq_i` with its data. -/
def enq : Option α := if readyThenValid || !f.full then i.v else none

def step : BsgTwoFifo α :=
  let enq := (f.enq readyThenValid i).isSome
  { mem := (f.enq readyThenValid i).elim f.mem fun d => Function.update f.mem f.tail d
    head := if i.yumi then !f.head else f.head
    tail := if enq then !f.tail else f.tail
    empty := (f.empty && !enq) || (!f.full && i.yumi && !enq)
    full :=
      (!f.empty && enq && !i.yumi) ||
        (f.full && (if allowEnqDeqOnFull then !(i.yumi ^^ enq) else !i.yumi)) }

end BsgTwoFifo

/-! ### A queue behind the handshakes -/

/-- What is seen of a FIFO from outside. -/
structure FifoPorts (α : Type) where
  ready : Bool
  valid : Bool
  data : Option α

/-- The flags of a FIFO of `els` entries are exact, and it shows the oldest one. -/
structure FifoPorts.Show {α : Type} (o : FifoPorts α) (els : Nat) (l : List α) : Prop where
  room : l.length ≤ els
  ready : o.ready = true ↔ l.length < els
  valid : o.valid = true ↔ l ≠ []
  data : ∀ a t, l = a :: t → o.data = some a

/-- A queue gives away its oldest entry and gets a youngest one. -/
def queueAfter {α : Type} (l : List α) (enq : Option α) (deq : Bool) : List α :=
  (if deq then l.tail else l) ++ enq.toList

theorem length_queueAfter {α : Type} (l : List α) (enq : Option α) (deq : Bool) :
    (queueAfter l enq deq).length = l.length - deq.toNat + enq.isSome.toNat := by
  cases deq <;> cases enq <;> simp [queueAfter]

namespace BsgFifoHardened

variable {els : Nat} {α : Type} {f : BsgFifoHardened els α} {l : List α} {i : BsgFifoIn α}
  {rtv : Bool}

def ports (f : BsgFifoHardened els α) : FifoPorts α := ⟨f.ready, f.valid, f.dataO⟩

/-- The registers stand for the list. -/
structure Holds (f : BsgFifoHardened els α) (l : List α) : Prop where
  rptr : f.fts.rptr.toNat < els
  room : l.length ≤ els
  wptr : f.fts.wptr.toNat = (f.fts.rptr.toNat + l.length) % els
  empty : l = [] → f.fts.enq = false ∧ f.fts.deq = true
  full : l.length = els → f.fts.enq = true ∧ f.fts.deq = false
  cells : ∀ j < l.length, ∀ a : SlotPtr els,
    a.toNat = (f.fts.rptr.toNat + j) % els → l[j]? = some (f.mem a)
  front : l ≠ [] →
    if f.readWriteSameAddr then l.head? = some f.dataReg else f.memAddr = some f.fts.rptr

/-- Cells at different places are different. -/
theorem place_inj {r j k : Nat} (hj : j < els) (hk : k < els)
    (h : (r + j) % els = (r + k) % els) : j = k := by
  have hmod : j % els = k % els := Nat.ModEq.add_left_cancel' r h
  rwa [Nat.mod_eq_of_lt hj, Nat.mod_eq_of_lt hk] at hmod

theorem Holds.equalPtrs (h : Holds f l) :
    f.fts.equalPtrs = true ↔ l = [] ∨ l.length = els := by
  have hlt := h.rptr
  have hroom := h.room
  rw [BsgFifoTracker.equalPtrs, beq_iff_eq, ← BitVec.toNat_inj, h.wptr, ← List.length_eq_zero_iff]
  have hself : (f.fts.rptr.toNat + 0) % els = f.fts.rptr.toNat := Nat.mod_eq_of_lt hlt
  constructor
  · intro heq
    by_cases hall : l.length = els
    · exact .inr hall
    · have hplace : (f.fts.rptr.toNat + l.length) % els = (f.fts.rptr.toNat + 0) % els := by
        rw [hself]
        exact heq.symm
      exact .inl (place_inj (by omega) (by omega) hplace)
  · rintro (h0 | h0)
    · rw [h0, hself]
    · rw [h0, Nat.add_mod_right, Nat.mod_eq_of_lt hlt]

theorem Holds.show (h : Holds f l) (hpos : 0 < els) : f.ports.Show els l := by
  have hroom := h.room
  have hne : l = [] → l.length ≠ els := fun h0 => by rw [h0]; exact Nat.ne_of_lt hpos
  refine ⟨hroom, ?_, ?_, ?_⟩
  · show (!f.fts.full) = true ↔ _
    rw [Bool.not_eq_true', ← Bool.not_eq_true, BsgFifoTracker.full, Bool.and_eq_true, h.equalPtrs]
    constructor
    · intro hnot
      by_contra hge
      have hall : l.length = els := by omega
      exact hnot ⟨.inr hall, (h.full hall).1⟩
    · rintro hlt ⟨h0 | h0, henq⟩
      · rw [(h.empty h0).1] at henq
        cases henq
      · omega
  · show (!f.fts.empty) = true ↔ _
    rw [Bool.not_eq_true', ← Bool.not_eq_true, BsgFifoTracker.empty, Bool.and_eq_true, h.equalPtrs]
    constructor
    · intro hnot h0
      exact hnot ⟨.inl h0, (h.empty h0).2⟩
    · rintro hl ⟨h0 | h0, hdeq⟩
      · exact hl h0
      · rw [(h.full h0).2] at hdeq
        cases hdeq
  · intro a t hl
    have hfront := h.front (by rw [hl]; exact List.cons_ne_nil a t)
    show (if f.readWriteSameAddr then some f.dataReg else f.memAddr.map f.mem) = some a
    split_ifs at hfront ⊢
    · rw [← hfront, hl]
      rfl
    · rw [hfront]
      have hcell := h.cells 0 (by rw [hl]; exact Nat.succ_pos _) f.fts.rptr
        (Nat.mod_eq_of_lt h.rptr).symm
      rw [hl] at hcell
      exact hcell.symm

/-- The inputs follow the flags. -/
def Follows (rtv : Bool) (f : BsgFifoHardened els α) (i : BsgFifoIn α) : Prop :=
  (i.yumi = true → f.valid = true) ∧ (rtv = true → i.v.isSome = true → f.ready = true)

instance (rtv : Bool) (f : BsgFifoHardened els α) (i : BsgFifoIn α) :
    Decidable (Follows rtv f i) := by
  unfold Follows
  infer_instance

theorem Follows.enque (h : Follows rtv f i) (he : (f.enque rtv i).isSome = true) :
    f.ready = true := by
  unfold BsgFifoHardened.enque at he
  split at he
  · rename_i hor
    cases hr : rtv with
    | false => simpa [hr] using hor
    | true => exact h.2 hr he
  · cases he

/-- The cell that is written is the one to be read next exactly when the queue is left with nothing
else. -/
theorem Holds.sameAddr (h : Holds f l) (hpos : 0 < els) (hok : Follows rtv f i) :
    f.sameAddrNext rtv i = true ↔
      (f.enque rtv i).isSome = true ∧ (if i.yumi then l.tail else l) = [] := by
  have hlt := h.rptr
  have hshow := h.show hpos
  have hdeq : i.yumi = true → l ≠ [] := fun hy => hshow.valid.mp (hok.1 hy)
  rw [sameAddrNext, Bool.and_eq_true, beq_iff_eq, ← BitVec.toNat_inj, h.wptr, BsgFifoTracker.rptrNext,
    toNat_circularPtrNext hlt (Nat.le_trans (Bool.toNat_le _) hpos)]
  refine and_congr_right fun he => ?_
  have hroom : l.length < els := hshow.ready.mp (hok.enque he)
  have hleft : (if i.yumi then l.tail else l) = [] ↔ l.length = i.yumi.toNat := by
    cases hy : i.yumi with
    | false => simp
    | true =>
      have hne := List.length_pos_of_ne_nil (hdeq hy)
      rw [if_pos rfl, ← List.length_eq_zero_iff, List.length_tail, Bool.toNat_true]
      omega
  rw [hleft]
  constructor
  · intro heq
    refine place_inj hroom ?_ heq
    cases hy : i.yumi with
    | false => exact hpos
    | true =>
      have hne := List.length_pos_of_ne_nil (hdeq hy)
      rw [Bool.toNat_true]
      omega
  · intro heq
    rw [heq]

theorem Holds.step (h : Holds f l) (hpos : 0 < els) (hok : Follows rtv f i) :
    Holds (f.step rtv i) (queueAfter l (f.enque rtv i) i.yumi) := by
  have hlt := h.rptr
  have hshow := h.show hpos
  have hdeq : i.yumi = true → 0 < l.length := fun hy =>
    List.length_pos_of_ne_nil (hshow.valid.mp (hok.1 hy))
  have henq : (f.enque rtv i).isSome = true → l.length < els := fun he =>
    hshow.ready.mp (hok.enque he)
  have hone : i.yumi.toNat ≤ l.length := by
    cases hy : i.yumi with
    | false => exact Nat.zero_le _
    | true => exact hdeq hy
  have hroom := h.room
  have hrptr : (f.step rtv i).fts.rptr.toNat = (f.fts.rptr.toNat + i.yumi.toNat) % els :=
    toNat_circularPtrNext hlt (by omega)
  have hlen := length_queueAfter l (f.enque rtv i) i.yumi
  refine ⟨?_, ?_, ?_, ?_, ?_, ?_, ?_⟩
  · rw [hrptr]
    exact Nat.mod_lt _ hpos
  · rw [hlen]
    cases he : (f.enque rtv i).isSome with
    | false => simp; omega
    | true =>
      have hlt' := henq he
      rw [Bool.toNat_true]
      omega
  · have hle : (f.enque rtv i).isSome.toNat ≤ els := Nat.le_trans (Bool.toNat_le _) hpos
    have hwlt : f.fts.wptr.toNat < els := by
      rw [h.wptr]
      exact Nat.mod_lt _ hpos
    show (circularPtrNext f.fts.wptr (f.enque rtv i).isSome.toNat).toNat = _
    rw [toNat_circularPtrNext hwlt hle, h.wptr, hrptr, Nat.mod_add_mod, Nat.mod_add_mod, hlen]
    congr 1
    omega
  · intro hnil
    have hzero : (queueAfter l (f.enque rtv i) i.yumi).length = 0 := by rw [hnil]; rfl
    have hno : (f.enque rtv i).isSome = false := Bool.toNat_eq_zero.mp (by omega)
    show (if _ then (f.enque rtv i).isSome else f.fts.enq) = false ∧
      (if _ then i.yumi else f.fts.deq) = true
    cases hy : i.yumi with
    | true => simp [hno]
    | false =>
      rw [hzero, hno, hy] at hlen
      have hl : l = [] := List.length_eq_zero_iff.mp hlen.symm
      simp [hno, h.empty hl]
  · intro hall
    rw [hlen] at hall
    show (if _ then (f.enque rtv i).isSome else f.fts.enq) = true ∧
      (if _ then i.yumi else f.fts.deq) = false
    cases he : (f.enque rtv i).isSome with
    | true =>
      have hlt' := henq he
      have hno : i.yumi = false := Bool.toNat_eq_zero.mp (by rw [he] at hall; simp at hall; omega)
      simp [hno]
    | false =>
      rw [he, Bool.toNat_false] at hall
      have hno : i.yumi = false := Bool.toNat_eq_zero.mp (by omega)
      rw [hno, Bool.toNat_false] at hall
      simp [hno, h.full (by omega)]
  · intro j hj a ha
    rw [hrptr, Nat.mod_add_mod, Nat.add_assoc] at ha
    have hleft : (if i.yumi then l.tail else l) = l.drop i.yumi.toNat := by
      cases i.yumi <;> simp
    rw [hlen] at hj
    rw [queueAfter, hleft]
    show _ = some (((f.enque rtv i).elim f.mem fun d => Function.update f.mem f.fts.wptr d) a)
    cases he : f.enque rtv i with
    | none =>
      rw [he] at hj
      simp only [Option.isSome_none, Bool.toNat_false] at hj
      simpa using h.cells (i.yumi.toNat + j) (by omega) a ha
    | some d =>
      have hlt' := henq (by rw [he]; rfl)
      rw [he] at hj
      simp only [Option.isSome_some, Bool.toNat_true] at hj
      rw [Option.elim_some]
      by_cases hlast : j = l.length - i.yumi.toNat
      · have hcell : a = f.fts.wptr := by
          apply BitVec.eq_of_toNat_eq
          rw [ha, h.wptr, hlast, Nat.add_sub_cancel' hone]
        rw [hcell, Function.update_self, List.getElem?_append_right (by simp; omega)]
        simp [hlast]
      · have hne : a ≠ f.fts.wptr := by
          intro hc
          have hsame : (f.fts.rptr.toNat + (i.yumi.toNat + j)) % els =
              (f.fts.rptr.toNat + l.length) % els := by rw [← ha, hc, h.wptr]
          have hj' := place_inj (by omega) hlt' hsame
          omega
        rw [Function.update_of_ne hne, List.getElem?_append_left (by simp; omega)]
        simpa using h.cells (i.yumi.toNat + j) (by omega) a ha
  · intro hne
    have hsame := h.sameAddr hpos hok
    show if f.sameAddrNext rtv i then _ = some (if f.sameAddrNext rtv i then _ else _)
      else (if f.sameAddrNext rtv i then none else some (f.fts.rptrNext i.yumi)) = _
    split_ifs with hs
    · obtain ⟨he, hleft⟩ := hsame.mp hs
      obtain ⟨d, hd⟩ := Option.isSome_iff_exists.mp he
      have hv : i.v = some d := by
        unfold BsgFifoHardened.enque at hd
        split at hd
        · exact hd
        · cases hd
      rw [queueAfter, hleft, hd, hv]
      rfl
    · rfl

/-- After reset; the memories hold anything. -/
def Init (f : BsgFifoHardened els α) : Prop := f.fts = .reset

theorem holds_init (h : Init f) (hpos : 0 < els) : Holds f [] := by
  have hr : f.fts.rptr.toNat = 0 := by
    rw [h]
    exact BitVec.toNat_zero
  have hw : f.fts.wptr.toNat = 0 := by
    rw [h]
    exact BitVec.toNat_zero
  refine ⟨hr ▸ hpos, Nat.zero_le _, ?_, fun _ => ?_, fun hall => ?_, ?_, ?_⟩
  · rw [hr, hw]
    exact (Nat.zero_mod _).symm
  · rw [h]
    exact ⟨rfl, rfl⟩
  · exact absurd hall (Nat.ne_of_lt hpos)
  · intro j hj
    exact absurd hj (Nat.not_lt_zero j)
  · intro hc
    exact absurd rfl hc

end BsgFifoHardened

namespace BsgTwoFifo

variable {α : Type} {f : BsgTwoFifo α} {l : List α} {i : BsgFifoIn α} {allow rtv : Bool}

def ports (f : BsgTwoFifo α) : FifoPorts α := ⟨f.ready, f.valid, some f.dataO⟩

/-- The registers stand for the list. -/
def Holds (f : BsgTwoFifo α) : List α → Prop
  | [] => f.empty = true ∧ f.full = false ∧ f.tail = f.head
  | [a] => f.empty = false ∧ f.full = false ∧ f.tail = !f.head ∧ f.mem f.head = a
  | [a, b] =>
    f.empty = false ∧ f.full = true ∧ f.tail = f.head ∧ f.mem f.head = a ∧ f.mem (!f.head) = b
  | _ => False

theorem Holds.show (h : f.Holds l) : f.ports.Show 2 l := by
  match l, h with
  | [], ⟨he, hf, _⟩ =>
    refine ⟨Nat.zero_le _, by simp [ports, ready, hf], by simp [ports, valid, he], ?_⟩
    intro a t hl
    cases hl
  | [a], ⟨he, hf, _, ha⟩ =>
    refine ⟨Nat.le_succ 1, by simp [ports, ready, hf], by simp [ports, valid, he], ?_⟩
    rintro _ _ ⟨⟩
    exact congrArg some ha
  | [a, b], ⟨he, hf, _, ha, _⟩ =>
    refine ⟨Nat.le_refl _, by simp [ports, ready, hf], by simp [ports, valid, he], ?_⟩
    rintro _ _ ⟨⟩
    exact congrArg some ha

/-- An entry is offered to a full FIFO only if it takes it together with giving one away. -/
def Follows (allow rtv : Bool) (f : BsgTwoFifo α) (i : BsgFifoIn α) : Prop :=
  (i.yumi = true → f.valid = true) ∧
    (rtv = true → i.v.isSome = true → f.ready = true ∨ allow = true ∧ i.yumi = true)

/-- A full FIFO takes an entry only while it gives one away. -/
theorem Follows.enq (h : Follows allow rtv f i) (he : (f.enq rtv i).isSome = true)
    (hfull : f.full = true) : allow = true ∧ i.yumi = true := by
  cases hr : rtv with
  | false => simp [BsgTwoFifo.enq, hr, hfull] at he
  | true =>
    have hv : i.v.isSome = true := by simpa [BsgTwoFifo.enq, hr] using he
    rcases h.2 hr hv with hready | hboth
    · simp [ready, hfull] at hready
    · exact hboth

theorem Holds.step (h : f.Holds l) (hok : Follows allow rtv f i) :
    (f.step allow rtv i).Holds (queueAfter l (f.enq rtv i) i.yumi) := by
  have hyumi : i.yumi = true → f.empty = false := fun hy => by simpa [valid] using hok.1 hy
  have hfull := hok.enq
  unfold BsgTwoFifo.step
  generalize f.enq rtv i = enq at hfull ⊢
  match l, h with
  | [], ⟨he, hf, ht⟩ =>
    have hno : i.yumi = false := by simpa [he] using hyumi
    cases enq <;> simp [queueAfter, Holds, he, hf, ht, hno]
  | [a], ⟨he, hf, ht, ha⟩ =>
    cases enq <;> cases hy : i.yumi <;> simp [queueAfter, Holds, he, hf, ht, ha]
  | [a, b], ⟨he, hf, ht, ha, hb⟩ =>
    cases enq with
    | none => cases hy : i.yumi <;> simp [queueAfter, Holds, he, hf, ht, ha, hb]
    | some d =>
      obtain ⟨hallow, hy⟩ := hfull rfl hf
      simp [queueAfter, Holds, he, hf, ht, hb, hy, hallow]

end BsgTwoFifo

/-! ### Runs -/

/-- The hardened FIFO with the queue of its entries, oldest first. -/
structure BsgQueue (els : Nat) (α : Type) where
  fifo : BsgFifoHardened els α
  queue : List α

namespace BsgQueue

variable {els : Nat} {α : Type} {rtv : Bool} {s : BsgQueue els α}

def step (rtv : Bool) (s : BsgQueue els α) (i : BsgFifoIn α) : Option (BsgQueue els α) :=
  some ⟨s.fifo.step rtv i, queueAfter s.queue (s.fifo.enque rtv i) i.yumi⟩

def Init (s : BsgQueue els α) : Prop := s.fifo.Init ∧ s.queue = []

def Follows (rtv : Bool) (s : BsgQueue els α) (i : BsgFifoIn α) : Prop := s.fifo.Follows rtv i

instance (rtv : Bool) (s : BsgQueue els α) (i : BsgFifoIn α) : Decidable (Follows rtv s i) :=
  inferInstanceAs (Decidable (s.fifo.Follows rtv i))

/-- In every run the hardened FIFO is a queue, for every number of entries. -/
theorem bsg_fifo_hardened_exact (hpos : 0 < els) (h : Reach Init (step rtv) (Follows rtv) s) :
    s.fifo.ports.Show els s.queue := by
  have hi : s.fifo.Holds s.queue := by
    refine h.invariant (I := fun s => s.fifo.Holds s.queue) ?_ ?_
    · rintro t ⟨h0, hq⟩
      rw [hq]
      exact BsgFifoHardened.holds_init h0 hpos
    · intro t i t' ht hok hs
      cases hs
      exact ht.step hpos hok
  exact hi.show hpos

/-- Three entries: the memory is read over its end, and the last entry comes out of the register. -/
theorem bsg_fifo_hardened_exact_three : ∃ s : BsgQueue 3 Nat,
    Reach Init (step false) (Follows false) s ∧
      (s.fifo.dataO = some 9 ∧ s.fifo.readWriteSameAddr = true) ∧ s.fifo.ports.Show 3 s.queue := by
  have hrun : ∃ s : BsgQueue 3 Nat, Reach Init (step false) (Follows false) s ∧
      decide (s.fifo.dataO = some 9 ∧ s.fifo.readWriteSameAddr = true) = true :=
    Reach.exists_of_run (s := ⟨⟨.reset, fun _ => 0, none, 0, false⟩, []⟩)
      [⟨some 5, false⟩, ⟨some 6, false⟩, ⟨some 7, false⟩, ⟨some 8, true⟩, ⟨none, true⟩,
        ⟨some 9, true⟩]
      ⟨rfl, rfl⟩ (by decide +kernel)
  obtain ⟨s, hr, hp⟩ := hrun
  exact ⟨s, hr, decide_eq_true_iff.mp hp, bsg_fifo_hardened_exact (by decide) hr⟩

end BsgQueue

/-- Both implementations of a FIFO of two entries, and the queue of its entries. -/
structure BsgFifoPair (α : Type) where
  hardened : BsgFifoHardened 2 α
  two : BsgTwoFifo α
  queue : List α

namespace BsgFifoPair

variable {α : Type} {rtv : Bool} {s : BsgFifoPair α}

/-- Both get the same inputs. -/
def step (rtv : Bool) (s : BsgFifoPair α) (i : BsgFifoIn α) : Option (BsgFifoPair α) :=
  some ⟨s.hardened.step rtv i, s.two.step false rtv i,
    queueAfter s.queue (s.hardened.enque rtv i) i.yumi⟩

def Init (s : BsgFifoPair α) : Prop :=
  s.hardened.Init ∧ (∃ mem, s.two = .reset mem) ∧ s.queue = []

def Follows (rtv : Bool) (s : BsgFifoPair α) (i : BsgFifoIn α) : Prop := s.hardened.Follows rtv i

instance (rtv : Bool) (s : BsgFifoPair α) (i : BsgFifoIn α) : Decidable (Follows rtv s i) :=
  inferInstanceAs (Decidable (s.hardened.Follows rtv i))

/-- In every run both implementations have the same flags, and show the same entry when there is
one. -/
theorem bsg_fifo_implementations_agree (h : Reach Init (step rtv) (Follows rtv) s) :
    s.hardened.ready = s.two.ready ∧ s.hardened.valid = s.two.valid ∧
      (s.two.valid = true → s.hardened.dataO = some s.two.dataO) := by
  have hi : s.hardened.Holds s.queue ∧ s.two.Holds s.queue := by
    refine h.invariant (I := fun s => s.hardened.Holds s.queue ∧ s.two.Holds s.queue) ?_ ?_
    · rintro t ⟨h0, ⟨mem, hmem⟩, hq⟩
      rw [hq, hmem]
      exact ⟨BsgFifoHardened.holds_init h0 (by decide), rfl, rfl, rfl⟩
    · rintro t i t' ⟨hh, ht⟩ hok hs
      cases hs
      have hready := (hh.show (by decide)).ready.trans ht.show.ready.symm
      have hvalid := (hh.show (by decide)).valid.trans ht.show.valid.symm
      have htwo : t.two.Follows false rtv i :=
        ⟨fun hy => hvalid.mp (hok.1 hy), fun hr hv => .inl (hready.mp (hok.2 hr hv))⟩
      have henq : t.hardened.enque rtv i = t.two.enq rtv i := by
        have hflag : t.hardened.ready = !t.two.full := Bool.eq_iff_iff.mpr hready
        rw [BsgFifoHardened.enque, BsgTwoFifo.enq, hflag]
      exact ⟨hh.step (by decide) hok, henq ▸ ht.step htwo⟩
  obtain ⟨hh, ht⟩ := hi
  have hhard := hh.show (by decide)
  have htwo := ht.show
  refine ⟨Bool.eq_iff_iff.mpr (hhard.ready.trans htwo.ready.symm),
    Bool.eq_iff_iff.mpr (hhard.valid.trans htwo.valid.symm), fun hv => ?_⟩
  obtain ⟨a, t, hq⟩ := List.exists_cons_of_ne_nil (htwo.valid.mp hv)
  exact (hhard.data a t hq).trans (htwo.data a t hq).symm

/-- The last entry is shown out of the register in one and out of the memory in the other. -/
theorem bsg_fifo_implementations_agree_bypass : ∃ s : BsgFifoPair Nat,
    Reach Init (step false) (Follows false) s ∧ s.hardened.readWriteSameAddr = true ∧
      s.hardened.dataO = some s.two.dataO := by
  have hrun : ∃ s : BsgFifoPair Nat, Reach Init (step false) (Follows false) s ∧
      decide (s.hardened.readWriteSameAddr = true ∧ s.two.valid = true) = true :=
    Reach.exists_of_run
      (s := ⟨⟨.reset, fun _ => 0, none, 0, false⟩, .reset fun _ => 0, []⟩)
      [⟨some 5, false⟩, ⟨some 6, false⟩, ⟨some 7, true⟩, ⟨some 8, true⟩]
      ⟨rfl, ⟨_, rfl⟩, rfl⟩ (by decide +kernel)
  obtain ⟨s, hr, hp⟩ := hrun
  obtain ⟨hsame, hvalid⟩ := decide_eq_true_iff.mp hp
  exact ⟨s, hr, hsame, (bsg_fifo_implementations_agree hr).2.2 hvalid⟩

end BsgFifoPair

end TcpHw
