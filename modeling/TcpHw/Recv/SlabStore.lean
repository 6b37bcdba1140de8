import TcpHw.Frontend.IpAssembler
import TcpHw.Recv.SlabConservation
import TcpHw.Recv.StoreBufCopy

/-!
# The payloads in the slabs

`tcp_tmp_rx_buf` with its datapath and its memory. A packet with a payload gets a slab of 2048
bytes; its lines are stored one behind the other from the beginning of the slab, as many as the
payload length says, and `rx_payload_store_buf_cp` reads them from there. Nothing compares the
length with the size of a slab. What is behind the buffer holds the payloads it was given and frees
their slabs in any order.
-/
namespace TcpHw

open Bytes Framing Trace Tokens
open RxPipe (slabs slab? pool TrackerInv tmpPayloads)

set_option autoImplicit false

/-! ### Packets -/

/-- A header and the lines of its payload. -/
structure TmpPkt where
  hdr : RxHdr
  payload : List (BitVec 8)
  lines : List DataLine
  len : hdr.payloadLen.toNat = payload.length
  carried : lines.map DataLine.read = beats 64 payload

/-- `mask_shift`; the nine bits are enough for eight times the padding. -/
def maskShift (l : DataLine) : BitVec 9 := if l.last then l.padbytes.setWidth 9 <<< 3 else 0

/-- `tmp_buf_buf_store_data` -/
def storeData (l : DataLine) : Line := l.data &&& BitVec.allOnes 512 <<< (maskShift l).toNat

/-- `read_addr_next` at line `k` of a payload -/
def readAddr (entry : PayloadBuf) (k : Nat) : SlabAddr :=
  entry.payloadAddr.setWidth 15 + BitVec.ofNat 15 (64 * k)

/-- The lines that `rx_payload_store_buf_cp` reads for a payload. -/
def readBack (mem : TmpLine → Line) (entry : PayloadBuf) : List Line :=
  (List.range ((entry.payloadLen.toNat + 63) / 64)).map fun k => mem (tmpLine (readAddr entry k))

/-! ### The buffer -/

/-- A payload that was given out and whose slab was not freed yet. -/
structure StoredPayload where
  entry : PayloadBuf
  pkt : TmpPkt

/-- The buffer with the packets that are still to come, the packet in hand, the payloads that are
held behind it, and the lines that were written, each with the slab of its packet. -/
structure TmpBufSystem where
  buf : TmpRxBuf
  writeAddr : SlabAddr
  tracker : SlabAllocTracker
  mem : TmpLine → Line
  hdrs : List TmpPkt
  data : List DataLine
  cur : Option TmpPkt
  waiting : List StoredPayload
  written : List (SlabAddr × TmpLine)

/-- What the surroundings do in one cycle; `free` is the number of a payload that is held. -/
structure TmpBufIn where
  offerHdr : Bool
  offerData : Bool
  dstRdy : Bool
  free : Option Nat

namespace TmpBufSystem

variable (s : TmpBufSystem) (i : TmpBufIn)

/-- `src_tmp_buf_rx_hdr_val` and the header. -/
def hdrIn : Option RxHdr := if i.offerHdr then s.hdrs.head?.map TmpPkt.hdr else none

/-- `src_tmp_buf_rx_data_val`; the memory takes a line in every cycle. -/
def dataVal : Bool := i.offerData && !s.data.isEmpty

/-- `tmp_buf_alloc_slab_consume_val` and `store_entry_addr` -/
def consume : Bool := s.buf.consume (s.hdrIn i) s.tracker.respError

/-- `tmp_buf_src_rx_hdr_rdy`: a header is taken. -/
def takesHdr : Bool :=
  s.buf.ctrl == .ready && (s.hdrIn i).any fun h => h.payloadLen == 0 || !s.tracker.respError

/-- `incr_store_addr`: a line is stored. -/
def stores : Bool := s.buf.ctrl == .dataCopy && s.dataVal i

/-- The packet in hand goes on. -/
def gives : Bool := s.buf.ctrl == .output && i.dstRdy

/-- `tmp_buf_dst_rx_payload_val` and the payload that goes on. -/
def given : List StoredPayload :=
  if s.gives i && s.buf.hdr.payloadLen != 0 then
    s.cur.toList.map fun p => ⟨s.buf.payloadEntry, p⟩
  else []

/-- The payload whose slab is freed, and its place. -/
def freeReq : Option (Nat × StoredPayload) :=
  i.free.bind fun n => s.waiting[n]?.map fun x => (n, x)

/-- `src_tmp_buf_free_slab_req_addr` -/
def freeAddr : Option SlabAddr := (s.freeReq i).map fun x => x.2.entry.payloadAddr.setWidth 15

/-- What is held when the slab is freed. -/
def kept : List StoredPayload :=
  if s.tracker.freeRdy then ((s.freeReq i).map fun x => s.waiting.eraseIdx x.1).getD s.waiting
  else s.waiting

/-- `tmp_buf_buf_store_addr` -/
def storeAddr : TmpLine := tmpLine s.writeAddr

/-- One clock edge. -/
def cycle : TmpBufSystem where
  buf := s.buf.step (s.hdrIn i) s.tracker.respError s.tracker.respAddr (s.dataVal i) i.dstRdy
  writeAddr :=
    if s.consume i then s.tracker.respAddr
    else if s.stores i then s.writeAddr + 64 else s.writeAddr
  tracker := s.tracker.step (s.consume i) (s.freeAddr i)
  mem :=
    if s.stores i then Function.update s.mem s.storeAddr (storeData (s.data.headD default))
    else s.mem
  hdrs := if s.takesHdr i then s.hdrs.tail else s.hdrs
  data := if s.stores i then s.data.tail else s.data
  cur := if s.takesHdr i then s.hdrs.head? else if s.gives i then none else s.cur
  waiting := s.kept i ++ s.given i
  written := s.written ++ if s.stores i then [(s.buf.allocAddr, s.storeAddr)] else []

def step (s : TmpBufSystem) (i : TmpBufIn) : Option TmpBufSystem := some (s.cycle i)

/-- After reset, with all packets at the source. -/
def Init (xs : List TmpPkt) (s : TmpBufSystem) : Prop :=
  s.buf = .reset ∧ s.tracker = .reset ∧ s.hdrs = xs ∧ s.data = xs.flatMap TmpPkt.lines ∧
    s.cur = none ∧ s.waiting = [] ∧ s.written = []

/-- A packet that is taken has no more bytes than a slab, `RX_TMP_BUF_SLAB_BYTES`. -/
def Fits (s : TmpBufSystem) (i : TmpBufIn) : Prop :=
  s.takesHdr i = true → ∀ p ∈ s.hdrs.head?, p.hdr.payloadLen.toNat ≤ 2048

/-- The line belongs to the slab. -/
def InSlab (a : SlabAddr) (l : TmpLine) : Prop :=
  a.toNat ≤ 64 * l.toNat ∧ 64 * l.toNat + 64 ≤ a.toNat + 2048

/-- Every line that was written for a packet lies in its slab, and the lines that are read for a
payload are those of its packet, with the bytes of the payload. -/
structure KeepsInside (s : TmpBufSystem) : Prop where
  inside : ∀ w ∈ s.written, InSlab w.1 w.2
  payloads : ∀ x ∈ s.waiting, readBack s.mem x.entry = x.pkt.lines.map storeData ∧
    ((readBack s.mem x.entry).flatMap fun l => lineBytes l).take x.pkt.payload.length =
      x.pkt.payload

end TmpBufSystem

/-! ### The bytes of the lines -/

theorem toNat_maskShift (l : DataLine) :
    (maskShift l).toNat = if l.last then 8 * l.padbytes.toNat else 0 := by
  have hp := l.padbytes.isLt
  unfold maskShift
  split
  · rw [BitVec.toNat_shiftLeft, BitVec.toNat_setWidth, Nat.shiftLeft_eq]
    omega
  · rfl

/-- What is masked is padding. -/
theorem take_storeData (l : DataLine) {n : Nat} (hn : n ≤ 64)
    (hl : l.last = true → n + l.padbytes.toNat ≤ 64) :
    (lineBytes (storeData l)).take n = (lineBytes l.data).take n := by
  refine take_lineBytes_mask l.data ?_
  rw [toNat_maskShift]
  split
  · have hle := hl ‹_›
    omega
  · omega

theorem lineBytes_storeData {l : DataLine} (hl : l.last = false) :
    lineBytes (storeData l) = lineBytes l.data := by
  have ht := take_storeData l (Nat.le_refl 64) (by simp [hl])
  rwa [List.take_of_length_le (by rw [length_lineBytes]),
    List.take_of_length_le (by rw [length_lineBytes])] at ht

/-- The lines as they are stored hold the payload. -/
theorem Carries.stored {ls : List DataLine} {bs : List (BitVec 8)} (h : Carries ls bs) :
    ((ls.map storeData).flatMap fun l => lineBytes l).take bs.length = bs := by
  induction ls generalizing bs with
  | nil => exact absurd rfl h.ne_nil
  | cons l t ih =>
    rw [List.map_cons, List.flatMap_cons]
    rcases h.cons with ⟨hle, rfl, hlast, hpad, hbytes⟩ | ⟨hlt, hc, hlast, hbytes⟩
    · rw [List.map_nil, List.flatMap_nil, List.append_nil,
        take_storeData l hle (by intro; omega), hbytes]
    · have hlen : (bs.take 64).length = 64 := by
        rw [List.length_take]
        omega
      rw [lineBytes_storeData hlast, hbytes, List.take_append, hlen,
        List.take_of_length_le (by omega), ← List.length_drop, ih hc, List.take_append_drop]

namespace TmpPkt

variable (p : TmpPkt)

theorem length_lines : p.lines.length = (p.payload.length + 63) / 64 := by
  have hlen := congrArg List.length p.carried
  rw [List.length_map, length_beats] at hlen
  exact hlen

theorem lines_eq_nil (h0 : p.hdr.payloadLen = 0) : p.lines = [] := by
  have hlen := p.len
  rw [h0] at hlen
  have hz : p.payload.length = 0 := hlen.symm
  apply List.eq_nil_of_length_eq_zero
  rw [p.length_lines, hz]

theorem stored_bytes :
    ((p.lines.map storeData).flatMap fun l => lineBytes l).take p.payload.length = p.payload := by
  by_cases h0 : p.payload = []
  · simp [h0]
  · have hpos := List.length_pos_of_ne_nil h0
    exact Carries.stored ⟨hpos, p.carried⟩

end TmpPkt

/-! ### The lines of a slab -/

theorem mem_slabs {a : SlabAddr} : a ∈ slabs ↔ ∃ n < 10, a.toNat = 2048 * n := by
  simp only [slabs, List.mem_map, List.mem_range]
  constructor
  · rintro ⟨n, hn, rfl⟩
    refine ⟨n, hn, ?_⟩
    rw [BitVec.toNat_ofNat]
    omega
  · rintro ⟨n, hn, ha⟩
    refine ⟨n, hn, BitVec.eq_of_toNat_eq ?_⟩
    rw [BitVec.toNat_ofNat, ha]
    omega

/-- The lines of a slab follow each other. -/
theorem toNat_tmpLine {a : SlabAddr} (ha : a ∈ slabs) {k : Nat} (hk : k < 32) :
    64 * (tmpLine (a + BitVec.ofNat 15 (64 * k))).toNat = a.toNat + 64 * k := by
  obtain ⟨n, hn, ha⟩ := mem_slabs.mp ha
  rw [tmpLine, BitVec.toNat_setWidth, BitVec.toNat_ushiftRight, BitVec.toNat_add,
    BitVec.toNat_ofNat, ha, Nat.shiftRight_eq_div_pow]
  omega

theorem inSlab_of_mem {a : SlabAddr} (ha : a ∈ slabs) {k : Nat} (hk : k < 32) :
    TmpBufSystem.InSlab a (tmpLine (a + BitVec.ofNat 15 (64 * k))) := by
  have hline := toNat_tmpLine ha hk
  constructor <;> omega

/-- Different lines of the slabs are different lines of the memory. -/
theorem tmpLine_inj {a b : SlabAddr} (ha : a ∈ slabs) (hb : b ∈ slabs) {j k : Nat} (hj : j < 32)
    (hk : k < 32)
    (h : tmpLine (a + BitVec.ofNat 15 (64 * j)) = tmpLine (b + BitVec.ofNat 15 (64 * k))) :
    a = b ∧ j = k := by
  have hline := toNat_tmpLine ha hj
  have hline' := toNat_tmpLine hb hk
  obtain ⟨m, hm, ha⟩ := mem_slabs.mp ha
  obtain ⟨n, hn, hb⟩ := mem_slabs.mp hb
  rw [h] at hline
  refine ⟨BitVec.eq_of_toNat_eq ?_, ?_⟩ <;> omega

/-- The first `n` lines of the packet are in the slab. -/
def SlabFilled (mem : TmpLine → Line) (a : SlabAddr) (p : TmpPkt) (n : Nat) : Prop :=
  ∀ j, j < n → (p.lines.map storeData)[j]? = some (mem (tmpLine (a + BitVec.ofNat 15 (64 * j))))

/-- A line that is stored in another slab, or behind these lines, leaves them alone. -/
theorem SlabFilled.store {mem : TmpLine → Line} {a b : SlabAddr} {p : TmpPkt} {n k : Nat} {x : Line}
    (h : SlabFilled mem b p n) (hb : b ∈ slabs) (hn : n ≤ 32) (ha : a ∈ slabs) (hk : k < 32)
    (hne : b ≠ a ∨ n ≤ k) :
    SlabFilled (Function.update mem (tmpLine (a + BitVec.ofNat 15 (64 * k))) x) b p n := by
  intro j hj
  rw [h j hj, Function.update_of_ne]
  intro heq
  obtain ⟨rfl, rfl⟩ := tmpLine_inj hb ha (by omega) hk heq
  rcases hne with hne | hle
  · exact hne rfl
  · omega

/-- The next line is stored. -/
theorem SlabFilled.succ {mem : TmpLine → Line} {a : SlabAddr} {p : TmpPkt} {k : Nat} {l : DataLine}
    (h : SlabFilled mem a p k) (ha : a ∈ slabs) (hk : k < 32) (hl : p.lines[k]? = some l) :
    SlabFilled (Function.update mem (tmpLine (a + BitVec.ofNat 15 (64 * k))) (storeData l)) a p
      (k + 1) := by
  intro j hj
  by_cases hjk : j = k
  · subst hjk
    rw [Function.update_self, List.getElem?_map, hl]
    rfl
  · exact h.store ha (by omega) ha hk (.inr (Nat.le_refl k)) j (by omega)

/-- What is read for the payload. -/
theorem SlabFilled.readBack {mem : TmpLine → Line} {entry : PayloadBuf} {p : TmpPkt}
    (h : SlabFilled mem (entry.payloadAddr.setWidth 15) p p.lines.length)
    (hlen : entry.payloadLen = p.hdr.payloadLen) : readBack mem entry = p.lines.map storeData := by
  have hcnt : (entry.payloadLen.toNat + 63) / 64 = p.lines.length := by
    rw [hlen, p.len, p.length_lines]
  apply List.ext_getElem?
  intro j
  rw [TcpHw.readBack, hcnt, List.getElem?_map]
  by_cases hj : j < p.lines.length
  · rw [List.getElem?_range hj, h j hj]
    rfl
  · rw [List.getElem?_eq_none (by rw [List.length_range]; omega),
      List.getElem?_eq_none (by rw [List.length_map]; omega)]
    rfl

/-- The payload is in its slab. -/
structure StoredPayload.Held (mem : TmpLine → Line) (x : StoredPayload) : Prop where
  len : x.entry.payloadLen = x.pkt.hdr.payloadLen
  pos : x.entry.payloadLen ≠ 0
  fits : x.pkt.payload.length ≤ 2048
  filled : SlabFilled mem (x.entry.payloadAddr.setWidth 15) x.pkt x.pkt.lines.length

namespace TmpBufSystem

variable {s : TmpBufSystem} {i : TmpBufIn}

/-- All payloads for which a slab was handed out. -/
def entries (s : TmpBufSystem) : List PayloadBuf :=
  tmpPayloads s.buf ++ s.waiting.map StoredPayload.entry

/-- The next line is line `k` of the packet in hand. -/
structure Copying (s : TmpBufSystem) (p : TmpPkt) (k : Nat) : Prop where
  ctrl : s.buf.ctrl = .dataCopy
  cur : s.cur = some p
  hdr : s.buf.hdr = p.hdr
  pos : 0 < s.buf.payloadBytesRem.toNat
  rem : s.buf.payloadBytesRem.toNat + 64 * k = p.payload.length
  fits : p.payload.length ≤ 2048
  addr : s.writeAddr = s.buf.allocAddr + BitVec.ofNat 15 (64 * k)
  data : s.data = p.lines.drop k ++ s.hdrs.flatMap TmpPkt.lines
  filled : SlabFilled s.mem s.buf.allocAddr p k

/-- All lines of the packet in hand are stored. -/
structure Copied (s : TmpBufSystem) (p : TmpPkt) : Prop where
  ctrl : s.buf.ctrl = .output
  cur : s.cur = some p
  hdr : s.buf.hdr = p.hdr
  fits : p.payload.length ≤ 2048
  data : s.data = s.hdrs.flatMap TmpPkt.lines
  filled : SlabFilled s.mem s.buf.allocAddr p p.lines.length

/-- The buffer stands before a packet, at a line of the packet in hand, or behind its lines. -/
inductive Phase (s : TmpBufSystem) : Prop
  | ready (hc : s.buf.ctrl = .ready) (hd : s.data = s.hdrs.flatMap TmpPkt.lines)
  | dataCopy (p : TmpPkt) (k : Nat) (h : Copying s p k)
  | output (p : TmpPkt) (h : Copied s p)

/-- Every slab is free or belongs to one payload. -/
structure Inv (s : TmpBufSystem) : Prop where
  tracker : TrackerInv s.tracker
  once : ∀ a, (pool s.tracker).count a + held slab? a s.entries = if a ∈ slabs then 1 else 0
  phase : s.Phase
  waiting : ∀ x ∈ s.waiting, x.Held s.mem
  written : ∀ w ∈ s.written, InSlab w.1 w.2

/-! ### Every slab belongs to one payload -/

theorem held_entry {x : StoredPayload} {mem : TmpLine → Line} (h : x.Held mem) (a : SlabAddr) :
    held slab? a [x.entry] = List.count a [x.entry.payloadAddr.setWidth 15] :=
  RxPipe.held_payload a h.pos

theorem Inv.mem_slabs (hi : s.Inv) {a : SlabAddr} (ha : 0 < held slab? a s.entries) :
    a ∈ slabs := by
  by_contra hn
  have honce := hi.once a
  rw [if_neg hn] at honce
  omega

theorem held_pos_of_mem {x : StoredPayload} (hx : x ∈ s.waiting) (hh : x.Held s.mem) :
    0 < held slab? (x.entry.payloadAddr.setWidth 15) (s.waiting.map StoredPayload.entry) := by
  rw [held, List.count_pos_iff]
  refine List.mem_filterMap.mpr ⟨x.entry, List.mem_map_of_mem hx, ?_⟩
  rw [slab?, if_neg hh.pos]

/-- The slab in hand is not one of those that are held. -/
theorem Inv.slab_ne (hi : s.Inv) (hc : s.buf.ctrl ≠ .ready) (h0 : s.buf.hdr.payloadLen ≠ 0) :
    s.buf.allocAddr ∈ slabs ∧ ∀ x ∈ s.waiting, x.entry.payloadAddr.setWidth 15 ∈ slabs ∧
      x.entry.payloadAddr.setWidth 15 ≠ s.buf.allocAddr := by
  have hhand : held slab? s.buf.allocAddr (tmpPayloads s.buf) = 1 := by
    rw [tmpPayloads, if_neg hc, RxPipe.held_payload _ h0]
    simp [TmpRxBuf.payloadEntry]
  have hsum : ∀ a, held slab? a s.entries =
      held slab? a (tmpPayloads s.buf) + held slab? a (s.waiting.map StoredPayload.entry) :=
    fun a => held_append slab? a _ _
  refine ⟨hi.mem_slabs (by rw [hsum]; omega), fun x hx => ?_⟩
  have hpos := held_pos_of_mem hx (hi.waiting x hx)
  refine ⟨hi.mem_slabs (by rw [hsum]; omega), fun heq => ?_⟩
  rw [heq] at hpos
  have honce := hi.once s.buf.allocAddr
  have htot := hsum s.buf.allocAddr
  split at honce <;> omega

theorem Phase.cur_isSome (hp : s.Phase) (hc : s.buf.ctrl = .output) : ∃ p, s.cur = some p := by
  cases hp with
  | output p h => exact ⟨p, h.cur⟩
  | ready ho =>
    rw [hc] at ho
    cases ho
  | dataCopy p k h =>
    have ho := h.ctrl
    rw [hc] at ho
    cases ho

theorem Inv.given_balance (hi : s.Inv) (a : SlabAddr) :
    held slab? a ((s.given i).map StoredPayload.entry) =
      held slab? a ((if !i.dstRdy then none else s.buf.out).map RecvPkt.payloadEntry).toList := by
  by_cases hc : s.buf.ctrl = .output
  · obtain ⟨p, hp⟩ := hi.phase.cur_isSome hc
    have hout : s.buf.out.map RecvPkt.payloadEntry = some s.buf.payloadEntry := by
      simp [TmpRxBuf.out, hc]
    cases hr : i.dstRdy with
    | false => simp [given, gives, hr]
    | true =>
      simp only [Bool.not_true, Bool.false_eq_true, if_false, hout]
      by_cases h0 : s.buf.hdr.payloadLen = 0#16
      · have hz := RxPipe.held_empty a (e := s.buf.payloadEntry) h0
        simp [given, gives, h0, hz]
      · simp [given, gives, hc, hr, h0, hp]
  · have hout : s.buf.out = none := by simp [TmpRxBuf.out, hc]
    simp [given, gives, hc, hout]

theorem Inv.kept_balance (hi : s.Inv) (a : SlabAddr) :
    held slab? a ((s.kept i).map StoredPayload.entry) +
        List.count a (if s.tracker.freeRdy then s.freeAddr i else none).toList =
      held slab? a (s.waiting.map StoredPayload.entry) := by
  unfold kept freeAddr
  cases s.tracker.freeRdy with
  | false => simp
  | true =>
    cases hf : s.freeReq i with
    | none => simp
    | some y =>
      obtain ⟨n, x⟩ := y
      obtain ⟨m, -, hy⟩ := Option.bind_eq_some_iff.mp hf
      obtain ⟨x', hx, heq⟩ := Option.map_eq_some_iff.mp hy
      cases heq
      obtain ⟨hlt, hget⟩ := List.getElem?_eq_some_iff.mp hx
      have hmem : x ∈ s.waiting := List.mem_of_getElem? hx
      have hperm : (x :: s.waiting.eraseIdx n).Perm s.waiting := by
        rw [← hget]
        exact List.getElem_cons_eraseIdx_perm hlt
      have hcount := ((hperm.map StoredPayload.entry).filterMap slab?).count_eq a
      have hone := held_entry (hi.waiting x hmem) a
      have hcons := held_cons slab? a x.entry ((s.waiting.eraseIdx n).map StoredPayload.entry)
      rw [List.map_cons] at hcount
      simp only [if_true, Option.map_some, Option.getD_some, Option.toList_some]
      unfold held at hone hcons ⊢
      omega

theorem Inv.once_cycle (hi : s.Inv) (a : SlabAddr) :
    (pool (s.cycle i).tracker).count a + held slab? a (s.cycle i).entries =
      if a ∈ slabs then 1 else 0 := by
  have htmp := RxPipe.tmp_balance a s.buf (s.hdrIn i) s.tracker.respError s.tracker.respAddr
    (s.dataVal i) (!i.dstRdy)
  rw [Bool.not_not] at htmp
  have herr : s.consume i = true → s.tracker.respError = false := by
    intro hc
    simp only [consume, TmpRxBuf.consume, Bool.and_eq_true] at hc
    obtain ⟨h, -, hany⟩ := (Option.any_eq_true _ _).mp hc.2
    simpa using (Bool.and_eq_true_iff.mp hany).2
  have hpool := RxPipe.pool_balance a hi.tracker (s.consume i) (s.freeAddr i) herr
  have hgiven := hi.given_balance (i := i) a
  have hkept := hi.kept_balance (i := i) a
  have honce := hi.once a
  have hentries : held slab? a (s.cycle i).entries = held slab? a (tmpPayloads (s.cycle i).buf) +
      (held slab? a ((s.kept i).map StoredPayload.entry) +
        held slab? a ((s.given i).map StoredPayload.entry)) := by
    show held slab? a (_ ++ (s.kept i ++ s.given i).map StoredPayload.entry) = _
    rw [List.map_append, held_append, held_append]
  have hbefore : held slab? a s.entries =
      held slab? a (tmpPayloads s.buf) + held slab? a (s.waiting.map StoredPayload.entry) :=
    held_append slab? a _ _
  have hpool' : (pool (s.cycle i).tracker).count a = (pool (s.tracker.step (s.consume i)
      (s.freeAddr i))).count a := rfl
  have hbuf : tmpPayloads (s.cycle i).buf = tmpPayloads (s.buf.step (s.hdrIn i) s.tracker.respError
      s.tracker.respAddr (s.dataVal i) i.dstRdy) := rfl
  have hcons : s.consume i = s.buf.consume (s.hdrIn i) s.tracker.respError := rfl
  rw [← hcons] at htmp
  rw [hentries, hbuf, hpool']
  omega

/-! ### One cycle -/

theorem mem_kept {x : StoredPayload} (hx : x ∈ s.kept i) : x ∈ s.waiting := by
  unfold kept at hx
  split at hx
  · cases hf : s.freeReq i with
    | none =>
      rw [hf] at hx
      exact hx
    | some y =>
      rw [hf] at hx
      exact List.mem_of_mem_eraseIdx hx
  · exact hx

/-- A line that is stored is the next one of the packet in hand, and it goes to the next line of its
slab. -/
structure Storing (s : TmpBufSystem) (p : TmpPkt) (k : Nat) (l : DataLine) : Prop where
  slab : s.buf.allocAddr ∈ slabs
  lt : k < 32
  addr : s.storeAddr = tmpLine (s.buf.allocAddr + BitVec.ofNat 15 (64 * k))
  line : p.lines[k]? = some l
  data : s.data = l :: (p.lines.drop (k + 1) ++ s.hdrs.flatMap TmpPkt.lines)

theorem Copying.payloadLen_ne {p : TmpPkt} {k : Nat} (h : Copying s p k) :
    s.buf.hdr.payloadLen ≠ 0 := by
  intro h0
  have hlen : p.payload.length = 0 := by
    rw [← p.len, ← h.hdr, h0]
    rfl
  have hpos := h.pos
  have hrem := h.rem
  omega

theorem Inv.storing (hi : s.Inv) {p : TmpPkt} {k : Nat} (h : Copying s p k) :
    ∃ l, Storing s p k l := by
  have hpos := h.pos
  have hrem := h.rem
  have hfits := h.fits
  have hk : k < p.lines.length := by
    rw [p.length_lines]
    omega
  refine ⟨p.lines[k], (hi.slab_ne (by simp [h.ctrl]) h.payloadLen_ne).1, by omega, ?_,
    List.getElem?_eq_getElem hk, ?_⟩
  · rw [storeAddr, h.addr]
  · rw [h.data, List.drop_eq_getElem_cons hk, List.cons_append]

/-- What is held stays in its slabs when a line of the packet in hand is stored. -/
theorem Inv.held_store (hi : s.Inv) {p : TmpPkt} {k : Nat} {l : DataLine} (h : Copying s p k)
    (hst : Storing s p k l) {x : StoredPayload} (hx : x ∈ s.waiting) :
    x.Held (Function.update s.mem s.storeAddr (storeData l)) := by
  obtain ⟨hslab, hdiff⟩ := (hi.slab_ne (by simp [h.ctrl]) h.payloadLen_ne).2 x hx
  obtain ⟨hlen, h0, hfits, hfill⟩ := hi.waiting x hx
  refine ⟨hlen, h0, hfits, ?_⟩
  rw [hst.addr]
  refine hfill.store hslab ?_ hst.slab hst.lt (.inl hdiff)
  rw [x.pkt.length_lines]
  omega

theorem Storing.mem_cycle {p : TmpPkt} {k : Nat} {l : DataLine} (h : Storing s p k l)
    (hs : s.stores i = true) :
    (s.cycle i).mem = Function.update s.mem s.storeAddr (storeData l) := by
  have hhead : s.data.headD default = l := by rw [h.data]; rfl
  simp only [cycle, hs, if_true, hhead]

/-- The line is the last one of the packet, or the next one follows. -/
theorem Copying.phase_stores {p : TmpPkt} {k : Nat} {l : DataLine} (h : Copying s p k)
    (hst : Storing s p k l) (hv : s.dataVal i = true) : (s.cycle i).Phase := by
  have hpos := h.pos
  have hrem := h.rem
  have hc := h.ctrl
  have hstores : s.stores i = true := by simp [stores, hc, hv]
  have hconsume : s.consume i = false := by simp [consume, TmpRxBuf.consume, hc]
  have htakes : s.takesHdr i = false := by simp [takesHdr, hc]
  have hgives : s.gives i = false := by simp [gives, hc]
  have hdata : (s.cycle i).data = p.lines.drop (k + 1) ++ s.hdrs.flatMap TmpPkt.lines := by
    simp only [cycle, hstores, if_true, hst.data, List.tail_cons]
  have hhdrs : (s.cycle i).hdrs = s.hdrs := by simp [cycle, htakes]
  have hcur : (s.cycle i).cur = some p := by simp [cycle, htakes, hgives, h.cur]
  have halloc : (s.cycle i).buf.allocAddr = s.buf.allocAddr := by
    simp [cycle, TmpRxBuf.step, hc, hv]
  have hhdr : (s.cycle i).buf.hdr = p.hdr := by simp [cycle, TmpRxBuf.step, hc, hv, h.hdr]
  have hfill : SlabFilled (s.cycle i).mem (s.cycle i).buf.allocAddr p (k + 1) := by
    rw [hst.mem_cycle hstores, halloc, hst.addr]
    exact h.filled.succ hst.slab hst.lt hst.line
  by_cases hle : s.buf.payloadBytesRem ≤ nocDataBytes
  · have hend : p.lines.length = k + 1 := by
      have hle' : s.buf.payloadBytesRem.toNat ≤ 64 := hle
      rw [p.length_lines]
      omega
    have hctrl : (s.cycle i).buf.ctrl = .output := by
      simp only [cycle, TmpRxBuf.step, hc, hv, if_true, if_pos hle]
    refine .output p ⟨hctrl, hcur, hhdr, h.fits, ?_, ?_⟩
    · rw [hdata, hhdrs, List.drop_of_length_le (by omega), List.nil_append]
    · rw [hend]
      exact hfill
  · have hgt : 64 < s.buf.payloadBytesRem.toNat := by
      rw [BitVec.le_def] at hle
      exact Nat.lt_of_not_le hle
    have hctrl : (s.cycle i).buf.ctrl = .dataCopy := by
      simp only [cycle, TmpRxBuf.step, hc, hv, if_true, if_neg hle]
    have hbytes : (s.cycle i).buf.payloadBytesRem = s.buf.payloadBytesRem - 64 := by
      simp only [cycle, TmpRxBuf.step, hc, hv, if_true]
    have hnat : (s.buf.payloadBytesRem - 64).toNat = s.buf.payloadBytesRem.toNat - 64 := by
      bv_omega
    have hw : (s.cycle i).writeAddr = s.writeAddr + 64 := by
      simp only [cycle, hconsume, hstores, if_true, Bool.false_eq_true, if_false]
    refine .dataCopy p (k + 1) ⟨hctrl, hcur, hhdr, ?_, ?_, h.fits, ?_, by rw [hdata, hhdrs], hfill⟩
    · rw [hbytes, hnat]
      omega
    · rw [hbytes, hnat]
      omega
    · rw [hw, halloc, h.addr, BitVec.add_assoc]
      congr 1
      apply BitVec.eq_of_toNat_eq
      rw [BitVec.toNat_add, BitVec.toNat_ofNat, BitVec.toNat_ofNat]
      show (_ + 64) % _ = _
      omega

/-- A line is stored. -/
theorem Inv.cycle_stores (hi : s.Inv) {p : TmpPkt} {k : Nat} (h : Copying s p k)
    (hv : s.dataVal i = true) : (s.cycle i).Inv := by
  obtain ⟨l, hst⟩ := hi.storing h
  have hstores : s.stores i = true := by simp [stores, h.ctrl, hv]
  have hgiven : s.given i = [] := by simp [given, gives, h.ctrl]
  refine ⟨RxPipe.trackerInv_step hi.tracker _ _, hi.once_cycle, h.phase_stores hst hv, ?_, ?_⟩
  · intro x hx
    have hx' : x ∈ s.kept i ++ s.given i := hx
    rw [hgiven, List.append_nil] at hx'
    rw [hst.mem_cycle hstores]
    exact hi.held_store h hst (mem_kept hx')
  · intro w hw
    have hwritten : (s.cycle i).written = s.written ++ [(s.buf.allocAddr, s.storeAddr)] := by
      simp [cycle, hstores]
    rw [hwritten] at hw
    rcases List.mem_append.mp hw with hw | hw
    · exact hi.written w hw
    · obtain rfl := List.mem_singleton.mp hw
      rw [hst.addr]
      exact inSlab_of_mem hst.slab hst.lt

/-- No line is stored. -/
theorem Inv.cycle_still (hi : s.Inv) (hst : s.stores i = false) (hphase : (s.cycle i).Phase)
    (hgiven : ∀ x ∈ s.given i, x.Held s.mem) : (s.cycle i).Inv := by
  have hmem : (s.cycle i).mem = s.mem := by simp [cycle, hst]
  refine ⟨RxPipe.trackerInv_step hi.tracker _ _, hi.once_cycle, hphase, ?_, ?_⟩
  · intro x hx
    rw [hmem]
    rcases List.mem_append.mp hx with hx | hx
    · exact hi.waiting x (mem_kept hx)
    · exact hgiven x hx
  · have hwritten : (s.cycle i).written = s.written := by simp [cycle, hst]
    rw [hwritten]
    exact hi.written

theorem not_stores (hc : s.buf.ctrl ≠ .dataCopy) : s.stores i = false := by simp [stores, hc]

theorem not_given (hc : s.buf.ctrl ≠ .output) : s.given i = [] := by simp [given, gives, hc]

/-- The header on offer is that of the next packet. -/
theorem hdrIn_eq_some {h : RxHdr} (hin : s.hdrIn i = some h) :
    ∃ p t, s.hdrs = p :: t ∧ p.hdr = h := by
  unfold hdrIn at hin
  split at hin
  · obtain ⟨p, hp, hh⟩ := Option.map_eq_some_iff.mp hin
    obtain ⟨t, ht⟩ := List.head?_eq_some_iff.mp hp
    exact ⟨p, t, ht, hh⟩
  · cases hin

/-- Without a header that is taken nothing happens before a packet. -/
theorem Inv.cycle_ready_idle (hi : s.Inv) (hc : s.buf.ctrl = .ready)
    (hd : s.data = s.hdrs.flatMap TmpPkt.lines) (ht : s.takesHdr i = false) : (s.cycle i).Inv := by
  have hst : s.stores i = false := not_stores (by simp [hc])
  have hctrl : (s.cycle i).buf.ctrl = .ready := by
    cases hin : s.hdrIn i with
    | none => simp [cycle, TmpRxBuf.step, hc, hin]
    | some h =>
      simp only [takesHdr, hc, hin, beq_self_eq_true, Bool.true_and, Option.any_some,
        Bool.or_eq_false_iff, beq_eq_false_iff_ne, Bool.not_eq_false'] at ht
      simp only [cycle, TmpRxBuf.step, hc, hin, if_neg ht.1, ht.2, if_true]
  refine hi.cycle_still hst (.ready hctrl ?_) ?_
  · simpa [cycle, hst, ht] using hd
  · simp [not_given (s := s) (i := i) (by simp [hc])]

/-- A header is taken. -/
theorem Inv.cycle_takesHdr (hi : s.Inv) (hfit : s.Fits i) (hc : s.buf.ctrl = .ready)
    (hd : s.data = s.hdrs.flatMap TmpPkt.lines) (ht : s.takesHdr i = true) : (s.cycle i).Inv := by
  have hst : s.stores i = false := not_stores (by simp [hc])
  have hgiven : s.given i = [] := not_given (by simp [hc])
  refine hi.cycle_still hst ?_ (by simp [hgiven])
  have hany := ht
  simp only [takesHdr, hc, beq_self_eq_true, Bool.true_and] at hany
  obtain ⟨h, hin, hok⟩ := (Option.any_eq_true _ _).mp hany
  obtain ⟨p, t, hp, rfl⟩ := hdrIn_eq_some hin
  have hle : p.payload.length ≤ 2048 := by
    rw [← p.len]
    exact hfit ht p (by rw [hp]; rfl)
  have hcur : (s.cycle i).cur = some p := by simp [cycle, ht, hp]
  have hhdrs : (s.cycle i).hdrs = t := by simp [cycle, ht, hp]
  have hdata : (s.cycle i).data = p.lines ++ t.flatMap TmpPkt.lines := by
    simp [cycle, hst, hd, hp]
  have hhdr : (s.cycle i).buf.hdr = p.hdr := by simp [cycle, TmpRxBuf.step, hc, hin]
  by_cases h0 : p.hdr.payloadLen = 0
  · have hctrl : (s.cycle i).buf.ctrl = .output := by
      simp only [cycle, TmpRxBuf.step, hc, hin, if_pos h0]
    have hnil := p.lines_eq_nil h0
    refine .output p ⟨hctrl, hcur, hhdr, hle, ?_, ?_⟩
    · rw [hdata, hhdrs, hnil, List.nil_append]
    · intro j hj
      rw [hnil] at hj
      exact absurd hj (Nat.not_lt_zero j)
  · have hne : p.hdr.payloadLen ≠ 0#16 := h0
    have herr : s.tracker.respError = false := by simpa [hne] using hok
    have hcons : s.buf.consume (some p.hdr) false = true := by simp [TmpRxBuf.consume, hc, hne]
    have hctrl : (s.cycle i).buf.ctrl = .dataCopy := by
      simp only [cycle, TmpRxBuf.step, hc, hin, if_neg h0, herr, Bool.false_eq_true, if_false]
    have halloc : (s.cycle i).buf.allocAddr = s.tracker.respAddr := by
      simp only [cycle, TmpRxBuf.step, hc, hin, herr, hcons, if_true]
    have hw : (s.cycle i).writeAddr = s.tracker.respAddr := by
      simp only [cycle, consume, hin, herr, hcons, if_true]
    have hrem : (s.cycle i).buf.payloadBytesRem = p.hdr.payloadLen := by
      simp only [cycle, TmpRxBuf.step, hc, hin]
    have hpos : 0 < p.hdr.payloadLen.toNat := by
      refine Nat.pos_of_ne_zero fun hz => h0 ?_
      exact BitVec.eq_of_toNat_eq hz
    refine .dataCopy p 0 ⟨hctrl, hcur, hhdr, ?_, ?_, hle, ?_, ?_, ?_⟩
    · rw [hrem]
      exact hpos
    · rw [hrem, p.len]
      rfl
    · rw [hw, halloc]
      exact (BitVec.add_zero _).symm
    · rw [hdata, hhdrs, List.drop_zero]
    · intro j hj
      exact absurd hj (Nat.not_lt_zero j)

/-- The packet in hand waits for a line. -/
theorem Inv.cycle_waits (hi : s.Inv) {p : TmpPkt} {k : Nat} (h : Copying s p k)
    (hv : s.dataVal i = false) : (s.cycle i).Inv := by
  have hc := h.ctrl
  have hst : s.stores i = false := by simp [stores, hv]
  have hcons : s.consume i = false := by simp [consume, TmpRxBuf.consume, hc]
  have htakes : s.takesHdr i = false := by simp [takesHdr, hc]
  have hgives : s.gives i = false := by simp [gives, hc]
  have hgiven : s.given i = [] := not_given (by simp [hc])
  have hbuf : (s.cycle i).buf = s.buf := by simp [cycle, TmpRxBuf.step, hc, hv]
  have hcur : (s.cycle i).cur = s.cur := by simp [cycle, htakes, hgives]
  have hw : (s.cycle i).writeAddr = s.writeAddr := by simp [cycle, hcons, hst]
  have hdata : (s.cycle i).data = s.data := by simp [cycle, hst]
  have hhdrs : (s.cycle i).hdrs = s.hdrs := by simp [cycle, htakes]
  have hmem : (s.cycle i).mem = s.mem := by simp [cycle, hst]
  refine hi.cycle_still hst (.dataCopy p k ?_) (by simp [hgiven])
  constructor
  · rw [hbuf, hc]
  · rw [hcur, h.cur]
  · rw [hbuf, h.hdr]
  · rw [hbuf]
    exact h.pos
  · rw [hbuf, h.rem]
  · exact h.fits
  · rw [hbuf, hw, h.addr]
  · rw [hdata, hhdrs, h.data]
  · rw [hbuf, hmem]
    exact h.filled

/-- The packet in hand goes on, or waits for what is behind the buffer. -/
theorem Inv.cycle_output (hi : s.Inv) {p : TmpPkt} (h : Copied s p) : (s.cycle i).Inv := by
  have hc := h.ctrl
  have hst : s.stores i = false := not_stores (by simp [hc])
  have htakes : s.takesHdr i = false := by simp [takesHdr, hc]
  have hdata : (s.cycle i).data = (s.cycle i).hdrs.flatMap TmpPkt.lines := by
    simpa [cycle, hst, htakes] using h.data
  refine hi.cycle_still hst ?_ ?_
  · cases hr : i.dstRdy with
    | true => exact .ready (by simp [cycle, TmpRxBuf.step, hc, hr]) hdata
    | false =>
      have hbuf : (s.cycle i).buf = s.buf := by simp [cycle, TmpRxBuf.step, hc, hr]
      have hcur : (s.cycle i).cur = s.cur := by simp [cycle, htakes, gives, hr]
      have hmem : (s.cycle i).mem = s.mem := by simp [cycle, hst]
      refine .output p ⟨?_, ?_, ?_, h.fits, hdata, ?_⟩
      · rw [hbuf, hc]
      · rw [hcur, h.cur]
      · rw [hbuf, h.hdr]
      · rw [hbuf, hmem]
        exact h.filled
  · intro x hx
    unfold given at hx
    split at hx
    · rename_i hg
      rw [h.cur] at hx
      obtain rfl := List.mem_singleton.mp hx
      have hne : s.buf.hdr.payloadLen ≠ 0 := by
        simpa using (Bool.and_eq_true_iff.mp hg).2
      have haddr : s.buf.payloadEntry.payloadAddr.setWidth 15 = s.buf.allocAddr := by
        simp [TmpRxBuf.payloadEntry]
      refine ⟨by rw [TmpRxBuf.payloadEntry, h.hdr], hne, h.fits, ?_⟩
      rw [haddr]
      exact h.filled
    · cases hx

theorem Inv.cycle (hi : s.Inv) (hfit : s.Fits i) : (s.cycle i).Inv := by
  cases hi.phase with
  | ready hc hd =>
    cases ht : s.takesHdr i with
    | false => exact hi.cycle_ready_idle hc hd ht
    | true => exact hi.cycle_takesHdr hfit hc hd ht
  | dataCopy p k h =>
    cases hv : s.dataVal i with
    | false => exact hi.cycle_waits h hv
    | true => exact hi.cycle_stores h hv
  | output p h => exact hi.cycle_output h

/-! ### Runs -/

theorem Init.inv {xs : List TmpPkt} (h : Init xs s) : s.Inv := by
  obtain ⟨hbuf, htr, hhdrs, hdata, -, hw, hwr⟩ := h
  have hpool : pool s.tracker = slabs := by
    rw [htr]
    decide +kernel
  have hentries : s.entries = [] := by
    simp [entries, tmpPayloads, hbuf, hw, TmpRxBuf.reset]
  refine ⟨?_, ?_, .ready (by rw [hbuf]; rfl) (by rw [hdata, hhdrs]), ?_, ?_⟩
  · intro _
    rw [htr]
    decide +kernel
  · intro a
    rw [hpool, hentries, RxPipe.slabs_nodup.count]
    rfl
  · simp [hw]
  · simp [hwr]

theorem Inv.of_reach {xs : List TmpPkt} (h : Reach (Init xs) step Fits s) : s.Inv := by
  refine h.invariant (fun _ => Init.inv) ?_
  intro t i t' ht hfit hs
  cases hs
  exact ht.cycle hfit

/-- As long as no packet that is taken is longer than a slab, every line lies in the slab of its
packet, and every payload is read as it was stored. -/
theorem tmp_rx_buf_keeps_inside {xs : List TmpPkt} (h : Reach (Init xs) step Fits s) :
    s.KeepsInside := by
  have hi := Inv.of_reach h
  refine ⟨hi.written, fun x hx => ?_⟩
  have hheld := hi.waiting x hx
  have hread := hheld.filled.readBack hheld.len
  refine ⟨hread, ?_⟩
  rw [hread]
  exact x.pkt.stored_bytes

instance : Decidable (s.Fits i) := by unfold Fits; infer_instance

instance (a : SlabAddr) (l : TmpLine) : Decidable (InSlab a l) := by unfold InSlab; infer_instance

/-- A payload of one byte. -/
def shortPkt : TmpPkt where
  hdr := { (default : RxHdr) with payloadLen := 1 }
  payload := [255]
  lines := [⟨255 <<< 504, 63, true⟩]
  len := rfl
  carried := by decide +kernel

/-- The lines of `64 * n - 63` zeros. -/
def zeroLines (n : Nat) : List DataLine := List.replicate (n - 1) ⟨0, 0, false⟩ ++ [⟨0, 63, true⟩]

/-- 65 zeros. -/
def mediumPkt : TmpPkt where
  hdr := { (default : RxHdr) with payloadLen := 65 }
  payload := List.replicate 65 0
  lines := zeroLines 2
  len := rfl
  carried := by decide +kernel

/-- 2049 zeros, one more than a slab has bytes. -/
def longPkt : TmpPkt where
  hdr := { (default : RxHdr) with payloadLen := 2049 }
  payload := List.replicate 2049 0
  lines := zeroLines 33
  len := by decide +kernel
  carried := by decide +kernel

def start (xs : List TmpPkt) : TmpBufSystem where
  buf := .reset
  writeAddr := 0
  tracker := .reset
  mem _ := 0
  hdrs := xs
  data := xs.flatMap TmpPkt.lines
  cur := none
  waiting := []
  written := []

/-- Everything moves, and a payload may be freed. -/
def moves (free : Option Nat) : TmpBufIn := ⟨true, true, true, free⟩

/-- Two payloads are stored, the first is freed, and a third is stored. -/
theorem tmp_rx_buf_keeps_inside_freed : ∃ s : TmpBufSystem,
    Reach (Init [mediumPkt, shortPkt, shortPkt]) step Fits s ∧
      (s.waiting.length = 2 ∧ s.written.length = 4) ∧ s.KeepsInside := by
  have hrun : ∃ s, Reach (Init [mediumPkt, shortPkt, shortPkt]) step Fits s ∧
      decide (s.waiting.length = 2 ∧ s.written.length = 4) = true :=
    Reach.exists_of_run (s := start [mediumPkt, shortPkt, shortPkt])
      (List.replicate 7 (moves none) ++ moves (some 0) :: List.replicate 2 (moves none))
      ⟨rfl, rfl, rfl, rfl, rfl, rfl, rfl⟩ (by decide +kernel)
  obtain ⟨s, hr, hp⟩ := hrun
  exact ⟨s, hr, decide_eq_true_iff.mp hp, tmp_rx_buf_keeps_inside hr⟩

/-- The last line of 2049 bytes is written to the slab behind, where the next packet overwrites it:
the payload that is read is not the one that was stored. -/
theorem tmp_rx_buf_leaves_slab :
    ¬ ∀ (xs : List TmpPkt) (s : TmpBufSystem), Reach (Init xs) step Free s → s.KeepsInside := by
  intro h
  have hrun : ∃ s, Reach (Init [longPkt, shortPkt]) step Free s ∧
      decide ((∃ w ∈ s.written, ¬ InSlab w.1 w.2) ∧
        ∃ x ∈ s.waiting, readBack s.mem x.entry ≠ x.pkt.lines.map storeData) = true :=
    Reach.exists_of_run (s := start [longPkt, shortPkt]) (List.replicate 38 (moves none))
      ⟨rfl, rfl, rfl, rfl, rfl, rfl, rfl⟩ (by decide +kernel)
  obtain ⟨s, hr, hp⟩ := hrun
  obtain ⟨-, x, hx, hne⟩ := decide_eq_true_iff.mp hp
  exact hne ((h _ s hr).payloads x hx).1

end TmpBufSystem

end TcpHw
