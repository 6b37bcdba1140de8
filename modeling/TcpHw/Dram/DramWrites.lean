import TcpHw.Dram.DramController

/-!
# What one write stores and one read sends

A write stores the bytes of the message from a position on, up to the next multiple of the flit
size or to the end of the message. In all three kinds of writes byte `j` behind the position is
enabled if it is a byte of the message; the masks of the flits say the same of each flit.
-/
namespace TcpHw

open Bytes Trace

set_option autoImplicit false

/-! ### Messages -/

namespace DramMsg

variable (m : DramMsg)

def hdr : NocHdrFlit := .ofFlit m.hdrFlit

def addr : Nat := m.hdr.addr.toNat

def size : Nat := m.hdr.dataSize.toNat

/-- `ceil(size / NOC_DATA_BYTES)` -/
def flits : Nat := (m.size + 63) / 64

def IsStore : Prop := m.hdr.msgType = msgTypeStoreMem

def IsLoad : Prop := m.hdr.msgType = msgTypeLoadMem

instance : Decidable m.IsStore := inferInstanceAs (Decidable (_ = _))

instance : Decidable m.IsLoad := inferInstanceAs (Decidable (_ = _))

def unaligned : Nat := m.addr % 64

/-- How far a store is after `q` flits, unless it is complete. -/
def upTo (q : Nat) : Nat := 64 * q - m.unaligned

end DramMsg

/-- The byte of the memory at an address: addresses have 48 bits, of which the memory sees as many as
it has. -/
def byteAddr (P : DramParams) (x : Nat) : Nat := x % 2 ^ 48 % 2 ^ (P.memAddrW + 7)

/-- The bytes of one line. -/
theorem byteAddr_line {P : DramParams} {x k : Nat} (h : x % 128 + k < 128) :
    byteAddr P (x + k) = 128 * (x % 2 ^ 48 / 128 % 2 ^ P.memAddrW) + x % 128 + k := by
  have hpow : 2 ^ (P.memAddrW + 7) = 128 * 2 ^ P.memAddrW := by rw [Nat.pow_add, Nat.mul_comm]
  have hsum : (x + k) % 2 ^ 48 = x % 2 ^ 48 + k := by omega
  have hdiv : (x % 2 ^ 48 + k) / 128 = x % 2 ^ 48 / 128 := by omega
  have hmod : (x % 2 ^ 48 + k) % 128 = x % 128 + k := by omega
  rw [byteAddr, hsum, hpow, Nat.mod_mul, hdiv, hmod]
  omega

/-- As many neighbouring bytes as the memory has are different ones. -/
theorem byteAddr_inj {P : DramParams} {x n : Nat} (hn : n ≤ 2 ^ 48) (hw : n ≤ 2 ^ (P.memAddrW + 7)) :
    ∀ i < n, ∀ j < n, byteAddr P (x + i) = byteAddr P (x + j) → i = j := by
  have hle : ∀ M, n ≤ M → ∀ i < n, ∀ j < n, (x + i) % M = (x + j) % M → i ≤ j := by
    intro M hM i hi j hj h
    have hzero := Nat.sub_mod_eq_zero_of_mod_eq h
    have hsub : x + i - (x + j) = i - j := by omega
    rw [hsub, Nat.mod_eq_of_lt (by omega)] at hzero
    omega
  have hinj : ∀ M, n ≤ M → ∀ i < n, ∀ j < n, (x + i) % M = (x + j) % M → i = j := by
    intro M hM i hi j hj h
    exact Nat.le_antisymm (hle M hM i hi j hj h) (hle M hM j hj i hi h.symm)
  intro i hi j hj h
  rcases Nat.le_total (P.memAddrW + 7) 48 with hw48 | hw48
  · have hdvd : 2 ^ (P.memAddrW + 7) ∣ 2 ^ 48 := Nat.pow_dvd_pow 2 hw48
    rw [byteAddr, byteAddr, Nat.mod_mod_of_dvd _ hdvd, Nat.mod_mod_of_dvd _ hdvd] at h
    exact hinj _ hw i hi j hj h
  · have hpow : 2 ^ 48 ≤ 2 ^ (P.memAddrW + 7) := Nat.pow_le_pow_right (by decide) hw48
    have hlt : ∀ y, y % 2 ^ 48 < 2 ^ (P.memAddrW + 7) := fun y =>
      Nat.lt_of_lt_of_le (Nat.mod_lt y (Nat.two_pow_pos 48)) hpow
    rw [byteAddr, byteAddr, Nat.mod_eq_of_lt (hlt _), Nat.mod_eq_of_lt (hlt _)] at h
    exact hinj _ hn i hi j hj h

namespace DramController

variable {P : DramParams} {r : DramController} {m : DramMsg} {mem : Memory} {d : Line}

/-! ### Masks -/

/-- The mask enables the bytes of flit `q` that belong to the message. -/
def MaskOf (m : DramMsg) (q : Nat) (mask : BitVec 64) : Prop :=
  ∀ j < 64, mask.getMsbD j = decide (64 * q + j < m.size)

theorem lastReqFlit_iff (hh : r.hdrFlit = m.hdr) (hlen : m.hdr.msgLen.toNat = m.flits)
    (hn : 0 < m.flits) : r.lastReqFlit = true ↔ r.currFlitCount + 1 = m.flits := by
  have hsub : (m.hdr.msgLen - 1).toNat = m.flits - 1 := by
    have hlt := m.hdr.msgLen.isLt
    rw [BitVec.toNat_sub, hlen]
    show (2 ^ 22 - 1 + m.flits) % 2 ^ 22 = m.flits - 1
    omega
  rw [lastReqFlit, hh, hsub, beq_iff_eq]
  omega

theorem maskOf_noc0DataMask (hh : r.hdrFlit = m.hdr) (hlen : m.hdr.msgLen.toNat = m.flits)
    (hq : r.currFlitCount < m.flits) : MaskOf m r.currFlitCount r.noc0DataMask := by
  intro j hj
  have hlast := lastReqFlit_iff hh hlen (by omega)
  have hflits : m.flits = (m.size + 63) / 64 := rfl
  unfold noc0DataMask
  split
  · rename_i hl
    have hend := hlast.mp hl
    have hpad : r.lastMsgPadbytes = 64 * m.flits - m.size := by
      show (if r.hdrFlit.dataSize.toNat % 64 = 0 then 0 else 64 - r.hdrFlit.dataSize.toNat % 64) = _
      rw [hh]
      show (if m.size % 64 = 0 then 0 else 64 - m.size % 64) = _
      split <;> omega
    rw [BitVec.getMsbD_shiftLeft, BitVec.getMsbD_allOnes, hpad, decide_eq_decide]
    omega
  · rename_i hl
    have hmore : r.currFlitCount + 1 < m.flits := by
      have hne := mt hlast.mpr hl
      omega
    rw [BitVec.getMsbD_allOnes, decide_eq_decide]
    omega

/-- The mask of a write stands for the bytes from the block address on. -/
theorem getMsbD_shiftedWrMask (src : StoreSrc) {i : Nat} (hi : i < 128) :
    (r.shiftedWrMask src).getMsbD i = (decide (r.blockAddr ≤ i ∧ i < r.blockAddr + 64) &&
      (r.wrMask src).getMsbD (i - r.blockAddr)) := by
  rw [shiftedWrMask, BitVec.getMsbD_ushiftRight, BitVec.getMsbD_append, BitVec.getMsbD_extractLsb']
  by_cases hlo : i < r.blockAddr
  · have hnot : ¬ (r.blockAddr ≤ i ∧ i < r.blockAddr + 64) := by omega
    simp [hlo, hnot]
  · by_cases hhi : 64 ≤ i - r.blockAddr
    · have hnot : ¬ (r.blockAddr ≤ i ∧ i < r.blockAddr + 64) := by omega
      simp [hhi, hnot]
    · have hin : r.blockAddr ≤ i ∧ i < r.blockAddr + 64 := by omega
      have hj : i - r.blockAddr < 64 := by omega
      have hidx : 128 - (64 + 64 - (i - r.blockAddr)) = i - r.blockAddr := by omega
      have hle : 64 + 64 - (i - r.blockAddr) ≤ 128 := by omega
      simp [hi, hlo, hhi, hin, hj, hidx, hle]

theorem wrMask_first (hh : r.hdrFlit = m.hdr) (hmask : MaskOf m 0 r.noc0DataMask) {j : Nat}
    (hj : j < 64) : (r.wrMask .first).getMsbD j = decide (j < 64 - m.unaligned ∧ j < m.size) := by
  have hu : r.bytesUnwritten = m.unaligned := by
    rw [bytesUnwritten, hh]
    rfl
  have hm := hmask j hj
  rw [Nat.mul_zero, Nat.zero_add] at hm
  rw [wrMask, hu, BitVec.getMsbD_and, BitVec.getMsbD_shiftLeft, BitVec.getMsbD_append,
    BitVec.getMsbD_append, if_neg (by omega : ¬ 64 ≤ j), hm, Bool.decide_and]
  congr 1
  split
  · rw [BitVec.getMsbD_zero, eq_comm, decide_eq_false_iff_not]
    omega
  · rw [BitVec.getMsbD_allOnes, decide_eq_decide]
    omega

theorem bytesFirstWr_eq (hh : r.hdrFlit = m.hdr) : r.bytesFirstWr = 64 - m.unaligned := by
  rw [bytesFirstWr, hh]
  rfl

theorem wrMask_copy (hh : r.hdrFlit = m.hdr) {q : Nat} (hsave : MaskOf m q r.save1Mask)
    (hmask : MaskOf m (q + 1) r.noc0DataMask) {j : Nat} (hj : j < 64) :
    (r.wrMask .copy).getMsbD j = decide (64 * (q + 1) - m.unaligned + j < m.size) := by
  have hu : m.unaligned < 64 := Nat.mod_lt _ (by decide)
  rw [wrMask, bytesFirstWr_eq hh, BitVec.getMsbD_shiftLeft, BitVec.getMsbD_append]
  split
  · rw [hmask _ (by omega), decide_eq_decide]
    omega
  · rw [hsave _ (by omega), decide_eq_decide]
    omega

theorem wrMask_drain (hh : r.hdrFlit = m.hdr) {q : Nat} (hsave : MaskOf m q r.save1Mask)
    (hend : m.size ≤ 64 * (q + 1)) (j : Nat) :
    (r.wrMask .drain).getMsbD j = decide (64 * (q + 1) - m.unaligned + j < m.size) := by
  have hu : m.unaligned < 64 := Nat.mod_lt _ (by decide)
  rw [wrMask, bytesFirstWr_eq hh, BitVec.getMsbD_shiftLeft, BitVec.getMsbD_append]
  split
  · rw [BitVec.getMsbD_zero, eq_comm, decide_eq_false_iff_not]
    omega
  · rw [hsave _ (by omega), decide_eq_decide]
    omega

/-! ### Data -/

theorem byte_shiftedWrData_first {k : Nat} (hk : k < 64) (hfit : r.blockAddr + k < 128) :
    byte (r.shiftedWrData .first d) (r.blockAddr + k) = byte d k := by
  show byte (join d (0 : Line) >>> (8 * r.blockAddr)) (r.blockAddr + k) = _
  rw [byte_ushiftRight (n := 128) _ hfit]
  exact (byte_join d (0 : Line) (by omega)).trans (if_pos hk)

/-- The bytes of the joined flits from the first that was not written on. -/
theorem byte_shiftedWrData_body {src : StoreSrc} (hsrc : src ≠ .first) (hh : r.hdrFlit = m.hdr)
    {k : Nat} (hk : k < 64) (hfit : r.blockAddr + k < 128) :
    byte (r.shiftedWrData src d) (r.blockAddr + k) =
      byte (join r.save1 d) (64 - m.unaligned + k) := by
  have hdata : r.shiftedWrData src d =
      (join r.save1 d <<< (8 * r.bytesFirstWr)) >>> (8 * r.blockAddr) := by
    cases src with
    | first => exact absurd rfl hsrc
    | copy => rfl
    | drain => rfl
  rw [hdata, byte_ushiftRight (n := 128) _ hfit, bytesFirstWr_eq hh]
  exact byte_shiftLeft (n := 128) _ (by omega)

/-! ### Writes -/

/-- The bytes of the memory that a message is stored to. -/
def target (P : DramParams) (m : DramMsg) (k : Nat) : Nat := byteAddr P (m.addr + k)

/-- The memory after the first `p` bytes of a store. -/
def stored (P : DramParams) (m : DramMsg) (mem : Memory) (p : Nat) : Memory :=
  storeBytes (target P m) (streamByte m.payload) mem p

/-- A write that stands at byte `p` of the message and stores `c` bytes. -/
theorem write_stores (src : StoreSrc) {p c : Nat} (haddr : r.currOpAddr = (m.addr + p) % 2 ^ 48)
    (hc : c ≤ 64) (hfit : (m.addr + p) % 128 + c ≤ 128)
    (hmask : ∀ j < 64, (r.wrMask src).getMsbD j = decide (j < c))
    (hdata : ∀ k < c, byte (r.shiftedWrData src d) (r.blockAddr + k) = streamByte m.payload (p + k)) :
    writeLine (stored P m mem p) (r.memAddr P) (r.shiftedWrData src d) (r.shiftedWrMask src) =
      stored P m mem (p + c) := by
  have hblock : r.blockAddr = (m.addr + p) % 128 := by
    rw [blockAddr, haddr]
    omega
  rw [stored, stored, storeBytes_add]
  refine writeLine_eq_storeBytes (b := r.blockAddr) (by omega) ?_ ?_ hdata
  · intro k hk
    show byteAddr P (m.addr + (p + k)) = _
    rw [← Nat.add_assoc, byteAddr_line (by omega), hblock, memAddr, lineAddr, haddr]
  · intro i hi
    rw [getMsbD_shiftedWrMask src hi, Bool.and_eq_true, decide_eq_true_eq]
    constructor
    · rintro ⟨hin, hbit⟩
      rw [hmask _ (by omega), decide_eq_true_eq] at hbit
      omega
    · intro hin
      refine ⟨by omega, ?_⟩
      rw [hmask _ (by omega), decide_eq_true_eq]
      omega

theorem write_first (hh : r.hdrFlit = m.hdr) (hlen : m.hdr.msgLen.toNat = m.flits)
    (hn : 0 < m.flits) (hcount : r.currFlitCount = 0) (haddr : r.currOpAddr = m.addr) :
    writeLine mem (r.memAddr P) (r.shiftedWrData .first (m.payload.getD 0 0))
        (r.shiftedWrMask .first) = stored P m mem (min (m.upTo 1) m.size) := by
  have hlt : m.addr < 2 ^ 48 := m.hdr.addr.isLt
  have hmask := maskOf_noc0DataMask hh hlen (by omega)
  have hblock : r.blockAddr = m.addr % 128 := by rw [blockAddr, haddr]
  rw [hcount] at hmask
  rw [← Nat.zero_add (min _ _)]
  refine write_stores .first (p := 0) ?_ ?_ ?_ ?_ ?_
  · rw [Nat.add_zero, haddr, Nat.mod_eq_of_lt hlt]
  · unfold DramMsg.upTo
    omega
  · unfold DramMsg.upTo DramMsg.unaligned
    omega
  · intro j hj
    rw [wrMask_first hh hmask hj, decide_eq_decide]
    unfold DramMsg.upTo
    omega
  · intro k hk
    have hk64 : k < 64 := by
      unfold DramMsg.upTo at hk
      omega
    have hfit : r.blockAddr + k < 128 := by
      unfold DramMsg.upTo DramMsg.unaligned at hk
      omega
    rw [byte_shiftedWrData_first hk64 hfit, Nat.zero_add]
    unfold streamByte
    rw [Nat.div_eq_of_lt hk64, Nat.mod_eq_of_lt hk64]

/-- The writes behind the first one, with flit `q` kept. -/
theorem write_body (src : StoreSrc) (hsrc : src ≠ .first) (hh : r.hdrFlit = m.hdr) {q : Nat}
    (haddr : r.currOpAddr = (m.addr + m.upTo (q + 1)) % 2 ^ 48)
    (hmore : m.upTo (q + 1) < m.size)
    (hmask : ∀ j < 64, (r.wrMask src).getMsbD j = decide (m.upTo (q + 1) + j < m.size))
    (hdata : ∀ i < 128, 64 * q + i < m.size →
      byte (join r.save1 d) i = streamByte m.payload (64 * q + i)) :
    writeLine (stored P m mem (m.upTo (q + 1))) (r.memAddr P) (r.shiftedWrData src d)
        (r.shiftedWrMask src) = stored P m mem (min (m.upTo (q + 2)) m.size) := by
  have hu : m.unaligned < 64 := Nat.mod_lt _ (by decide)
  have hnext : min (m.upTo (q + 2)) m.size =
      m.upTo (q + 1) + min 64 (m.size - m.upTo (q + 1)) := by
    unfold DramMsg.upTo at hmore ⊢
    omega
  have hblock : (m.addr + m.upTo (q + 1)) % 64 = 0 := by
    unfold DramMsg.upTo DramMsg.unaligned
    omega
  rw [hnext]
  refine write_stores src haddr (Nat.min_le_left _ _) (by omega) ?_ ?_
  · intro j hj
    rw [hmask j hj, decide_eq_decide]
    omega
  · intro k hk
    have hb : r.blockAddr = (m.addr + m.upTo (q + 1)) % 128 := by
      rw [blockAddr, haddr]
      omega
    have hpos : 64 * q + (64 - m.unaligned + k) = m.upTo (q + 1) + k := by
      unfold DramMsg.upTo
      omega
    rw [byte_shiftedWrData_body hsrc hh (by omega) (by omega), hdata _ (by omega) (by omega), hpos]

theorem write_copy (hh : r.hdrFlit = m.hdr) (hlen : m.hdr.msgLen.toNat = m.flits) {q : Nat}
    (hq : q + 1 < m.flits) (hcount : r.currFlitCount = q + 1)
    (haddr : r.currOpAddr = (m.addr + m.upTo (q + 1)) % 2 ^ 48)
    (hsave : r.save1 = m.payload.getD q 0) (hsmask : MaskOf m q r.save1Mask) :
    writeLine (stored P m mem (m.upTo (q + 1))) (r.memAddr P)
        (r.shiftedWrData .copy (m.payload.getD (q + 1) 0)) (r.shiftedWrMask .copy) =
      stored P m mem (min (m.upTo (q + 2)) m.size) := by
  have hmask := maskOf_noc0DataMask hh hlen (by omega)
  rw [hcount] at hmask
  have hflits : m.flits = (m.size + 63) / 64 := rfl
  refine write_body .copy (by decide) hh haddr ?_
    (fun j hj => wrMask_copy hh hsmask hmask hj) ?_
  · unfold DramMsg.upTo
    omega
  · intro i hi _
    rw [hsave]
    exact byte_join_stream m.payload hi

theorem write_drain (hh : r.hdrFlit = m.hdr) {q : Nat} (hq : q + 1 = m.flits)
    (hmore : m.upTo (q + 1) < m.size)
    (haddr : r.currOpAddr = (m.addr + m.upTo (q + 1)) % 2 ^ 48)
    (hsave : r.save1 = m.payload.getD q 0) (hsmask : MaskOf m q r.save1Mask) :
    writeLine (stored P m mem (m.upTo (q + 1))) (r.memAddr P) (r.shiftedWrData .drain d)
        (r.shiftedWrMask .drain) = stored P m mem m.size := by
  have hflits : m.flits = (m.size + 63) / 64 := rfl
  have hend : min (m.upTo (q + 2)) m.size = m.size := by
    have hu : m.unaligned < 64 := Nat.mod_lt _ (by decide)
    unfold DramMsg.upTo
    omega
  rw [← hend]
  refine write_body .drain (by decide) hh haddr hmore
    (fun j _ => wrMask_drain hh hsmask (by omega) j) ?_
  intro i hi hin
  have hlt : i < 64 := by omega
  have hjoin : byte (join r.save1 d) i = byte r.save1 i :=
    (byte_join r.save1 d hi).trans (if_pos hlt)
  rw [hjoin, hsave]
  unfold streamByte
  rw [Nat.mul_add_div (by decide), Nat.mul_add_mod, Nat.div_eq_of_lt hlt, Nat.mod_eq_of_lt hlt,
    Nat.add_zero]

/-! ### Reads -/

/-- A flit of a load holds the bytes of the memory at the current address. -/
theorem byte_readFlit {x j : Nat} (haddr : r.currOpAddr = x % 2 ^ 48) (hx : x % 64 = 0)
    (hline : r.memReadData = readLine 128 mem (r.memAddr P)) (hj : j < 64) :
    byte r.readFlit j = mem (byteAddr P (x + j)) := by
  have hblock : r.blockAddr = x % 128 := by
    rw [blockAddr, haddr]
    omega
  have hupper : byte r.readFlit j = byte (r.memReadData <<< (8 * r.blockAddr)) j :=
    byte_extract (n := 128) (m := 64) _ (by decide) hj
  rw [hupper, byte_shiftLeft (n := 128) _ (by omega), hline, byte_readLine (by omega),
    byteAddr_line (by omega), hblock, memAddr, lineAddr, haddr, Nat.add_assoc]

end DramController

end TcpHw
