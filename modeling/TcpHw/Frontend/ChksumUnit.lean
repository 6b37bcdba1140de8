import TcpHw.Frontend.IpPacket

/-!
# `chksum_calc` on the transmit and receive paths

The unit takes a command and then the lines of one frame. They come out as they went in, except
that the one's-complement checksum of the kept bytes stands at the commanded place, counted in
bytes from the end of the first line. The controllers tie `csum_start` and `csum_init` to zero.
When the unit takes a line and when it presents one is left to the surroundings, but a line that
is presented stays until it is taken.
-/
namespace TcpHw

open Bytes Framing

set_option autoImplicit false

/-! ### One's-complement sums -/

/-- The plain sum of the 16-bit words. -/
def wordSum : List (BitVec 8) → Nat
  | hi :: lo :: t => hi.toNat * 256 + lo.toNat + wordSum t
  | [hi] => hi.toNat * 256
  | [] => 0

/-- The representative of a sum with the carries added back; only an empty sum is zero. -/
def foldCarry (t : Nat) : Nat := if t = 0 then 0 else (t - 1) % 65535 + 1

theorem onesAdd_eq {a b : Nat} (ha : a ≤ 65535) (hb : b ≤ 65535) :
    onesAdd a b = foldCarry (a + b) := by
  unfold onesAdd foldCarry
  split_ifs <;> omega

theorem foldCarry_le (t : Nat) : foldCarry t ≤ 65535 := by
  unfold foldCarry
  split_ifs <;> omega

theorem foldCarry_add (t b : Nat) : foldCarry (foldCarry t + b) = foldCarry (t + b) := by
  unfold foldCarry
  split_ifs <;> omega

theorem onesSum_eq (acc : Nat) (bs : List (BitVec 8)) (ha : acc ≤ 65535) :
    onesSum acc bs = foldCarry (acc + wordSum bs) ∨ bs = [] := by
  induction acc, bs using onesSum.induct with
  | case1 acc hi lo t ih =>
    left
    have hhi := hi.isLt
    have hlo := lo.isLt
    have hw : hi.toNat * 256 + lo.toNat ≤ 65535 := by omega
    have hadd := onesAdd_eq ha hw
    have hle : onesAdd acc (hi.toNat * 256 + lo.toNat) ≤ 65535 := by
      rw [hadd]
      exact foldCarry_le _
    rcases ih hle with h | rfl
    · rw [onesSum, h, hadd, foldCarry_add, wordSum, Nat.add_assoc]
    · rw [onesSum, onesSum, hadd, wordSum, wordSum, Nat.add_zero]
  | case2 acc hi =>
    have hhi := hi.isLt
    exact .inl (onesAdd_eq ha (by omega))
  | case3 acc => exact .inr rfl

theorem onesSum_zero (bs : List (BitVec 8)) : onesSum 0 bs = foldCarry (wordSum bs) := by
  rcases onesSum_eq 0 bs (by decide) with h | rfl
  · rw [h, Nat.zero_add]
  · rfl

/-- A checksum written over a field of zeros adds its own value. -/
theorem wordSum_setPair (bs : List (BitVec 8)) (k : Nat) (c : BitVec 16)
    (h0 : bs[2 * k]? = some 0#8) (h1 : bs[2 * k + 1]? = some 0#8) :
    wordSum (setPair bs (2 * k) c) = wordSum bs + c.toNat := by
  induction k generalizing bs with
  | zero =>
    rcases bs with _ | ⟨a, _ | ⟨b, t⟩⟩
    · simp at h0
    · simp at h1
    · have ha : a = 0#8 := by simpa using h0
      have hb : b = 0#8 := by simpa using h1
      have hc := c.isLt
      subst ha hb
      simp only [setPair, Nat.mul_zero, List.set_cons_zero, List.set_cons_succ, wordSum,
        BitVec.extractLsb'_toNat, BitVec.toNat_ofNat, Nat.shiftRight_zero]
      rw [Nat.shiftRight_eq_div_pow]
      omega
  | succ k ih =>
    rcases bs with _ | ⟨a, _ | ⟨b, t⟩⟩
    · simp at h0
    · simp at h1
    · have hi0 : 2 * (k + 1) = 2 * k + 1 + 1 := by omega
      rw [hi0] at h0 h1 ⊢
      simp only [List.getElem?_cons_succ] at h0 h1
      have hset : setPair (a :: b :: t) (2 * k + 1 + 1) c = a :: b :: setPair t (2 * k) c := rfl
      rw [hset, wordSum, wordSum, ih t h0 h1]
      omega

/-- The checksum of a packet that carries its own checksum is zero. -/
theorem onesChksum_setPair (bs : List (BitVec 8)) (k : Nat)
    (h0 : bs[2 * k]? = some 0#8) (h1 : bs[2 * k + 1]? = some 0#8) :
    onesChksum (setPair bs (2 * k) (onesChksum bs)) = 0#16 := by
  have hle := foldCarry_le (wordSum bs)
  have hc : (onesChksum bs).toNat = 65535 - foldCarry (wordSum bs) := by
    rw [onesChksum, onesSum_zero, BitVec.toNat_not, BitVec.toNat_ofNat]
    omega
  have hsum : onesSum 0 (setPair bs (2 * k) (onesChksum bs)) = 65535 := by
    rw [onesSum_zero, wordSum_setPair bs k _ h0 h1, hc, ← foldCarry_add, Nat.add_sub_cancel' hle]
    rfl
  rw [onesChksum, hsum]
  rfl

/-! ### The unit -/

/-- One line of an AXI stream. -/
structure AxisLine where
  data : Line
  keep : BitVec 64
  last : Bool
  user : Timestamp
  deriving DecidableEq, Inhabited

/-- `s_axis_cmd_csum_enable` and `s_axis_cmd_csum_offset` -/
structure ChksumCmd where
  enable : Bool
  offset : BitVec 8
  deriving DecidableEq, Inhabited

/-- `transfer_in_reg`, the last command, the lines of the open frame, the lines to come out and
whether the first of them is presented. -/
structure ChksumUnit where
  transferIn : Bool
  cmd : ChksumCmd
  frame : List AxisLine
  out : List AxisLine
  valid : Bool

namespace ChksumUnit

/-- The bytes of a frame that are summed. -/
def kept (frame : List AxisLine) : List (BitVec 8) := frame.flatMap fun l => keptBytes l.data l.keep

/-- The lines of a frame with the checksum in the first one. -/
def responses (cmd : ChksumCmd) (frame : List AxisLine) : List AxisLine :=
  match frame with
  | [] => []
  | l :: t =>
    if cmd.enable then
      { l with data := setField l.data cmd.offset.toNat (onesChksum (kept frame)) } :: t
    else frame

variable (c : ChksumUnit)

/-- `s_axis_cmd_ready` -/
def cmdRdy : Bool := !c.transferIn

/-- `m_axis` while `m_axis_tvalid` is high. -/
def resp : Option AxisLine := if c.valid then c.out.head? else none

/-- The lines that are ready after a clock edge. -/
def outNext (req : Option AxisLine) (take : Bool) : List AxisLine :=
  (if take then c.out.tail else c.out) ++
    match req with
    | some l => if l.last then responses c.cmd (c.frame ++ [l]) else []
    | none => []

/-- One clock edge, with the command and the line that are taken in it, whether the line that is
presented is taken, and whether the next one may be presented. -/
def step (cmd : Option ChksumCmd) (req : Option AxisLine) (take respond : Bool) : ChksumUnit where
  transferIn := cmd.isSome || (c.transferIn && !req.any AxisLine.last)
  cmd := cmd.getD c.cmd
  frame :=
    match req with
    | some l => if l.last then [] else c.frame ++ [l]
    | none => c.frame
  out := c.outNext req take
  valid := (c.valid && !take) || (respond && !(c.outNext req take).isEmpty)

/-- `rst`; the command register holds anything. -/
def Reset : Prop := c.transferIn = false ∧ c.frame = [] ∧ c.out = [] ∧ c.valid = false

end ChksumUnit

/-! ### What the lines mean -/

/-- A line of a frame: its bytes with the marks, and `tuser`. -/
abbrev ChkTok := Beat (BitVec 8) × Timestamp

/-- All lines of a frame. -/
def frameToks (user : Timestamp) (bs : List (BitVec 8)) : List ChkTok :=
  (beats 64 bs).map fun b => (b, user)

namespace AxisLine

/-- The line carries the bytes, and `tkeep` marks just these. -/
structure Shows (l : AxisLine) (t : ChkTok) : Prop where
  pad : t.1.padbytes < 64
  keep : l.keep = BitVec.allOnes 64 <<< t.1.padbytes
  last : l.last = t.1.last
  bytes : (lineBytes l.data).take (64 - t.1.padbytes) = t.1.bytes
  user : l.user = t.2

theorem Shows.kept {l : AxisLine} {t : ChkTok} (h : l.Shows t) :
    keptBytes l.data l.keep = t.1.bytes := by
  have hpad := h.pad
  have hk : t.1.padbytes = 64 - (64 - t.1.padbytes) := by omega
  rw [h.keep, hk, keptBytes_allOnes _ (by omega), h.bytes]

/-- The last line of a frame has the bytes of the frame at its top. -/
theorem Shows.last_bytes {l : AxisLine} {bs : List (BitVec 8)} {last : Bool} {user : Timestamp}
    (h : l.Shows (⟨bs, last, 64 - bs.length⟩, user)) (hle : bs.length ≤ 64) :
    (lineBytes l.data).take bs.length = bs := by
  have hk : 64 - (64 - bs.length) = bs.length := by omega
  have hbytes := h.bytes
  rw [hk] at hbytes
  exact hbytes

end AxisLine

/-- The bytes of some lines. -/
def tokBytes (ts : List ChkTok) : List (BitVec 8) := ts.flatMap fun t => t.1.bytes

/-- The checksum is put into the bytes `i` and `i + 1` of a frame. -/
def sealToks (i : Nat) (ts : List ChkTok) : List ChkTok :=
  match ts with
  | [] => []
  | t :: tl => ({ t.1 with bytes := setPair t.1.bytes i (onesChksum (tokBytes ts)) }, t.2) :: tl

/-- What the unit owes for the lines to come, with the lines `fr` of the open frame before them. -/
def sealAll (i : Nat) : List ChkTok → List ChkTok → List ChkTok
  | _, [] => []
  | fr, t :: ts =>
    if t.1.last then sealToks i (fr ++ [t]) ++ sealAll i [] ts else sealAll i (fr ++ [t]) ts

theorem tokBytes_frameToks (user : Timestamp) (bs : List (BitVec 8)) :
    tokBytes (frameToks user bs) = bs := by
  rw [tokBytes, frameToks, List.flatMap_map]
  exact flatMap_bytes_beats (by decide)

theorem frameToks_full {bs : List (BitVec 8)} (user : Timestamp) (h : 64 < bs.length) :
    frameToks user bs = (⟨bs.take 64, false, 0⟩, user) :: frameToks user (bs.drop 64) := by
  rw [frameToks, beats_full (by decide) h]
  rfl

theorem frameToks_last {bs : List (BitVec 8)} (user : Timestamp) (h0 : 0 < bs.length)
    (h : bs.length ≤ 64) : frameToks user bs = [(⟨bs, true, 64 - bs.length⟩, user)] := by
  rw [frameToks, beats_last h0 h]
  rfl

/-- The lines of a frame are sealed together. -/
theorem sealAll_frame (i : Nat) (user : Timestamp) {bs : List (BitVec 8)} (fr ts : List ChkTok)
    (hb : 0 < bs.length) : sealAll i fr (frameToks user bs ++ ts) =
      sealToks i (fr ++ frameToks user bs) ++ sealAll i [] ts := by
  generalize hl : bs.length = m
  induction m using Nat.strongRecOn generalizing bs fr with
  | _ m ih =>
    by_cases hn : 64 < bs.length
    · rw [frameToks_full user hn, List.cons_append, sealAll, if_neg (by simp),
        ih (bs.drop 64).length (by rw [List.length_drop]; omega) (fr ++ [_])
          (by rw [List.length_drop]; omega) rfl, List.append_assoc]
      rfl
    · rw [frameToks_last user hb (Nat.le_of_not_lt hn), List.cons_append, sealAll, if_pos rfl]
      rfl

theorem length_setPair (bs : List (BitVec 8)) (i : Nat) (c : BitVec 16) :
    (setPair bs i c).length = bs.length := by simp [setPair]

theorem take_setPair (bs : List (BitVec 8)) (i n : Nat) (c : BitVec 16) :
    (setPair bs i c).take n = setPair (bs.take n) i c := by
  rw [setPair, List.take_set, List.take_set]
  rfl

theorem drop_setPair (bs : List (BitVec 8)) {i n : Nat} (c : BitVec 16) (h : i + 1 < n) :
    (setPair bs i c).drop n = bs.drop n := by
  rw [setPair, List.drop_set_of_lt h, List.drop_set_of_lt (by omega)]

/-- A frame with its checksum in place. -/
def sealed (i : Nat) (bs : List (BitVec 8)) : List (BitVec 8) := setPair bs i (onesChksum bs)

theorem length_sealed (i : Nat) (bs : List (BitVec 8)) : (sealed i bs).length = bs.length :=
  length_setPair bs i _

/-- The checksum goes into the first line. -/
theorem sealToks_frame {i : Nat} (user : Timestamp) {bs : List (BitVec 8)} (hi : i + 1 < 64)
    (hb : 0 < bs.length) : sealToks i (frameToks user bs) = frameToks user (sealed i bs) := by
  have hlen := length_sealed i bs
  by_cases hn : 64 < bs.length
  · have hbytes := tokBytes_frameToks user bs
    have hn' : 64 < (sealed i bs).length := by rw [hlen]; exact hn
    rw [frameToks_full user hn] at hbytes
    rw [frameToks_full user hn', frameToks_full user hn, sealToks, hbytes, sealed, take_setPair,
      drop_setPair bs _ hi]
  · have hle := Nat.le_of_not_lt hn
    have hbytes := tokBytes_frameToks user bs
    rw [frameToks_last user hb hle] at hbytes
    rw [frameToks_last user hb hle, frameToks_last user (by rw [hlen]; exact hb)
      (by rw [hlen]; exact hle), sealToks, hbytes, hlen]
    rfl

/-! ### What the unit owes -/

namespace ChksumUnit

/-- The lines `ins` are still to come and the lines `outs` are owed, all with the command `k`. -/
structure Holds (i : Nat) (k : ChksumCmd) (c : ChksumUnit) (ins outs : List ChkTok) : Prop where
  lines : ∃ fr os, List.Forall₂ AxisLine.Shows c.frame fr ∧ List.Forall₂ AxisLine.Shows c.out os ∧
    outs = os ++ sealAll i fr ins
  valid : c.valid = true → c.out ≠ []
  cmd : c.transferIn = true → c.cmd = k
  idle : c.transferIn = false → c.frame = []

variable {i : Nat} {k : ChksumCmd} {c : ChksumUnit} {ins outs : List ChkTok}

theorem kept_eq {frame : List AxisLine} {fr : List ChkTok}
    (h : List.Forall₂ AxisLine.Shows frame fr) : kept frame = tokBytes fr := by
  induction h with
  | nil => rfl
  | cons hl _ ih =>
    rw [kept, List.flatMap_cons, hl.kept, tokBytes, List.flatMap_cons]
    exact congrArg _ ih

theorem responses_shows {frame : List AxisLine} {fr : List ChkTok} (hk : k.enable = true)
    (hoff : k.offset.toNat + 2 ≤ 64) (hi : i = 62 - k.offset.toNat)
    (h : List.Forall₂ AxisLine.Shows frame fr) :
    List.Forall₂ AxisLine.Shows (responses k frame) (sealToks i fr) := by
  have hkept := kept_eq h
  cases h with
  | nil => exact .nil
  | @cons l t ls ts hl hs =>
    rw [responses, if_pos hk, hkept]
    refine .cons ⟨hl.pad, hl.keep, hl.last, ?_, hl.user⟩ hs
    have hset := lineBytes_setField l.data (onesChksum (tokBytes (t :: ts))) hoff
    have hidx : 64 - 2 - k.offset.toNat = i := by omega
    rw [hidx] at hset
    rw [hset, take_setPair, hl.bytes]

theorem holds_reset (h : c.Reset) : Holds i k c ins (sealAll i [] ins) := by
  obtain ⟨ht, hf, ho, hv⟩ := h
  exact ⟨⟨[], [], by rw [hf]; exact .nil, by rw [ho]; exact .nil, rfl⟩, by simp [hv], by simp [ht],
    fun _ => hf⟩

/-- The line that is presented is the first one owed. -/
theorem Holds.resp (h : Holds i k c ins outs) {l : AxisLine} (hr : c.resp = some l) :
    c.valid = true ∧ ∃ t outs', outs = t :: outs' ∧ l.Shows t := by
  obtain ⟨fr, os, -, hos, rfl⟩ := h.lines
  cases hv : c.valid with
  | false => simp [ChksumUnit.resp, hv] at hr
  | true =>
    have hhead : c.out.head? = some l := by simpa [ChksumUnit.resp, hv] using hr
    obtain ⟨t', ht'⟩ := List.head?_eq_some_iff.mp hhead
    rw [ht'] at hos
    obtain ⟨t, ts, hl, -, rfl⟩ := List.forall₂_cons_left_iff.mp hos
    exact ⟨rfl, t, _, rfl, hl⟩

/-- One cycle of the unit. -/
theorem Holds.step (h : Holds i k c ins outs) (hk : k.enable = true)
    (hoff : k.offset.toNat + 2 ≤ 64) (hi : i = 62 - k.offset.toNat) {cmd : Option ChksumCmd}
    {req : Option AxisLine} {take : Bool} (respond : Bool)
    (hcmd : ∀ x ∈ cmd, x = k ∧ c.transferIn = false)
    (hreq : ∀ l ∈ req, c.transferIn = true ∧ ∃ t ins', ins = t :: ins' ∧ l.Shows t)
    (htake : take = true → c.valid = true) :
    Holds i k (c.step cmd req take respond) (if req.isSome then ins.tail else ins)
      (if take then outs.tail else outs) := by
  obtain ⟨fr, os, hfr, hos, rfl⟩ := h.lines
  -- first the line that goes out, then the one that comes in
  obtain ⟨os', hos', hout'⟩ : ∃ os', List.Forall₂ AxisLine.Shows
      (if take then c.out.tail else c.out) os' ∧
      (if take then (os ++ sealAll i fr ins).tail else os ++ sealAll i fr ins) =
        os' ++ sealAll i fr ins := by
    cases ht : take with
    | false => exact ⟨os, hos, rfl⟩
    | true =>
      obtain ⟨l, t', hl⟩ := List.exists_cons_of_ne_nil (h.valid (htake ht))
      rw [hl] at hos
      obtain ⟨t, ts, -, hts, rfl⟩ := List.forall₂_cons_left_iff.mp hos
      exact ⟨ts, by rw [hl]; exact hts, rfl⟩
  rw [hout']
  have hvalid : (c.step cmd req take respond).valid = true →
      (c.step cmd req take respond).out ≠ [] := by
    intro hv
    simp only [ChksumUnit.step, Bool.or_eq_true, Bool.and_eq_true, Bool.not_eq_true'] at hv
    rcases hv with ⟨hv, ht⟩ | ⟨-, hne⟩
    · have hne := h.valid hv
      simp [ChksumUnit.step, outNext, ht, hne]
    · exact List.isEmpty_eq_false_iff.mp hne
  have hcmd' : (c.step cmd req take respond).transferIn = true →
      (c.step cmd req take respond).cmd = k := by
    intro ht
    cases hc : cmd with
    | some x => simp [ChksumUnit.step, (hcmd x hc).1]
    | none =>
      simp only [ChksumUnit.step, hc, Option.isSome_none, Bool.false_or, Bool.and_eq_true] at ht
      exact h.cmd ht.1
  cases hr : req with
  | none =>
    refine ⟨⟨fr, os', hfr, ?_, rfl⟩, hr ▸ hvalid, hr ▸ hcmd', ?_⟩
    · simpa [ChksumUnit.step, outNext] using hos'
    · intro ht
      simp only [ChksumUnit.step, Option.any_none, Bool.not_false, Bool.and_true,
        Bool.or_eq_false_iff] at ht
      exact h.idle ht.2
  | some l =>
    obtain ⟨hin, t, ins', rfl, hl⟩ := hreq l hr
    have hcnone : cmd = none := by
      cases hc : cmd with
      | none => rfl
      | some x => simp [(hcmd x hc).2] at hin
    have hfr' : List.Forall₂ AxisLine.Shows (c.frame ++ [l]) (fr ++ [t]) :=
      List.rel_append hfr (.cons hl .nil)
    cases hlast : l.last with
    | true =>
      have hlast' : t.1.last = true := by rw [← hl.last, hlast]
      have hresp := responses_shows hk hoff hi hfr'
      rw [← h.cmd hin] at hresp
      refine ⟨⟨[], os' ++ sealToks i (fr ++ [t]), ?_, ?_, ?_⟩, hr ▸ hvalid, hr ▸ hcmd', ?_⟩
      · simp [ChksumUnit.step, hlast]
      · simpa [ChksumUnit.step, outNext, hlast] using List.rel_append hos' hresp
      · simp [sealAll, hlast']
      · simp [ChksumUnit.step, hlast]
    | false =>
      have hlast' : t.1.last = false := by rw [← hl.last, hlast]
      refine ⟨⟨fr ++ [t], os', ?_, ?_, ?_⟩, hr ▸ hvalid, hr ▸ hcmd', ?_⟩
      · simpa [ChksumUnit.step, hlast] using hfr'
      · simpa [ChksumUnit.step, outNext, hlast] using hos'
      · simp [sealAll, hlast']
      · simp [ChksumUnit.step, hlast, hin]

/-- The unit presents a line, or the line it presents is taken. -/
theorem valid_step (cmd : Option ChksumCmd) (req : Option AxisLine)
    {take : Bool} (respond : Bool) (ht : take = true → c.valid = true) :
    (!(c.step cmd req take respond).valid).toNat +
      (!c.valid && (respond && !c.out.isEmpty)).toNat ≤ (!c.valid).toNat + take.toNat := by
  have hmono : c.out.isEmpty = false → (c.outNext req false).isEmpty = false := by
    intro hne
    rw [List.isEmpty_eq_false_iff] at hne ⊢
    simp [outNext, hne]
  cases take with
  | true =>
    simp only [ht rfl, Bool.not_true, Bool.false_and, Bool.toNat_false, Bool.toNat_true]
    have hle := Bool.toNat_le (!(c.step cmd req true respond).valid)
    omega
  | false =>
    cases hv : c.valid with
    | true => simp [ChksumUnit.step, hv]
    | false =>
      cases hr : respond with
      | false => simp [ChksumUnit.step, hv]
      | true =>
        cases hne : c.out.isEmpty with
        | true =>
          have hle := Bool.toNat_le (!(c.step cmd req false true).valid)
          simpa using hle
        | false => simp [ChksumUnit.step, hv, hmono hne]

/-- Where no line moves, the unit goes on to present or not to present the same. -/
theorem still (cmd : Option ChksumCmd) {respond : Bool}
    (hrise : (!c.valid && (respond && !c.out.isEmpty)) = false) :
    (c.step cmd none false respond).out = c.out ∧
      (c.step cmd none false respond).valid = c.valid := by
  refine ⟨by simp [ChksumUnit.step, outNext], ?_⟩
  cases hv : c.valid with
  | true => simp [ChksumUnit.step, hv]
  | false =>
    rw [hv, Bool.not_false, Bool.true_and] at hrise
    simpa [ChksumUnit.step, outNext, hv] using hrise

end ChksumUnit

end TcpHw
