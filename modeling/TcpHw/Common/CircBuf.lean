import TcpHw.Basic
import TcpHw.Lib.Bytes

/-!
# Rings of bytes in memory and the requests to the memory tile

A ring of `2 ^ W` bytes belongs to each flow and starts at the flow identifier shifted by `W`.
A request to the memory tile names an address and a size, and its data travels in lines of
`NOC_DATA_BYTES = 64` bytes.
-/
namespace TcpHw

open Bytes

set_option autoImplicit false

/-- `logic [NOC_DATA_WIDTH-1:0]` -/
abbrev Line := BitVec (8 * 64)

/-- A byte memory. -/
abbrev Memory := Nat → BitVec 8

/-- `mem_req_struct` -/
structure MemReq where
  memReqAddr : Nat
  memReqSize : Nat
  deriving DecidableEq, Inhabited

/-- The message types of the memory tile that the helpers compare with. -/
inductive MsgType where
  | storeMemAck | loadMemAck | other
  deriving DecidableEq, Inhabited

/-- Lines of a message of `size` bytes, as a field of `MSG_LENGTH_WIDTH` bits. -/
def msgFlits (size : Nat) : Nat :=
  (if size % 64 = 0 then size / 64 else size / 64 + 1) % 2 ^ 22

theorem msgFlits_eq {size : Nat} (h : size ≤ 2 ^ 27) : msgFlits size = (size + 63) / 64 := by
  unfold msgFlits
  split <;> omega

/-! ### Ring addresses -/

/-- The address of byte `k` of a transfer that starts at `ptr`. -/
def ringAddr (W : Nat) (flowid : FlowId) (ptr k : Nat) : Nat :=
  flowid.val * 2 ^ W + (ptr + k) % 2 ^ W

section ringAddr

variable {W ptr : Nat} {f : FlowId}

/-- The only wrap of a transfer of at most one ring. -/
theorem wrap_eq {N p k : Nat} (hp : p < N) (hk : k ≤ N) :
    (p + k) % N = if p + k < N then p + k else p + k - N := by
  split
  · rename_i hlt
    exact Nat.mod_eq_of_lt hlt
  · rename_i hge
    rw [Nat.mod_eq_sub_mod (by omega), Nat.mod_eq_of_lt (by omega)]

theorem ringAddr_inj (hp : ptr < 2 ^ W) {j k : Nat} (hj : j < 2 ^ W) (hk : k < 2 ^ W)
    (h : ringAddr W f ptr j = ringAddr W f ptr k) : j = k := by
  unfold ringAddr at h
  rw [wrap_eq hp hj.le, wrap_eq hp hk.le] at h
  split at h <;> split at h <;> omega

/-- Up to the end of the ring the addresses are consecutive. -/
theorem ringAddr_add {b i : Nat} (hi : (ptr + b) % 2 ^ W + i < 2 ^ W) :
    ringAddr W f ptr (b + i) = f.val * 2 ^ W + (ptr + b) % 2 ^ W + i := by
  unfold ringAddr
  rw [← Nat.add_assoc, Nat.add_mod, Nat.mod_eq_of_lt (a := i) (by omega), Nat.mod_eq_of_lt hi]
  omega

end ringAddr

end TcpHw
