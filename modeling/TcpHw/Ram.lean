import Mathlib.Algebra.Ring.Nat
import Mathlib.Logic.Function.Basic

/-!
# The backpressured state memories

`ram_1r1w_sync_backpressure` and `ram_2r1w_sync_backpressure` wrap a memory whose
read address is latched on the clock edge and becomes `'X` when no read is issued.
A read of the address being written is suppressed and answered from registers; a
response that is not taken is read again. The pipelines below see a port only as the
address it answers for, with the current contents of the memory as its data; the
results here justify that view.
-/
namespace TcpHw.Ram

set_option autoImplicit false

variable {A D : Type} [DecidableEq A]

/-! ### The view of a user -/

/-- `rd_req_rdy`, for a port that answers for `resp`. -/
def reqRdy (resp : Option A) (respRdy : Bool) : Bool := respRdy || resp.isNone

/-- The address the port answers for in the next cycle. -/
def next (resp req : Option A) (respRdy : Bool) : Option A :=
  if resp.isSome && !respRdy then resp else req

omit [DecidableEq A] in
/-- A user that takes every response is answered for what it asked. -/
theorem next_rdy (resp req : Option A) : next resp req true = req := by simp [next]

/-- The contents after a cycle with an optional write. -/
def store (mem : A → D) : Option (A × D) → A → D
  | some (a, d) => Function.update mem a d
  | none => mem

/-! ### The registers -/

/-- The array and the registers of the write bypass. -/
structure Core (A D : Type) where
  mem : A → D
  wrReg : Option (A × D)
  wr_eq : ∀ a d, wrReg = some (a, d) → mem a = d

/-- `mem_rd_req_*_reg` and the address latched inside the memory, `none` for `'X`. -/
structure Port (A : Type) where
  reg : Option A
  memAddr : Option A

/-- `mem_rd_req_val`, `mem_rd_req_addr`: a response that is not taken is issued again. -/
def Port.memReq (p : Port A) (req : Option A) (respRdy : Bool) : Option A :=
  if p.reg.isSome && !respRdy then p.reg else req

def Port.step (p : Port A) (wr : Option (A × D)) (req : Option A) (respRdy : Bool) : Port A where
  reg := if reqRdy p.reg respRdy then p.memReq req respRdy else p.reg
  memAddr := (p.memReq req respRdy).filter fun a => wr.map Prod.fst != some a

def Core.step (c : Core A D) (wr : Option (A × D)) : Core A D where
  mem := store c.mem wr
  wrReg := wr
  wr_eq := by
    rintro a d rfl
    simp [store]

/-- `rd_resp_data`: the write bypass, otherwise the cell at the latched address. -/
def Port.respData [Inhabited D] (p : Port A) (c : Core A D) : D :=
  match c.wrReg, p.reg with
  | some (a, d), some b => if a = b then d else (p.memAddr.map c.mem).getD default
  | _, _ => (p.memAddr.map c.mem).getD default

/-- A valid response has its address latched, or is covered by the bypass. -/
def Coherent (c : Core A D) (p : Port A) : Prop :=
  ∀ a, p.reg = some a → p.memAddr = some a ∨ ∃ d, c.wrReg = some (a, d)

/-- The registers follow the user's view. -/
theorem step_reg (p : Port A) (wr : Option (A × D)) (req : Option A) (respRdy : Bool) :
    (p.step wr req respRdy).reg = next p.reg req respRdy := by
  unfold Port.step Port.memReq next reqRdy
  cases p.reg <;> cases respRdy <;> rfl

theorem coherent_step (c : Core A D) (p : Port A) (wr : Option (A × D)) (req : Option A)
    (respRdy : Bool) : Coherent (c.step wr) (p.step wr req respRdy) := by
  intro a ha
  rw [step_reg] at ha
  have hreq : p.memReq req respRdy = some a := ha
  change (p.memReq req respRdy).filter _ = some a ∨ ∃ d, wr = some (a, d)
  rw [hreq]
  cases wr with
  | none => exact .inl rfl
  | some w =>
    obtain ⟨b, d⟩ := w
    by_cases hb : b = a
    · exact .inr ⟨d, by rw [hb]⟩
    · exact .inl (by simp [Option.filter, hb])

/-- A valid response carries the current contents of its address. -/
theorem respData_eq [Inhabited D] {c : Core A D} {p : Port A} (h : Coherent c p) {a : A}
    (ha : p.reg = some a) : p.respData c = c.mem a := by
  unfold Port.respData
  rcases h a ha with hm | ⟨d, hd⟩
  · rw [ha, hm]
    split
    · rename_i b e b' hw hb
      cases hb
      split
      · rename_i he
        exact he ▸ (c.wr_eq b e hw).symm
      · rfl
    · rfl
  · rw [ha, hd]
    simp only [if_true]
    exact (c.wr_eq a d hd).symm

end TcpHw.Ram
