import Vscsi.Kernel.Evolve
import Vscsi.Kernel.ScatterGather

open lib

namespace vscsi

open hba device

namespace RequestBuffer

/-- The addresses of the bytes of a buffer. -/
def Covers (bufflen a : Nat) : RequestBuffer → Prop
  | .flat address => address ≤ a ∧ a < address + bufflen
  | .sg table => ∃ sg ∈ table, sg.Covers a

variable {buffer : RequestBuffer} {bufflen : Nat} {mem mem' : Mem}

/-- What a buffer holds is decided by the memory at its addresses. -/
theorem contents_covered (h : ∀ a, buffer.Covers bufflen a → mem' a = mem a) :
    buffer.contents mem' bufflen = buffer.contents mem bufflen := by
  cases buffer with
  | flat address =>
    apply slice_congr
    intro a hlo hhi
    exact h a ⟨hlo, hhi⟩
  | sg table => exact gather_congr h

/-- Filling a buffer changes the memory nowhere else. -/
theorem fill_uncovered {a : Nat} (h : ¬ buffer.Covers bufflen a) (user : Mem) (start : Nat) :
    buffer.fill mem bufflen user start a = mem a := by
  cases buffer with
  | flat address =>
    apply blit_outside
    rw [slice_length]
    exact (Nat.lt_or_ge a address).imp_right fun hle => Nat.le_of_not_lt fun hlt => h ⟨hle, hlt⟩
  | sg table => exact scatter_outside (fun sg hsg hcovers => h ⟨sg, hsg, hcovers⟩) _ _

end RequestBuffer

/-- The addresses of the bytes that a request is for. -/
def Request.Covers (r : Request) (a : Nat) : Prop := r.request_buffer.Covers r.request_bufflen.toNat a

namespace Hba

variable {k k' : Hba}

/-- The request that a task is for. -/
abbrev request (k : Hba) (task : Addr) : Request := (k.cmnds (k.tasks task).sc).request

/-- No two requests in the queue share memory. -/
def Apart (k : Hba) : Prop :=
  ∀ t ∈ k.queue, ∀ u ∈ k.queue, t ≠ u → ∀ a, (k.request t).Covers a → ¬ (k.request u).Covers a

end Hba

end vscsi
