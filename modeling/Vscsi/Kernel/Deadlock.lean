import Vscsi.Kernel.Threads

open lib lib.Thread

namespace vscsi

open hba device

/-- The order in which the driver takes its locks. -/
def Lock.rank : Lock → Nat
  | .session_lock => 0
  | .host_lock _ => 1
  | .scsitap_queue_lock _ => 2

/-- The locks held at the end are those held at the start. -/
def Kept {α : Type} (held : Lock → Prop) : α → (Lock → Prop) → Prop := fun _ held' => held' = held

/-- No lock is held. -/
def free : Lock → Prop := fun _ => False

/-- A single lock is held. -/
def only (l : Lock) : Lock → Prop := fun l' => l' = l ∨ free l'

section Orderly

variable {α : Type} {held : Lock → Prop} {session file : Nat}

end Orderly

namespace LockedCall

/-- What a call may hold when it has returned: nothing, unless it asked for a task
and failed. -/
def Leaves (c : LockedCall) (ret : Int) (held : Lock → Prop) : Prop :=
  held = free ∨ (∃ file host arg, c = .ctl_ioctl file host (.receive_task arg)) ∧ ret = -1 ∧
    ∃ session, held = only (.scsitap_queue_lock session)

end LockedCall

end vscsi
