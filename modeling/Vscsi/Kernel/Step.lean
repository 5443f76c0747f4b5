import Vscsi.Kernel.Device
import Vscsi.Lib.Run

open lib

namespace vscsi

open hba device

/-- A call into one session, by the mid layer or by a user process, or a command
that the mid layer gets ready for submission. -/
inductive Op where
  | prepare (sc : Addr) (cmnd : ScsiCmnd) (mem : Mem)
  | queuecommand (sc : Addr) (slot : Option Addr)
  | eh_abort (sc : Addr)
  | eh_host_reset
  | read (f_pos : Nat) (user : UserMem) (count : Nat)
  | write (user : UserMem) (count : Nat)
  | receive_task (arg : Nat)
  | register_client (pid : UInt32)
  | unregister_client
  | release

/-- What the mid layer does to a host. -/
def Op.MidLayer : Op → Prop
  | .prepare _ _ _ => True
  | .queuecommand _ _ => True
  | .eh_abort _ => True
  | .eh_host_reset => True
  | _ => False

namespace Hba

/-- The command has no task in the queue. -/
def Idle (k : Hba) (sc : Addr) : Prop :=
  ∀ task ∈ k.session.scsitap_queue, (k.tasks task).sc ≠ sc

def apply (k : Hba) : Op → Hba
  | .prepare sc cmnd mem => { k with cmnds := Function.update k.cmnds sc cmnd, mem }
  | .queuecommand sc slot => (scsitap_queuecommand k sc slot).2
  | .eh_abort sc => (scsitap_eh_abort k sc).2
  | .eh_host_reset => (scsitap_eh_host_reset k).2
  | .read _ _ _ => k
  | .write user count => (scsitap_ctl_write k user count).2
  | .receive_task arg => (scsitap_ioctl_receive_task k arg).2
  | .register_client pid => (scsitap_ioctl_register_client k pid).2
  | .unregister_client => (scsitap_ioctl_unregister_client k).2
  | .release => (scsitap_ctl_release k).2

/-- What the callers promise. The mid layer leaves the commands it has queued
alone and hands over fresh ones with a null `SCp.ptr`; the slab allocator does
not return a slot that is in use. -/
def Allowed (k : Hba) : Op → Prop
  | .prepare sc cmnd _ => k.Idle sc ∧ cmnd.SCp_ptr = none
  | .queuecommand sc slot => k.Idle sc ∧ ∀ task, slot = some task → task ∉ k.session.scsitap_queue
  | _ => True

/-- The calls that have to take the queue lock, and so cannot go on while an
earlier call keeps it. -/
def Locks (k : Hba) : Op → Bool
  | .prepare _ _ _ => false
  | .register_client _ => false
  | .release => false
  | .unregister_client => k.session.Device_Open = 0
  | _ => true

/-- One call on a session that has not been destroyed. -/
def Step (k : Hba) (op : Op) (k' : Hba) : Prop :=
  k.session.listed = true ∧ (k.Locks op = true → k.session.scsitap_queue_lock = false) ∧
    k.Allowed op ∧ k' = k.apply op

/-- A session just created, with no command in flight anywhere. -/
def Initial (k : Hba) : Prop :=
  ∃ id tasks cmnds mem, (∀ sc, (cmnds sc).SCp_ptr = none) ∧
    k = scsitap_create_session id tasks cmnds mem

/-- A session created in cleared memory. -/
def fresh : Hba :=
  scsitap_create_session 0 (fun _ => .empty 0) (fun _ => .zero) (fun _ => 0)

theorem fresh_initial : Initial fresh := ⟨0, _, _, _, fun _ => rfl, rfl⟩

def Reachable (k : Hba) : Prop := ∃ start, Initial start ∧ lib.Reachable Step start k

/-- A session with two registered targets. -/
def twoTargets : Hba := (fresh.apply (.register_client 1)).apply (.register_client 2)

/-- Two registered targets and one command queued for them. -/
def oneCommand : Hba := twoTargets.apply (.queuecommand 0 (some 8))

/-- A second command, queued behind the first. -/
def twoCommands : Hba := oneCommand.apply (.queuecommand 1 (some 9))

theorem register_step : Step fresh (.register_client 1) (fresh.apply (.register_client 1)) :=
  ⟨rfl, by decide, trivial, rfl⟩

theorem register_step' : Step (fresh.apply (.register_client 1)) (.register_client 2) twoTargets :=
  ⟨rfl, by decide, trivial, rfl⟩

theorem oneCommand_step : Step twoTargets (.queuecommand 0 (some 8)) oneCommand := by
  have hempty : twoTargets.session.scsitap_queue = [] := rfl
  refine ⟨rfl, fun _ => rfl, ⟨?_, ?_⟩, rfl⟩
  · intro task ht
    rw [hempty] at ht
    cases ht
  · intro task _ ht
    rw [hempty] at ht
    cases ht

theorem twoCommands_step : Step oneCommand (.queuecommand 1 (some 9)) twoCommands := by
  have hqueue : ∀ task ∈ oneCommand.session.scsitap_queue, task = 8 := fun task ht => List.mem_singleton.mp ht
  refine ⟨rfl, fun _ => rfl, ⟨fun task ht => ?_, fun task heq ht => ?_⟩, rfl⟩
  · rw [hqueue task ht]
    decide
  · rw [hqueue task ht] at heq
    cases heq

theorem twoCommands_run : ∃ trace, Run Step fresh trace twoCommands :=
  ⟨_, (((Run.nil.snoc register_step).snoc register_step').snoc oneCommand_step).snoc twoCommands_step⟩

theorem oneCommand_reachable : lib.Reachable Step fresh oneCommand :=
  ((lib.Reachable.refl.tail register_step).tail register_step').tail oneCommand_step

/-- Invariants of a session: they hold when it is created and survive a call. -/
theorem Reachable.invariant {P : Hba → Prop} (hinit : ∀ k, Initial k → P k)
    (hstep : ∀ k op, P k → k.Allowed op → P (k.apply op)) {k : Hba} (h : Reachable k) : P k := by
  obtain ⟨start, hstart, hreach⟩ := h
  apply lib.Reachable.invariant (hinit start hstart) _ hreach
  rintro k op k' hk ⟨_, _, hallowed, rfl⟩
  exact hstep k op hk hallowed

end Hba

end vscsi
