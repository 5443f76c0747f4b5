import Vscsi.Kernel.Evolve

open lib

namespace vscsi

open hba device

namespace Hba

/-- A session that answers its targets. -/
structure Serving (k : Hba) : Prop where
  listed : k.session.listed = true
  unlocked : k.session.scsitap_queue_lock = false
  ready : k.session.flags = .ready

/-- The session's own state may differ in its queue and counters only. -/
structure SameService (k k' : Hba) : Prop where
  listed : k'.session.listed = k.session.listed
  lock : k'.session.scsitap_queue_lock = k.session.scsitap_queue_lock
  flags : k'.session.flags = k.session.flags

theorem SameService.of_session {k k' : Hba} (h : k'.session = k.session) : SameService k k' :=
  ⟨by rw [h], by rw [h], by rw [h]⟩

theorem SameService.trans {k k' k'' : Hba} (h : SameService k k') (h' : SameService k' k'') :
    SameService k k'' :=
  ⟨h'.listed.trans h.listed, h'.lock.trans h.lock, h'.flags.trans h.flags⟩

theorem Serving.same {k k' : Hba} (h : k.Serving) (hs : SameService k k') : k'.Serving :=
  ⟨hs.listed.trans h.listed, hs.lock.trans h.unlocked, hs.flags.trans h.ready⟩

end Hba

/-- Calls other than registering, unregistering and closing. -/
def Op.Quiet : Op → Prop
  | .register_client _ => False
  | .unregister_client => False
  | .release => False
  | _ => True

namespace hba

theorem scsitap_complete_task_sameService (k : Hba) (task : Addr) :
    Hba.SameService k (scsitap_complete_task k task) := by
  constructor <;> simp

theorem abortTask_sameService (k : Hba) (task : Addr) : Hba.SameService k (abortTask k task) := by
  constructor <;> simp [abortTask]

theorem scsitap_eh_host_reset_sameService (k : Hba) : Hba.SameService k (scsitap_eh_host_reset k).2 := by
  unfold scsitap_eh_host_reset
  generalize k.session.scsitap_queue = tasks
  induction tasks generalizing k with
  | nil => exact .of_session rfl
  | cons task tasks ih => exact (abortTask_sameService k task).trans (ih _)

theorem scsitap_eh_abort_sameService (k : Hba) (sc : Addr) : Hba.SameService k (scsitap_eh_abort k sc).2 := by
  unfold scsitap_eh_abort
  cases (k.cmnds sc).SCp_ptr with
  | none => exact .of_session rfl
  | some task => exact abortTask_sameService k task

theorem scsitap_queuecommand_sameService (k : Hba) (sc : Addr) (slot : Option Addr) :
    Hba.SameService k (scsitap_queuecommand k sc slot).2 := by
  unfold scsitap_queuecommand
  split
  · exact .of_session rfl
  · cases slot with
    | none => exact .of_session rfl
    | some task => exact ⟨rfl, rfl, rfl⟩

end hba

namespace device

theorem scsitap_ctl_write_sameService (k : Hba) (user : UserMem) (count : Nat) :
    Hba.SameService k (scsitap_ctl_write k user count).2 := by
  rcases scsitap_ctl_write_cases k user count with hsame | ⟨task, k₁, _, hsame, heq⟩
  · exact .of_session hsame.session
  · rw [heq]
    exact (Hba.SameService.of_session hsame.session).trans (scsitap_complete_task_sameService k₁ task)

theorem scsitap_ioctl_receive_task_session {k : Hba} (hready : k.session.flags = .ready) (arg : Nat) :
    (scsitap_ioctl_receive_task k arg).2.session = k.session := by
  rw [scsitap_ioctl_receive_task, if_neg (not_not.mpr hready)]
  split <;> rfl

end device

/-- A session goes on answering through any sequence of quiet calls. -/
theorem Hba.Serving.apply {k : Hba} (h : k.Serving) {op : Op} (hquiet : op.Quiet) : (k.apply op).Serving := by
  cases op with
  | prepare sc cmnd mem => exact h.same (.of_session rfl)
  | queuecommand sc slot => exact h.same (scsitap_queuecommand_sameService k sc slot)
  | eh_abort sc => exact h.same (scsitap_eh_abort_sameService k sc)
  | eh_host_reset => exact h.same (scsitap_eh_host_reset_sameService k)
  | read f_pos user count => exact h
  | write user count => exact h.same (scsitap_ctl_write_sameService k user count)
  | receive_task arg => exact h.same (.of_session (scsitap_ioctl_receive_task_session h.ready arg))
  | register_client pid => exact hquiet.elim
  | unregister_client => exact hquiet.elim
  | release => exact hquiet.elim

end vscsi
