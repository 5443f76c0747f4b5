import Vscsi.Kernel.Step

open lib

namespace vscsi.hba

/-- The effect of taking one task out of a session, seen from the queue, the
back pointers and the history; `f` is what happened to its submission. -/
structure Removed (k : Hba) (task : Addr) (f : Submission → Submission) (k' : Hba) : Prop where
  queue : k'.session.scsitap_queue = k.session.scsitap_queue.erase task
  count : k'.session.cmd_numbers = k.session.cmd_numbers - 1
  next : k'.session.next_cmdnumber = k.session.next_cmdnumber
  tasks : ∀ t ≠ task, k'.tasks t = k.tasks t
  ptr : ∀ sc, (k'.cmnds sc).SCp_ptr = if sc = (k.tasks task).sc then none else (k.cmnds sc).SCp_ptr
  accepted : k'.history.accepted = k.history.accepted.modify (k.tasks task).seq f
  refused : k'.history.refused = k.history.refused
  stray : k'.history.stray = k.history.stray
  origin : k'.history.origin = k.history.origin

@[simp] theorem scsitap_complete_task_session (k : Hba) (task : Addr) :
    (scsitap_complete_task k task).session = { k.session with
      cmd_numbers := k.session.cmd_numbers - 1
      scsitap_queue := k.session.scsitap_queue.erase task } := by
  unfold scsitap_complete_task
  dsimp only
  split <;> rfl

@[simp] theorem scsitap_complete_task_tasks (k : Hba) (task : Addr) :
    (scsitap_complete_task k task).tasks = k.tasks := by
  unfold scsitap_complete_task
  dsimp only
  split <;> rfl

@[simp] theorem scsitap_complete_task_mem (k : Hba) (task : Addr) :
    (scsitap_complete_task k task).mem = k.mem := by
  unfold scsitap_complete_task
  dsimp only
  split <;> rfl

@[simp] theorem scsitap_complete_task_cmnds (k : Hba) (task : Addr) :
    (scsitap_complete_task k task).cmnds = Function.update k.cmnds (k.tasks task).sc
      { k.cmnds (k.tasks task).sc with SCp_ptr := none } := by
  unfold scsitap_complete_task
  dsimp only
  split <;> rfl

/-- Only the flag decides whether the mid layer hears of the removal. -/
theorem scsitap_complete_task_history (k : Hba) (task : Addr) :
    (scsitap_complete_task k task).history =
      if (k.tasks task).flags ≠ .aborted then k.history.scsi_done (k.tasks task).sc else k.history := by
  by_cases h : (k.tasks task).flags = .aborted <;> simp [scsitap_complete_task, h]

/-- The submission was answered. -/
def answer (s : Submission) : Submission := { s with done_calls := s.done_calls + 1 }

/-- The submission was dropped without an answer. -/
def drop (s : Submission) : Submission := { s with aborted := true }

theorem scsitap_complete_task_removed (k : Hba) (task : Addr)
    (hflags : (k.tasks task).flags ≠ .aborted)
    (horigin : k.history.origin (k.tasks task).sc = .accepted (k.tasks task).seq) :
    Removed k task answer (scsitap_complete_task k task) := by
  have hhistory := scsitap_complete_task_history k task
  rw [if_pos hflags, History.scsi_done, horigin] at hhistory
  exact {
    queue := by simp
    count := by simp
    next := by simp
    tasks := by simp
    ptr := fun sc => by by_cases h : sc = (k.tasks task).sc <;> simp [h]
    accepted := by rw [hhistory]; rfl
    refused := by rw [hhistory]
    stray := by rw [hhistory]
    origin := by rw [hhistory] }

theorem abortTask_removed (k : Hba) (task : Addr) : Removed k task drop (abortTask k task) := by
  have hhistory : (abortTask k task).history = k.history.abort (k.tasks task).seq := by
    simp [abortTask, scsitap_complete_task_history]
  exact {
    queue := by simp [abortTask]
    count := by simp [abortTask]
    next := by simp [abortTask]
    tasks := fun t h => by simp [abortTask, Hba.setFlags_of_ne k task .aborted h]
    ptr := fun sc => by by_cases h : sc = (k.tasks task).sc <;> simp [abortTask, h]
    accepted := by rw [hhistory]; rfl
    refused := by rw [hhistory]; rfl
    stray := by rw [hhistory]; rfl
    origin := by rw [hhistory]; rfl }

end vscsi.hba
