import Vscsi.Kernel.Preserve

open lib

namespace vscsi

open hba device

/-- A change that a function does not see. -/
theorem map_modify_of_eq {α β : Type} {f : α → α} {g : α → β} (hf : ∀ a, g (f a) = g a) (l : List α) (i : Nat) :
    (l.modify i f).map g = l.map g := by
  induction l generalizing i with
  | nil => cases i <;> rfl
  | cons a l ih => cases i <;> simp [hf, ih]

namespace Hba

/-- A task that was there before: the same submission of the same request, which
may have been claimed. -/
structure Kept (k k' : Hba) (task : Addr) : Prop where
  queued : task ∈ k.queue
  seq : (k'.tasks task).seq = (k.tasks task).seq
  sc : (k'.tasks task).sc = (k.tasks task).sc
  number : (k'.tasks task).cmd_number = (k.tasks task).cmd_number
  lun : (k'.tasks task).lun = (k.tasks task).lun
  flags : (k'.tasks task).flags = (k.tasks task).flags ∨ (k'.tasks task).flags = .received
  request : (k'.cmnds (k'.tasks task).sc).request = (k.cmnds (k.tasks task).sc).request

/-- A task of a command accepted just now. -/
structure Fresh (k k' : Hba) (sc task : Addr) : Prop where
  seq : (k'.tasks task).seq = k.history.accepted.length
  lun : (k'.tasks task).lun = (k.cmnds sc).lun
  flags : (k'.tasks task).flags = .submitted
  request : (k'.cmnds (k'.tasks task).sc).request = (k.cmnds sc).request

/-- Nothing was added to the queue. -/
structure Evolves (k k' : Hba) : Prop where
  kept : ∀ task ∈ k'.queue, Kept k k' task
  commands : k'.history.commands = k.history.commands

theorem Evolves.accepted {k k' : Hba} (h : Evolves k k') :
    k.history.accepted.length ≤ k'.history.accepted.length := by
  have hlength := congrArg List.length h.commands
  simp only [History.commands, List.length_map] at hlength
  exact Nat.le_of_eq hlength.symm

theorem Evolves.of_tasks {k k' : Hba} (hqueue : k'.queue.Sublist k.queue)
    (htasks : ∀ task ∈ k'.queue, k'.tasks task = k.tasks task)
    (hrequest : ∀ sc, (k'.cmnds sc).request = (k.cmnds sc).request)
    (hcommands : k'.history.commands = k.history.commands) : Evolves k k' where
  kept task ht := {
    queued := hqueue.subset ht
    seq := by rw [htasks task ht]
    sc := by rw [htasks task ht]
    number := by rw [htasks task ht]
    lun := by rw [htasks task ht]
    flags := by rw [htasks task ht]; exact .inl rfl
    request := by rw [hrequest, htasks task ht] }
  commands := hcommands

theorem Evolves.refl (k : Hba) : Evolves k k :=
  .of_tasks (List.Sublist.refl _) (fun _ _ => rfl) (fun _ => rfl) rfl

theorem Evolves.trans {k k' k'' : Hba} (h : Evolves k k') (h' : Evolves k' k'') : Evolves k k'' where
  kept task ht := by
    have hlast := h'.kept task ht
    have hfirst := h.kept task hlast.queued
    refine {
      queued := hfirst.queued
      seq := hlast.seq.trans hfirst.seq
      sc := hlast.sc.trans hfirst.sc
      number := hlast.number.trans hfirst.number
      lun := hlast.lun.trans hfirst.lun
      flags := ?_
      request := hlast.request.trans hfirst.request }
    rcases hlast.flags with hsame | hreceived
    · rw [hsame]
      exact hfirst.flags
    · exact .inr hreceived
  commands := h'.commands.trans h.commands

/-- Taking a task out leaves the others as they are. -/
theorem Evolves.removed {k k' : Hba} (hvalid : k.Valid) {task : Addr} {f : Submission → Submission}
    (hr : Removed k task f k') (hf : ∀ s, (f s).sc = s.sc)
    (hrequest : ∀ sc, (k'.cmnds sc).request = (k.cmnds sc).request) : Evolves k k' := by
  refine .of_tasks ?_ ?_ hrequest (by rw [History.commands, hr.accepted, map_modify_of_eq hf]; rfl)
  · rw [queue, hr.queue]
    exact List.erase_sublist
  · intro t ht
    rw [queue, hr.queue] at ht
    exact hr.tasks t (hvalid.nodup.mem_erase_iff.mp ht).1

/-- An empty queue has no task that could have changed. -/
theorem Evolves.of_empty {k k' : Hba} (hqueue : k'.queue = [])
    (hcommands : k'.history.commands = k.history.commands) : Evolves k k' where
  kept task ht := by
    rw [hqueue] at ht
    cases ht
  commands := hcommands

end Hba

@[simp] theorem History.scsi_done_commands (h : History) (sc : Addr) : (h.scsi_done sc).commands = h.commands := by
  unfold History.scsi_done
  split
  · refine map_modify_of_eq ?_ _ _
    exact fun _ => rfl
  · rfl
  · rfl

namespace hba

@[simp] theorem scsitap_complete_task_commands (k : Hba) (task : Addr) :
    (scsitap_complete_task k task).history.commands = k.history.commands := by
  rw [scsitap_complete_task_history]
  split <;> simp

theorem scsitap_complete_task_request (k : Hba) (task sc : Addr) :
    ((scsitap_complete_task k task).cmnds sc).request = (k.cmnds sc).request := by
  rw [scsitap_complete_task_cmnds]
  by_cases h : sc = (k.tasks task).sc <;> simp [h, ScsiCmnd.request]

theorem abortTask_commands (k : Hba) (task : Addr) : (abortTask k task).history.commands = k.history.commands := by
  rw [History.commands, (abortTask_removed k task).accepted]
  refine map_modify_of_eq ?_ _ _
  exact fun _ => rfl

theorem abortTask_request (k : Hba) (task sc : Addr) :
    ((abortTask k task).cmnds sc).request = (k.cmnds sc).request :=
  scsitap_complete_task_request _ task sc

theorem failTask_commands (k : Hba) (task : Addr) : (failTask k task).history.commands = k.history.commands := by
  simp [failTask]

/-- A loop over tasks keeps whatever its body keeps. -/
theorem foldl_keeps {α : Type} {f : Hba → α} {body : Hba → Addr → Hba} {tasks : List Addr}
    (hbody : ∀ k task, f (body k task) = f k) (k : Hba) : f (tasks.foldl body k) = f k := by
  induction tasks generalizing k with
  | nil => rfl
  | cons task tasks ih => rw [List.foldl_cons, ih, hbody]

end hba

namespace Hba.Valid

variable {k : Hba}

theorem complete_task_evolves (k : Hba) (task : Addr) : Evolves k (scsitap_complete_task k task) := by
  refine .of_tasks ?_ (fun t _ => by simp) (scsitap_complete_task_request k task) (by simp)
  simp only [queue, scsitap_complete_task_session]
  exact List.erase_sublist

theorem ctl_write_evolves (k : Hba) (user : UserMem) (count : Nat) :
    Evolves k (scsitap_ctl_write k user count).2 := by
  have hof : ∀ {k₁}, SamePointers k k₁ → Evolves k k₁ := by
    intro k₁ hsame
    refine .of_tasks ?_ (fun t _ => by rw [hsame.tasks]) hsame.request (by rw [hsame.history])
    rw [hsame.same.queue]
  rcases scsitap_ctl_write_cases k user count with hsame | ⟨task, k₁, _, hsame, heq⟩
  · exact hof hsame
  · rw [heq]
    exact (hof hsame).trans (complete_task_evolves k₁ task)

theorem setReceived_evolves (k : Hba) (task : Addr) : Evolves k (k.setFlags task .received) where
  kept t ht := by
    by_cases heq : t = task
    · subst heq
      exact ⟨ht, by simp, by simp, by simp, by simp, .inr (by simp), by simp⟩
    · have hsame := Hba.setFlags_of_ne k task .received heq
      exact ⟨ht, by rw [hsame], by rw [hsame], by rw [hsame], by rw [hsame], .inl (by rw [hsame]),
        by rw [hsame]; rfl⟩
  commands := rfl

theorem receive_task_evolves (k : Hba) (arg : Nat) : Evolves k (scsitap_ioctl_receive_task k arg).2 := by
  unfold scsitap_ioctl_receive_task
  split
  · exact .of_tasks (List.Sublist.refl _) (fun _ _ => rfl) (fun _ => rfl) rfl
  · split
    · exact setReceived_evolves _ _
    · exact .refl k

/-- Every call but a submission leaves a queue of tasks that were there before. -/
theorem apply_evolves (h : k.Valid) {op : Op} (hallowed : k.Allowed op)
    (hop : ∀ sc slot, op ≠ .queuecommand sc slot) : Evolves k (k.apply op) := by
  cases op with
  | prepare sc cmnd mem =>
    refine ⟨fun task ht => ⟨ht, rfl, rfl, rfl, rfl, .inl rfl, ?_⟩, rfl⟩
    have hne : (k.tasks task).sc ≠ sc := hallowed.1 task ht
    simp [Hba.apply, hne]
  | queuecommand sc slot => exact absurd rfl (hop sc slot)
  | eh_abort sc =>
    change Evolves k (scsitap_eh_abort k sc).2
    unfold scsitap_eh_abort
    cases k.cmnds sc |>.SCp_ptr with
    | none => exact .refl k
    | some task => exact .removed h (abortTask_removed k task) (fun _ => rfl) (abortTask_request k task)
  | eh_host_reset => exact .of_empty h.eh_host_reset.2 (foldl_keeps (f := fun k => k.history.commands) abortTask_commands k)
  | read f_pos user count => exact .refl k
  | write user count => exact ctl_write_evolves k user count
  | receive_task arg => exact receive_task_evolves k arg
  | register_client pid => exact .of_tasks (List.Sublist.refl _) (fun _ _ => rfl) (fun _ => rfl) rfl
  | unregister_client =>
    change Evolves k (scsitap_ioctl_unregister_client k).2
    rw [scsitap_ioctl_unregister_client_snd]
    rcases h.destroy_session.2 with hsame | hempty
    · rw [hsame]
      exact .refl k
    · refine .of_empty hempty ?_
      unfold scsitap_destroy_session
      split
      · rfl
      · exact foldl_keeps (f := fun k => k.history.commands) failTask_commands k
  | release => exact .of_tasks (List.Sublist.refl _) (fun _ _ => rfl) (fun _ => rfl) rfl

/-- An accepted command joins the tasks that were there before. -/
theorem accepted_queue {sc task : Addr} {k' : Hba} (hfresh : task ∉ k.queue) (ha : Accepted k sc task k') :
    ∀ t ∈ k'.queue, Kept k k' t ∨ Fresh k k' sc t := by
  intro t ht
  rw [ha.queue, List.mem_append, List.mem_singleton] at ht
  rcases ht with ht | rfl
  · have hsame : k'.tasks t = k.tasks t := by
      rw [ha.tasks, Function.update_of_ne]
      rintro rfl
      exact hfresh ht
    exact .inl ⟨ht, by rw [hsame], by rw [hsame], by rw [hsame], by rw [hsame], .inl (by rw [hsame]),
      by rw [hsame, ha.request]⟩
  · have hself : k'.tasks t = newTask k sc := by rw [ha.tasks, Function.update_self]
    exact .inr ⟨by rw [hself, newTask], by rw [hself, newTask], by rw [hself, newTask],
      by rw [hself, newTask, ha.request]⟩

/-- What a submission does to the queue: nothing, or it adds one task. -/
theorem queuecommand_evolves (h : k.Valid) {sc : Addr} {slot : Option Addr}
    (hallowed : k.Allowed (.queuecommand sc slot)) :
    Evolves k (scsitap_queuecommand k sc slot).2 ∨
      ∃ task ∉ k.queue, Accepted k sc task (scsitap_queuecommand k sc slot).2 := by
  have hturned : ∀ {k'}, TurnedAway k sc k' → Evolves k k' := by
    intro k' ha
    refine .of_tasks ?_ (fun t _ => by rw [ha.tasks]) ha.request (by rw [History.commands, ha.accepted]; rfl)
    rw [queue, ha.session]
  by_cases hready : k.session.flags = .ready
  · cases slot with
    | none => exact .inl (hturned (scsitap_queuecommand_busy k sc hready).2)
    | some task =>
      exact .inr ⟨task, hallowed.2 task rfl, (scsitap_queuecommand_accepted k sc task hready).2⟩
  · exact .inl (hturned (scsitap_queuecommand_refused k sc slot hready (h.idle_ptr hallowed.1)).2)

end Hba.Valid

end vscsi
