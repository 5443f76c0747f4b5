import Vscsi.Kernel.Queuecommand
import Vscsi.Kernel.Slab

open lib

namespace vscsi

open hba device

namespace hba

theorem task_of_cmd_some {k : Hba} {number : UInt32} {task : Addr} (h : task_of_cmd k number = some task) :
    task ∈ k.queue ∧ (k.tasks task).cmd_number = number := by
  have hfound := List.find?_some h
  exact ⟨List.mem_of_find?_eq_some h, by simpa using hfound⟩

theorem task_of_cmd_eq_none {k : Hba} {number : UInt32} :
    task_of_cmd k number = none ↔ ∀ task ∈ k.queue, (k.tasks task).cmd_number ≠ number := by
  simp [task_of_cmd]

end hba

namespace device

/-- Only results, residues, sense data and the data buffers differ. -/
structure SamePointers (k k' : Hba) : Prop where
  session : k'.session = k.session
  tasks : k'.tasks = k.tasks
  history : k'.history = k.history
  ptr : ∀ sc, (k'.cmnds sc).SCp_ptr = (k.cmnds sc).SCp_ptr
  request : ∀ sc, (k'.cmnds sc).request = (k.cmnds sc).request

theorem SamePointers.refl (k : Hba) : SamePointers k k :=
  ⟨rfl, rfl, rfl, fun _ => rfl, fun _ => rfl⟩

theorem SamePointers.modifyCmnd {k k' : Hba} (h : SamePointers k k') (sc : Addr) {f : ScsiCmnd → ScsiCmnd}
    (hf : ∀ c, (f c).SCp_ptr = c.SCp_ptr) (hrequest : ∀ c, (f c).request = c.request) :
    SamePointers k (k'.modifyCmnd sc f) := by
  refine ⟨h.session, h.tasks, h.history, fun c => ?_, fun c => ?_⟩ <;> by_cases hc : c = sc
  · subst hc
    simp [hf, h.ptr]
  · simp [hc, h.ptr]
  · subst hc
    simp [hrequest, h.request]
  · simp [hc, h.request]

theorem SamePointers.mem {k k' : Hba} (h : SamePointers k k') (mem : Mem) :
    SamePointers k { k' with mem } := ⟨h.session, h.tasks, h.history, h.ptr, h.request⟩

theorem SamePointers.same {k k' : Hba} (h : SamePointers k k') : Hba.Same k k' :=
  .of_tasks (by rw [Hba.queue, h.session]) (by rw [h.session]) (by rw [h.session]) h.tasks h.ptr h.history

/-- Removing a task from a session that differs in buffers and results only. -/
theorem removed_of_samePointers {k k₁ k' : Hba} {task : Addr} {f : Submission → Submission} (h : SamePointers k k₁) (hr : Removed k₁ task f k') :
    Removed k task f k' := by
  refine {
    queue := ?_, count := ?_, next := ?_, tasks := ?_, ptr := ?_, accepted := ?_, refused := ?_, stray := ?_,
    origin := ?_ }
  · rw [hr.queue, h.session]
  · rw [hr.count, h.session]
  · rw [hr.next, h.session]
  · intro t ht
    rw [hr.tasks t ht, h.tasks]
  · intro sc
    rw [hr.ptr, h.tasks, h.ptr]
  · rw [hr.accepted, h.tasks, h.history]
  · rw [hr.refused, h.history]
  · rw [hr.stray, h.history]
  · rw [hr.origin, h.history]

theorem receivePayload_samePointers (k : Hba) (sc : Addr) (user : UserMem) (count : Nat)
    (scsi_status : UInt8) : SamePointers k (receivePayload k sc user count scsi_status).2 := by
  have href := SamePointers.refl k
  unfold receivePayload
  split
  · split
    · split
      · dsimp only
        split
        · exact (href.mem _).modifyCmnd sc (fun _ => rfl) fun _ => rfl
        · exact href.mem _
      · split
        · exact (href.mem _).modifyCmnd sc (fun _ => rfl) fun _ => rfl
        · exact href.mem _
    · exact href.modifyCmnd sc (fun _ => rfl) fun _ => rfl
  · split
    · exact href.modifyCmnd sc (fun _ => rfl) fun _ => rfl
    · have hsense : SamePointers k (k.modifyCmnd sc fun c =>
          { c with sense_buffer := blit c.sense_buffer 0 (copy_from_user user 6 14) }) := by
        refine href.modifyCmnd sc ?_ ?_
        · exact fun _ => rfl
        · exact fun _ => rfl
      dsimp only
      split <;> exact hsense

/-- A write either completes one queued task, after having changed nothing but
command contents and buffers, or changes at most those. -/
theorem ctl_write_completes (complete : Hba → Addr → Hba) (k : Hba) (user : UserMem) (count : Nat) :
    ((∀ task, ¬ slab.Completes k user count task) ∧ SamePointers k (slab.scsitap_ctl_write complete k user count).2) ∨
      ∃ task k₁, slab.Completes k user count task ∧ SamePointers k k₁ ∧
        (slab.scsitap_ctl_write complete k user count).2 = complete k₁ task := by
  unfold slab.scsitap_ctl_write
  split
  · rename_i hready
    exact .inl ⟨fun task hcompletes => hready hcompletes.1, .refl k⟩
  · rename_i hready
    split
    · rename_i hletter
      dsimp only
      split
      · rename_i hlength
        exact .inl ⟨fun task hcompletes => hlength hcompletes.2.2.1, .refl k⟩
      · rename_i hlength
        split
        · rename_i hnone
          refine .inl ⟨fun task hcompletes => ?_, .refl k⟩
          have htask := hcompletes.2.2.2.1
          rw [hnone] at htask
          cases htask
        · rename_i task htask
          have hpayload := receivePayload_samePointers k (k.tasks task).sc user count (get_user user 5)
          split <;> rename_i hresult <;> rw [hresult] at hpayload
          · refine .inl ⟨fun other hcompletes => ?_, hpayload⟩
            have hother := hcompletes.2.2.2.1
            rw [htask] at hother
            obtain rfl := Option.some.inj hother
            exact hcompletes.2.2.2.2 (by rw [hresult])
          · refine .inr ⟨task, _, ⟨not_not.mp hready, hletter, not_not.mp hlength, htask, ?_⟩, ?_, rfl⟩
            · rw [hresult]
              exact Option.some_ne_none _
            · refine hpayload.modifyCmnd _ ?_ ?_
              · exact fun _ => rfl
              · exact fun _ => rfl
    · rename_i hletter
      exact .inl ⟨fun task hcompletes => hletter hcompletes.2.1, .refl k⟩

theorem scsitap_ctl_write_cases (k : Hba) (user : UserMem) (count : Nat) :
    SamePointers k (scsitap_ctl_write k user count).2 ∨
      ∃ task k₁, task_of_cmd k (unle32 (copy_from_user user 1 4)) = some task ∧ SamePointers k k₁ ∧
        (scsitap_ctl_write k user count).2 = scsitap_complete_task k₁ task := by
  rcases ctl_write_completes hba.scsitap_complete_task k user count with ⟨_, hsame⟩ | ⟨task, k₁, hcompletes, hsame, heq⟩
  · exact .inl hsame
  · exact .inr ⟨task, k₁, hcompletes.2.2.2.1, hsame, heq⟩

theorem scsitap_ioctl_unregister_client_snd (k : Hba) :
    (scsitap_ioctl_unregister_client k).2 = (scsitap_destroy_session k).2 := by
  unfold scsitap_ioctl_unregister_client
  split <;> rename_i hresult <;> rw [hresult]

/-- Claiming a task changes its flags, and on a session that is not ready the
lock; neither the queue nor any other field of a task moves. -/
theorem scsitap_ioctl_receive_task_queue (k : Hba) (arg : Nat) :
    (scsitap_ioctl_receive_task k arg).2.queue = k.queue := by
  unfold scsitap_ioctl_receive_task
  split
  · rfl
  · split <;> rfl

theorem scsitap_ioctl_receive_task_mem (k : Hba) (arg : Nat) : (scsitap_ioctl_receive_task k arg).2.mem = k.mem := by
  unfold scsitap_ioctl_receive_task
  split
  · rfl
  · split <;> rfl

end device

namespace Hba.Valid

variable {k : Hba}

theorem complete_task (h : k.Valid) {task : Addr} (ht : task ∈ k.queue) :
    (scsitap_complete_task k task).Valid := by
  obtain ⟨s, hs⟩ := h.pending task ht
  have hflags : (k.tasks task).flags ≠ .aborted := by
    rcases h.live task ht with heq | heq <;> rw [heq] <;> decide
  have horigin := hs.origin
  rw [hs.sc] at horigin
  refine h.removed ht (scsitap_complete_task_removed k task hflags horigin) (fun _ => rfl) ?_
  intro s hcalls haborted
  exact .inl ⟨by rw [answer, hcalls], haborted⟩

theorem abortTask (h : k.Valid) {task : Addr} (ht : task ∈ k.queue) : (abortTask k task).Valid := by
  refine h.removed ht (abortTask_removed k task) (fun _ => rfl) ?_
  intro s hcalls _
  exact .inr ⟨hcalls, rfl⟩

theorem failTask (h : k.Valid) {task : Addr} (ht : task ∈ k.queue) : (failTask k task).Valid := by
  have hsame : SamePointers k (k.modifyCmnd (k.tasks task).sc fun c =>
      set_sensedata_commfailure { c with result := DID_NO_CONNECT <<< 16, resid := c.request_bufflen }) :=
    (SamePointers.refl k).modifyCmnd _ (fun _ => rfl) fun _ => rfl
  exact (h.same hsame.same).complete_task (by rwa [hsame.same.queue])

/-- A loop that removes the task it visits from a queue of which it visits every
task keeps the invariant and leaves the queue empty. -/
theorem drain (body : Hba → Addr → Hba) (h : k.Valid)
    (hvalid : ∀ task ∈ k.queue, ∀ k', k'.Valid → task ∈ k'.queue → (body k' task).Valid)
    (hqueue : ∀ k task, (body k task).queue = k.queue.erase task) :
    (k.queue.foldl body k).Valid ∧ (k.queue.foldl body k).queue = [] := by
  generalize hq : k.queue = tasks at hvalid ⊢
  induction tasks generalizing k with
  | nil => exact ⟨h, hq⟩
  | cons task tasks ih =>
    have ht : task ∈ k.queue := by simp [hq]
    refine ih (hvalid task List.mem_cons_self k h ht) ?_ fun t ht => hvalid t (List.mem_cons_of_mem _ ht)
    rw [hqueue, hq, List.erase_cons_head]

theorem eh_host_reset (h : k.Valid) :
    (scsitap_eh_host_reset k).2.Valid ∧ (scsitap_eh_host_reset k).2.queue = [] :=
  h.drain hba.abortTask (fun _ _ _ hk ht => hk.abortTask ht) fun k task => (abortTask_removed k task).queue

theorem eh_abort (h : k.Valid) (sc : Addr) : (scsitap_eh_abort k sc).2.Valid := by
  unfold scsitap_eh_abort
  cases hptr : (k.cmnds sc).SCp_ptr with
  | none => exact h
  | some task => exact h.abortTask ((h.back sc task).mp hptr).1

theorem ctl_write (h : k.Valid) (user : UserMem) (count : Nat) :
    (scsitap_ctl_write k user count).2.Valid := by
  rcases scsitap_ctl_write_cases k user count with hsame | ⟨task, k₁, htask, hsame, heq⟩
  · exact h.same hsame.same
  · rw [heq]
    have ht : task ∈ k₁.queue := by
      rw [hsame.same.queue]
      exact (task_of_cmd_some htask).1
    exact (h.same hsame.same).complete_task ht

/-- Destroying a session that is open does nothing; otherwise every queued
command is completed. -/
theorem destroy_session (h : k.Valid) :
    (scsitap_destroy_session k).2.Valid ∧
      ((scsitap_destroy_session k).2 = k ∨ (scsitap_destroy_session k).2.queue = []) := by
  unfold scsitap_destroy_session
  split
  · exact ⟨h, .inl rfl⟩
  · have hqueue : ∀ k task, (hba.failTask k task).queue = k.queue.erase task := by
      intro k task
      simp [hba.failTask, queue]
    obtain ⟨hdrain, hempty⟩ := h.drain hba.failTask (fun _ _ _ hk ht => hk.failTask ht) hqueue
    exact ⟨hdrain.same (.of_tasks rfl rfl rfl rfl (fun _ => rfl) rfl), .inr hempty⟩

theorem setReceived (h : k.Valid) (task : Addr) : (k.setFlags task .received).Valid := by
  have hfield : ∀ t, (k.setFlags task .received).tasks t =
      if t = task then { k.tasks t with flags := .received } else k.tasks t := by
    intro t
    by_cases ht : t = task
    · subst ht
      simp
    · rw [Hba.setFlags_of_ne _ _ _ ht, if_neg ht]
  refine h.same ⟨rfl, rfl, rfl, ?_, ?_, ?_, ?_, fun _ => rfl, rfl⟩ <;> intro t _ <;> rw [hfield] <;> split
  all_goals first | rfl | exact .inr rfl | exact .inl rfl

theorem receive_task (h : k.Valid) (arg : Nat) : (scsitap_ioctl_receive_task k arg).2.Valid := by
  unfold scsitap_ioctl_receive_task
  split
  · exact h.same (.of_tasks rfl rfl rfl rfl (fun _ => rfl) rfl)
  · split
    · exact h.setReceived _
    · exact h

/-- No call on the session breaks the invariant. -/
theorem apply (h : k.Valid) (op : Op) (hallowed : k.Allowed op) : (k.apply op).Valid := by
  cases op with
  | prepare sc cmnd mem =>
    refine h.same (.of_tasks rfl rfl rfl rfl (fun c => ?_) rfl)
    by_cases hc : c = sc
    · subst hc
      simp [Hba.apply, hallowed.2, h.idle_ptr hallowed.1]
    · simp [Hba.apply, hc]
  | queuecommand sc slot => exact h.queuecommand hallowed.1 slot hallowed.2
  | eh_abort sc => exact h.eh_abort sc
  | eh_host_reset => exact h.eh_host_reset.1
  | read f_pos user count => exact h
  | write user count => exact h.ctl_write user count
  | receive_task arg => exact h.receive_task arg
  | register_client pid => exact h.same (.of_tasks rfl rfl rfl rfl (fun _ => rfl) rfl)
  | unregister_client =>
    change (scsitap_ioctl_unregister_client k).2.Valid
    rw [scsitap_ioctl_unregister_client_snd]
    exact h.destroy_session.1
  | release => exact h.same (.of_tasks rfl rfl rfl rfl (fun _ => rfl) rfl)

end Hba.Valid

theorem Hba.Reachable.valid {k : Hba} (h : k.Reachable) : k.Valid :=
  h.invariant (fun _ hinit => Hba.Valid.initial hinit) fun _ op hk hallowed => hk.apply op hallowed

end vscsi
