import Vscsi.Kernel.Preserve

open lib

namespace vscsi

open hba device

namespace slab

variable {freed : Addr → ScsitapTask} {k k' k₁ : Hba} {task : Addr}

@[simp] theorem scsitap_complete_task_session (freed : Addr → ScsitapTask) (k : Hba) (task : Addr) :
    (scsitap_complete_task freed k task).session = { k.session with
      cmd_numbers := k.session.cmd_numbers - 1
      scsitap_queue := k.session.scsitap_queue.erase task } := by
  unfold scsitap_complete_task
  dsimp only
  split <;> rfl

@[simp] theorem scsitap_complete_task_tasks (freed : Addr → ScsitapTask) (k : Hba) (task : Addr) :
    (scsitap_complete_task freed k task).tasks = Function.update k.tasks task (freed task) := by
  unfold scsitap_complete_task
  dsimp only
  split <;> rfl

@[simp] theorem scsitap_complete_task_cmnds (freed : Addr → ScsitapTask) (k : Hba) (task : Addr) :
    (scsitap_complete_task freed k task).cmnds = Function.update k.cmnds (k.tasks task).sc
      { k.cmnds (k.tasks task).sc with SCp_ptr := none } := by
  unfold scsitap_complete_task
  dsimp only
  split <;> rfl

/-- The flags that decide are those of whoever has the slot now. -/
theorem scsitap_complete_task_history (freed : Addr → ScsitapTask) (k : Hba) (task : Addr) :
    (scsitap_complete_task freed k task).history =
      if (freed task).flags ≠ .aborted then k.history.scsi_done (k.tasks task).sc else k.history := by
  by_cases h : (freed task).flags = .aborted <;> simp [scsitap_complete_task, h]

/-- What becomes of the submission, by the flags that are found. -/
def notify (flags : TaskFlags) (s : Submission) : Submission := if flags ≠ .aborted then answer s else s

theorem notify_aborted (s : Submission) : notify .aborted s = s := rfl

theorem notify_of_ne {flags : TaskFlags} (h : flags ≠ .aborted) (s : Submission) : notify flags s = answer s := by
  rw [notify, if_pos h]

theorem complete_removed (freed : Addr → ScsitapTask) (k : Hba) (task : Addr)
    (horigin : k.history.origin (k.tasks task).sc = .accepted (k.tasks task).seq) :
    Removed k task (notify (freed task).flags) (scsitap_complete_task freed k task) := by
  have hhistory := scsitap_complete_task_history freed k task
  have haccepted : (scsitap_complete_task freed k task).history.accepted =
      k.history.accepted.modify (k.tasks task).seq (notify (freed task).flags) := by
    by_cases h : (freed task).flags = .aborted
    · rw [hhistory, if_neg (not_not.mpr h), h]
      exact (List.modify_id _ _).symm
    · rw [hhistory, if_pos h, History.scsi_done, horigin, funext (notify_of_ne h)]
      rfl
  have hrest : (scsitap_complete_task freed k task).history.refused = k.history.refused ∧
      (scsitap_complete_task freed k task).history.stray = k.history.stray ∧
      (scsitap_complete_task freed k task).history.origin = k.history.origin := by
    rw [hhistory]
    split
    · rw [History.scsi_done, horigin]
      exact ⟨rfl, rfl, rfl⟩
    · exact ⟨rfl, rfl, rfl⟩
  exact {
    queue := by simp
    count := by simp
    next := by simp
    tasks := fun t h => by simp [h]
    ptr := fun sc => by by_cases h : sc = (k.tasks task).sc <;> simp [h]
    accepted := haccepted
    refused := hrest.1
    stray := hrest.2.1
    origin := hrest.2.2 }

theorem failTask_samePointers (k : Hba) (task : Addr) : SamePointers k (k.modifyCmnd (k.tasks task).sc fun c =>
    set_sensedata_commfailure { c with result := DID_NO_CONNECT <<< 16, resid := c.request_bufflen }) :=
  (SamePointers.refl k).modifyCmnd _ (fun _ => rfl) fun _ => rfl

theorem failTask_removed (freed : Addr → ScsitapTask) (k : Hba) (task : Addr)
    (horigin : k.history.origin (k.tasks task).sc = .accepted (k.tasks task).seq) :
    Removed k task (notify (freed task).flags) (failTask (scsitap_complete_task freed) k task) :=
  removed_of_samePointers (failTask_samePointers k task) (complete_removed freed _ task horigin)

theorem abortTask_removed (freed : Addr → ScsitapTask) (k : Hba) (task : Addr)
    (horigin : k.history.origin (k.tasks task).sc = .accepted (k.tasks task).seq) :
    Removed k task (fun s => notify (freed task).flags (drop s)) (abortTask (scsitap_complete_task freed) k task) := by
  have hmarked := complete_removed freed
    { k.setFlags task .aborted with history := k.history.abort (k.tasks task).seq } task
    (by simpa [History.abort] using horigin)
  refine {
    queue := hmarked.queue, count := hmarked.count, next := hmarked.next, tasks := ?_, ptr := ?_, accepted := ?_,
    refused := hmarked.refused, stray := hmarked.stray, origin := hmarked.origin }
  · intro t ht
    exact (hmarked.tasks t ht).trans (Hba.setFlags_of_ne k task .aborted ht)
  · intro sc
    refine (hmarked.ptr sc).trans ?_
    simp only [Hba.setFlags_self, Hba.setFlags_cmnds]
  · refine hmarked.accepted.trans ?_
    simp only [Hba.setFlags_self, History.abort]
    rw [List.modify_modify_eq]
    rfl

/-- The origin of a queued command is its latest submission. -/
theorem origin_of_queued (h : k.Valid) (ht : task ∈ k.queue) :
    k.history.origin (k.tasks task).sc = .accepted (k.tasks task).seq := by
  obtain ⟨s, hs⟩ := h.pending task ht
  rw [← hs.sc]
  exact hs.origin

/-- What a loop over a whole queue does to the submissions, when its body
removes the task it visits. -/
theorem foldl_entry (body : Hba → Addr → Hba) (f : Addr → Submission → Submission)
    (hbody : ∀ k task, k.history.origin (k.tasks task).sc = .accepted (k.tasks task).seq →
      Removed k task (f task) (body k task))
    (hqueue : (k.queue.map fun t => (k.tasks t).seq).Nodup)
    (horigin : ∀ t ∈ k.queue, k.history.origin (k.tasks t).sc = .accepted (k.tasks t).seq) :
    (k.queue.foldl body k).queue = [] ∧
      (∀ t ∈ k.queue, (k.queue.foldl body k).history.accepted[(k.tasks t).seq]? =
        (k.history.accepted[(k.tasks t).seq]?).map (f t)) ∧
      ∀ seq, (∀ t ∈ k.queue, (k.tasks t).seq ≠ seq) →
        (k.queue.foldl body k).history.accepted[seq]? = k.history.accepted[seq]? := by
  generalize htasks : k.queue = tasks at *
  induction tasks generalizing k with
  | nil => exact ⟨htasks, fun t ht => absurd ht List.not_mem_nil, fun seq _ => rfl⟩
  | cons task tasks ih =>
    obtain ⟨hfirst, hrest⟩ := List.nodup_cons.mp hqueue
    have hother : ∀ t ∈ tasks, (k.tasks task).seq ≠ (k.tasks t).seq := by
      intro t ht heq
      exact hfirst (List.mem_map.mpr ⟨t, ht, heq.symm⟩)
    have hne : ∀ t ∈ tasks, t ≠ task := by
      rintro t ht rfl
      exact hother t ht rfl
    have hr := hbody k task (horigin task List.mem_cons_self)
    have hsame : ∀ t ∈ tasks, (body k task).tasks t = k.tasks t := fun t ht => hr.tasks t (hne t ht)
    have hqueue' : (body k task).queue = tasks := by
      rw [Hba.queue, hr.queue]
      simp only [Hba.queue] at htasks
      rw [htasks, List.erase_cons_head]
    have hmap : tasks.map (fun t => ((body k task).tasks t).seq) = tasks.map fun t => (k.tasks t).seq :=
      List.map_congr_left fun t ht => by rw [hsame t ht]
    obtain ⟨hempty, hvisited, hkept⟩ := ih (k := body k task) hqueue' (by rw [hmap]; exact hrest) fun t ht => by
      rw [hr.origin, hsame t ht]
      exact horigin t (List.mem_cons_of_mem _ ht)
    rw [List.foldl_cons]
    refine ⟨hempty, ?_, ?_⟩
    · intro t ht
      rcases List.mem_cons.mp ht with rfl | ht
      · have hseq : ∀ u ∈ tasks, ((body k t).tasks u).seq ≠ (k.tasks t).seq := by
          intro u hu
          rw [hsame u hu]
          exact (hother u hu).symm
        rw [hkept _ hseq, hr.accepted, List.getElem?_modify_eq]
        rfl
      · have hentry := hvisited t ht
        rw [hsame t ht] at hentry
        rw [hentry, hr.accepted, List.getElem?_modify_ne _ _ (hother t ht)]
    · intro seq hseq
      have hseq' : ∀ u ∈ tasks, ((body k task).tasks u).seq ≠ seq := by
        intro u hu
        rw [hsame u hu]
        exact hseq u (List.mem_cons_of_mem _ hu)
      rw [hkept seq hseq', hr.accepted, List.getElem?_modify_ne _ _ (hseq task List.mem_cons_self)]

/-- The slots of the tasks in the queue, and the one that the allocator returns,
are all that a call changes, and that the queue afterwards can hold. -/
structure Local (k : Hba) (slot : Option Addr) (k' : Hba) : Prop where
  queue : ∀ task ∈ k'.queue, task ∈ k.queue ∨ slot = some task
  slots : ∀ task ∉ k.queue, slot ≠ some task → k'.tasks task = k.tasks task

theorem Local.of_tasks (hqueue : k'.queue = k.queue) (htasks : k'.tasks = k.tasks) (slot : Option Addr) :
    Local k slot k' :=
  ⟨fun _ ht => .inl (hqueue ▸ ht), fun _ _ _ => by rw [htasks]⟩

theorem Local.removed {f : Submission → Submission} (ht : task ∈ k.queue) (hr : Removed k task f k') :
    Local k none k' where
  queue t ht' := by
    rw [Hba.queue, hr.queue] at ht'
    exact .inl (List.mem_of_mem_erase ht')
  slots t hnot _ := by
    refine hr.tasks t ?_
    rintro rfl
    exact hnot ht

theorem Local.trans {k'' : Hba} (h : Local k none k') (h' : Local k' none k'') : Local k none k'' where
  queue t ht := by
    rcases h'.queue t ht with hmid | hnone
    · exact h.queue t hmid
    · cases hnone
  slots t hnot hne := by
    have hmid : t ∉ k'.queue := by
      intro ht
      rcases h.queue t ht with hold | hnone
      · exact hnot hold
      · cases hnone
    rw [h'.slots t hmid hne, h.slots t hnot hne]

/-- The slot that the allocator returns to a call. -/
def newSlot : Op → Option Addr
  | .queuecommand _ slot => slot
  | _ => none

/-- What a loop over the queue changes. -/
theorem foldl_local (body : Hba → Addr → Hba) (hbody : ∀ k task, task ∈ k.queue → Local k none (body k task))
    (hqueue : ∀ k task, (body k task).queue = k.queue.erase task) (k : Hba) :
    Local k none (k.queue.foldl body k) := by
  generalize htasks : k.queue = tasks
  induction tasks generalizing k with
  | nil => exact .of_tasks rfl rfl none
  | cons task tasks ih =>
    refine (hbody k task (by simp [htasks])).trans (ih (body k task) ?_)
    rw [hqueue, htasks, List.erase_cons_head]

theorem complete_queue (freed : Addr → ScsitapTask) (k : Hba) (task : Addr) :
    (scsitap_complete_task freed k task).queue = k.queue.erase task := by
  simp [Hba.queue]

theorem complete_local (freed : Addr → ScsitapTask) (ht : task ∈ k.queue) :
    Local k none (scsitap_complete_task freed k task) where
  queue t ht' := by
    rw [complete_queue] at ht'
    exact .inl (List.mem_of_mem_erase ht')
  slots t hnot _ := by
    have hne : t ≠ task := by
      rintro rfl
      exact hnot ht
    simp [hne]

theorem abortTask_local (freed : Addr → ScsitapTask) (ht : task ∈ k.queue) :
    Local k none (abortTask (scsitap_complete_task freed) k task) := by
  have hcompleted := complete_local freed (k := { k.setFlags task .aborted with
    history := k.history.abort (k.tasks task).seq }) ht
  refine ⟨hcompleted.queue, fun t hnot hne => (hcompleted.slots t hnot hne).trans ?_⟩
  refine Hba.setFlags_of_ne k task .aborted ?_
  rintro rfl
  exact hnot ht

theorem failTask_local (freed : Addr → ScsitapTask) (ht : task ∈ k.queue) :
    Local k none (failTask (scsitap_complete_task freed) k task) := by
  have hsame := failTask_samePointers k task
  have hmem : task ∈ (k.modifyCmnd (k.tasks task).sc fun c => set_sensedata_commfailure
      { c with result := DID_NO_CONNECT <<< 16, resid := c.request_bufflen }).queue := by rwa [hsame.same.queue]
  have hcompleted := complete_local freed hmem
  exact (Local.of_tasks hsame.same.queue hsame.tasks none).trans hcompleted

/-- A session that nobody has open is destroyed, any other is left alone. -/
theorem unregister_snd (complete : Hba → Addr → Hba) (k : Hba) :
    (scsitap_ioctl_unregister_client complete k).2 = if k.session.Device_Open ≠ 0 then k else
      { k.queue.foldl (failTask complete) k with
        session := { (k.queue.foldl (failTask complete) k).session with listed := false } } := by
  unfold scsitap_ioctl_unregister_client scsitap_destroy_session
  by_cases h : k.session.Device_Open = 0 <;> simp [h]

theorem apply_local (freed : Addr → ScsitapTask) (h : k.Valid) (op : Op) :
    Local k (newSlot op) (apply (scsitap_complete_task freed) k op) := by
  cases op with
  | prepare sc cmnd mem => refine .of_tasks ?_ ?_ _ <;> rfl
  | queuecommand sc slot =>
    change Local k slot (hba.scsitap_queuecommand k sc slot).2
    by_cases hready : k.session.flags = .ready
    · cases slot with
      | none =>
        have ha := (scsitap_queuecommand_busy k sc hready).2
        exact .of_tasks (by rw [Hba.queue, ha.session]) ha.tasks none
      | some task =>
        have ha := (scsitap_queuecommand_accepted k sc task hready).2
        refine ⟨fun t ht => ?_, fun t _ hne => ?_⟩
        · rw [ha.queue, List.mem_append, List.mem_singleton] at ht
          exact ht.imp_right fun heq => by rw [heq]
        · rw [ha.tasks, Function.update_of_ne]
          rintro rfl
          exact hne rfl
    · refine .of_tasks ?_ ?_ slot <;> simp [Hba.queue, hba.scsitap_queuecommand, hready]
  | eh_abort sc =>
    change Local k none (scsitap_eh_abort _ k sc).2
    unfold scsitap_eh_abort
    cases hptr : (k.cmnds sc).SCp_ptr with
    | none => exact .of_tasks rfl rfl none
    | some task => exact abortTask_local freed ((h.back sc task).mp hptr).1
  | eh_host_reset =>
    exact foldl_local _ (fun k task ht => abortTask_local freed ht) (fun k task => complete_queue freed _ task) k
  | read f_pos user count => refine .of_tasks ?_ ?_ _ <;> rfl
  | write user count =>
    change Local k none (scsitap_ctl_write _ k user count).2
    rcases ctl_write_completes (scsitap_complete_task freed) k user count with
      ⟨_, hsame⟩ | ⟨task, k₁, hcompletes, hsame, heq⟩
    · exact .of_tasks hsame.same.queue hsame.tasks none
    · rw [heq]
      have ht : task ∈ k₁.queue := by
        rw [hsame.same.queue]
        exact (task_of_cmd_some hcompletes.2.2.2.1).1
      exact (Local.of_tasks hsame.same.queue hsame.tasks none).trans (complete_local freed ht)
  | receive_task arg =>
    change Local k none (scsitap_ioctl_receive_task k arg).2
    unfold scsitap_ioctl_receive_task
    split
    · refine .of_tasks ?_ ?_ none <;> rfl
    · split
      · rename_i task htask
        have ht := (task_of_cmd_some htask).1
        exact ⟨fun t ht' => .inl ht', fun t hnot _ => Hba.setFlags_of_ne k task _ (by rintro rfl; exact hnot ht)⟩
      · exact .of_tasks rfl rfl none
  | register_client pid => refine .of_tasks ?_ ?_ _ <;> rfl
  | unregister_client =>
    change Local k none (scsitap_ioctl_unregister_client (scsitap_complete_task freed) k).2
    rw [unregister_snd]
    split
    · exact .of_tasks rfl rfl none
    · have hdrained := foldl_local (failTask (scsitap_complete_task freed)) (fun k task ht => failTask_local freed ht)
        (fun k task => complete_queue freed _ task) k
      exact ⟨hdrained.queue, hdrained.slots⟩
  | release => refine .of_tasks ?_ ?_ _ <;> rfl

/-- The slots that are freed still tell, or tell again, what the call has left
there: an abort finds its mark, and no other call finds one. -/
def Undisturbed (k : Hba) (op : Op) (freed : Addr → ScsitapTask) : Prop :=
  ∀ task, Frees k op task → ((freed task).flags = .aborted ↔ op.Aborts)

theorem Frees.queued {op : Op} (hfrees : Frees k op task) (h : k.Valid) : task ∈ k.queue := by
  cases op with
  | eh_abort sc => exact ((h.back sc task).mp hfrees).1
  | eh_host_reset => exact hfrees
  | write user count => exact (task_of_cmd_some hfrees.2.2.2.1).1
  | unregister_client => exact hfrees.2
  | prepare sc cmnd mem => exact hfrees.elim
  | queuecommand sc slot => exact hfrees.elim
  | read f_pos user count => exact hfrees.elim
  | receive_task arg => exact hfrees.elim
  | register_client pid => exact hfrees.elim
  | release => exact hfrees.elim

theorem valid_completed (h : k.Valid) (ht : task ∈ k.queue) (hflags : (freed task).flags ≠ .aborted)
    (hr : Removed k task (notify (freed task).flags) k') : k'.Valid := by
  rw [funext (notify_of_ne hflags)] at hr
  refine h.removed ht hr (fun _ => rfl) ?_
  intro s hcalls haborted
  exact .inl ⟨by rw [answer, hcalls], haborted⟩

theorem valid_aborted (h : k.Valid) (ht : task ∈ k.queue) (hflags : (freed task).flags = .aborted)
    (hr : Removed k task (fun s => notify (freed task).flags (drop s)) k') : k'.Valid := by
  rw [hflags] at hr
  refine h.removed ht hr (fun _ => rfl) ?_
  intro s hcalls _
  exact .inr ⟨hcalls, rfl⟩

/-- A write that completes a task takes it out of the session. -/
theorem write_removed {user : UserMem} {count : Nat} (freed : Addr → ScsitapTask) (h : k.Valid)
    (hcompletes : Completes k user count task) :
    Removed k task (notify (freed task).flags) (scsitap_ctl_write (scsitap_complete_task freed) k user count).2 := by
  rcases ctl_write_completes (scsitap_complete_task freed) k user count with
    ⟨hnone, _⟩ | ⟨other, k₁, hother, hsame, heq⟩
  · exact absurd hcompletes (hnone task)
  · have htask := hother.2.2.2.1
    rw [hcompletes.2.2.2.1] at htask
    obtain rfl := Option.some.inj htask
    rw [heq]
    refine removed_of_samePointers hsame (complete_removed freed k₁ task ?_)
    rw [hsame.tasks, hsame.history]
    exact origin_of_queued h (task_of_cmd_some hcompletes.2.2.2.1).1

theorem apply_valid {op : Op} (h : k.Valid) (hallowed : k.Allowed op) (hundisturbed : Undisturbed k op freed) :
    (apply (scsitap_complete_task freed) k op).Valid := by
  cases op with
  | eh_abort sc =>
    change (scsitap_eh_abort (scsitap_complete_task freed) k sc).2.Valid
    unfold scsitap_eh_abort
    cases hptr : (k.cmnds sc).SCp_ptr with
    | none => exact h
    | some task =>
      have ht := ((h.back sc task).mp hptr).1
      exact valid_aborted h ht ((hundisturbed task hptr).mpr trivial) (abortTask_removed freed k task (origin_of_queued h ht))
  | eh_host_reset =>
    refine (h.drain (abortTask (scsitap_complete_task freed)) ?_ fun k task => complete_queue freed _ task).1
    intro task ht k' hk ht'
    exact valid_aborted hk ht' ((hundisturbed task ht).mpr trivial) (abortTask_removed freed k' task (origin_of_queued hk ht'))
  | write user count =>
    rcases ctl_write_completes (scsitap_complete_task freed) k user count with
      ⟨_, hsame⟩ | ⟨task, _, hcompletes, _, _⟩
    · exact h.same hsame.same
    · exact valid_completed h (task_of_cmd_some hcompletes.2.2.2.1).1 (hundisturbed task hcompletes).mp
        (write_removed freed h hcompletes)
  | unregister_client =>
    change (scsitap_ioctl_unregister_client (scsitap_complete_task freed) k).2.Valid
    rw [unregister_snd]
    split
    · exact h
    · rename_i hclosed
      have hdrained := (h.drain (failTask (scsitap_complete_task freed)) (fun task ht k' hk ht' =>
        valid_completed hk ht' (hundisturbed task ⟨not_not.mp hclosed, ht⟩).mp
          (failTask_removed freed k' task (origin_of_queued hk ht'))) fun k task => complete_queue freed _ task).1
      exact hdrained.same (.of_tasks rfl rfl rfl rfl (fun _ => rfl) rfl)
  | prepare sc cmnd mem => exact h.apply _ hallowed
  | queuecommand sc slot => exact h.apply _ hallowed
  | read f_pos user count => exact h.apply _ hallowed
  | receive_task arg => exact h.apply _ hallowed
  | register_client pid => exact h.apply _ hallowed
  | release => exact h.apply _ hallowed

theorem removed_entry {f : Submission → Submission} {s : Submission} (h : k.Valid) (ht : task ∈ k.queue)
    (hs : k.Pending task s) (hr : Removed k task f k') :
    k'.history.accepted[(k.tasks task).seq]? = some (f s) ∧ ¬ k'.Queued (k.tasks task).seq := by
  constructor
  · rw [hr.accepted, List.getElem?_modify_eq, hs.entry]
    rfl
  · rintro ⟨t, ht', hseq⟩
    rw [Hba.queue, hr.queue] at ht'
    obtain ⟨hne, hold⟩ := h.nodup.mem_erase_iff.mp ht'
    rw [hr.tasks t hne] at hseq
    exact hne (h.seq_injective hold ht hseq)

/-- The same for a task that a loop over the queue visits. -/
theorem foldl_removed_entry {body : Hba → Addr → Hba} {f : Addr → Submission → Submission} {s : Submission}
    (h : k.Valid) (ht : task ∈ k.queue) (hs : k.Pending task s)
    (hbody : ∀ k task, k.history.origin (k.tasks task).sc = .accepted (k.tasks task).seq →
      Removed k task (f task) (body k task)) :
    (k.queue.foldl body k).history.accepted[(k.tasks task).seq]? = some (f task s) ∧
      ¬ (k.queue.foldl body k).Queued (k.tasks task).seq := by
  have hseq : (k.queue.map fun t => (k.tasks t).seq).Nodup := by
    rw [List.Nodup, List.pairwise_map]
    exact h.order.imp fun hlt => Nat.ne_of_lt hlt
  obtain ⟨hempty, hvisited, _⟩ := foldl_entry body f hbody hseq fun t ht => origin_of_queued h ht
  constructor
  · rw [hvisited task ht, hs.entry]
    rfl
  · rintro ⟨t, ht', _⟩
    rw [hempty] at ht'
    cases ht'

/-- What a call that frees a slot does to the submission that had it. -/
theorem frees_entry {op : Op} {s : Submission} (freed : Addr → ScsitapTask) (h : k.Valid) (hfrees : Frees k op task)
    (hs : k.Pending task s) :
    ∃ s', (apply (scsitap_complete_task freed) k op).history.accepted[(k.tasks task).seq]? = some s' ∧
      ¬ (apply (scsitap_complete_task freed) k op).Queued (k.tasks task).seq ∧
      ((op.Aborts ∧ s' = notify (freed task).flags (drop s)) ∨ (¬ op.Aborts ∧ s' = notify (freed task).flags s)) := by
  have ht := hfrees.queued h
  cases op with
  | eh_abort sc =>
    have heq : apply (scsitap_complete_task freed) k (.eh_abort sc) = abortTask (scsitap_complete_task freed) k task := by
      have hptr : (k.cmnds sc).SCp_ptr = some task := hfrees
      simp only [apply, scsitap_eh_abort, hptr]
    rw [heq]
    obtain ⟨hentry, hgone⟩ := removed_entry h ht hs (abortTask_removed freed k task (origin_of_queued h ht))
    exact ⟨_, hentry, hgone, .inl ⟨trivial, rfl⟩⟩
  | eh_host_reset =>
    obtain ⟨hentry, hgone⟩ := foldl_removed_entry h ht hs (abortTask_removed freed)
    exact ⟨_, hentry, hgone, .inl ⟨trivial, rfl⟩⟩
  | write user count =>
    obtain ⟨hentry, hgone⟩ := removed_entry h ht hs (write_removed freed h hfrees)
    exact ⟨_, hentry, hgone, .inr ⟨not_false, rfl⟩⟩
  | unregister_client =>
    obtain ⟨hentry, hgone⟩ := foldl_removed_entry h ht hs (failTask_removed freed)
    have heq : apply (scsitap_complete_task freed) k .unregister_client =
        { k.queue.foldl (failTask (scsitap_complete_task freed)) k with
          session := { (k.queue.foldl (failTask (scsitap_complete_task freed)) k).session with listed := false } } := by
      rw [apply, unregister_snd, if_neg (not_not.mpr hfrees.1)]
    rw [heq]
    exact ⟨_, hentry, hgone, .inr ⟨not_false, rfl⟩⟩
  | prepare sc cmnd mem => exact hfrees.elim
  | queuecommand sc slot => exact hfrees.elim
  | read f_pos user count => exact hfrees.elim
  | receive_task arg => exact hfrees.elim
  | register_client pid => exact hfrees.elim
  | release => exact hfrees.elim

end slab

end vscsi
