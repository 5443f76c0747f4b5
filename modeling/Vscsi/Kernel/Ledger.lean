import Vscsi.Kernel.Evolve

open lib

namespace vscsi

open hba

namespace Hba

/-- Queued, and the mid layer was not called for it. -/
def Waiting (k : Hba) (seq : Nat) (s : Submission) : Prop :=
  k.Queued seq ∧ s.done_calls = 0 ∧ s.aborted = false

/-- Gone from the queue with exactly one call of `scsi_done`. -/
def Completed (k : Hba) (seq : Nat) (s : Submission) : Prop :=
  ¬ k.Queued seq ∧ s.done_calls = 1 ∧ s.aborted = false

/-- Gone from the queue through an abort or a reset, with no call of `scsi_done`. -/
def Dropped (k : Hba) (seq : Nat) (s : Submission) : Prop :=
  ¬ k.Queued seq ∧ s.done_calls = 0 ∧ s.aborted = true

/-- The calls of `scsi_done` that the accepted submissions have had. -/
def calls (k : Hba) : List Nat := k.history.accepted.map (·.done_calls)

/-- The mid layer submits to a host with fewer than `can_queue` commands on it. -/
def KeepsCanQueue (k : Hba) : Op → Prop
  | .queuecommand _ _ => k.queue.length < SCSITAP_CANQUEUE
  | _ => True

theorem abortTask_calls (k : Hba) (task : Addr) : (hba.abortTask k task).calls = k.calls := by
  rw [calls, (abortTask_removed k task).accepted]
  refine map_modify_of_eq ?_ _ _
  exact fun _ => rfl

namespace Valid

variable {k : Hba}

/-- A queued submission was neither answered nor aborted. -/
theorem queued_fresh (h : k.Valid) {seq : Nat} {s : Submission} (hs : k.history.accepted[seq]? = some s)
    (hq : k.Queued seq) : s.done_calls = 0 ∧ s.aborted = false := by
  obtain ⟨task, ht, rfl⟩ := hq
  obtain ⟨s', hs'⟩ := h.pending task ht
  have heq : s = s' := Option.some.inj (hs.symm.trans hs'.entry)
  subst heq
  exact ⟨hs'.done_calls, hs'.aborted⟩

theorem one_condition (h : k.Valid) {seq : Nat} {s : Submission}
    (hs : k.history.accepted[seq]? = some s) :
    (k.Waiting seq s ∧ ¬ k.Completed seq s ∧ ¬ k.Dropped seq s) ∨
      (¬ k.Waiting seq s ∧ k.Completed seq s ∧ ¬ k.Dropped seq s) ∨
      (¬ k.Waiting seq s ∧ ¬ k.Completed seq s ∧ k.Dropped seq s) := by
  by_cases hq : k.Queued seq
  · obtain ⟨hcalls, haborted⟩ := h.queued_fresh hs hq
    exact .inl ⟨⟨hq, hcalls, haborted⟩, fun hc => hc.1 hq, fun hd => hd.1 hq⟩
  · rcases (h.settled seq s hs).resolve_left hq with ⟨hcalls, haborted⟩ | ⟨hcalls, haborted⟩
    · exact .inr (.inl ⟨fun hw => hq hw.1, ⟨hq, hcalls, haborted⟩, by simp [Dropped, haborted]⟩)
    · exact .inr (.inr ⟨fun hw => hq hw.1, by simp [Completed, haborted], hq, hcalls, haborted⟩)

/-- A queued submission that is gone without a call of `scsi_done` was dropped. -/
theorem dropped_of_gone (h : k.Valid) {k' : Hba} (h' : k'.Valid) (hcalls : k'.calls = k.calls) {seq : Nat} {s : Submission}
    (hs : k.history.accepted[seq]? = some s) (hq : k.Queued seq) (hgone : ¬ k'.Queued seq) :
    ∃ s', k'.history.accepted[seq]? = some s' ∧ k'.Dropped seq s' := by
  have hentry : k'.calls[seq]? = some 0 := by
    rw [hcalls, calls, List.getElem?_map, hs, Option.map_some, (h.queued_fresh hs hq).1]
  rw [calls, List.getElem?_map, Option.map_eq_some_iff] at hentry
  obtain ⟨s', hs', hzero⟩ := hentry
  rcases (h'.settled seq s' hs').resolve_left hgone with ⟨hone, -⟩ | ⟨-, haborted⟩
  · rw [hzero] at hone
    cases hone
  · exact ⟨s', hs', hgone, hzero, haborted⟩

/-- An abort drops the submission of its command that is queued. -/
theorem eh_abort_drops (h : k.Valid) {seq : Nat} {s : Submission} (hs : k.history.accepted[seq]? = some s)
    (hq : k.Queued seq) : ∃ s', (k.apply (.eh_abort s.sc)).history.accepted[seq]? = some s' ∧
      (k.apply (.eh_abort s.sc)).Dropped seq s' := by
  obtain ⟨task, ht, rfl⟩ := hq
  obtain ⟨s₁, hs₁⟩ := h.pending task ht
  obtain rfl : s = s₁ := Option.some.inj (hs.symm.trans hs₁.entry)
  have hptr : (k.cmnds s.sc).SCp_ptr = some task := (h.back s.sc task).mpr ⟨ht, hs₁.sc.symm⟩
  have heq : k.apply (.eh_abort s.sc) = hba.abortTask k task := by
    simp only [Hba.apply, scsitap_eh_abort, hptr]
  rw [heq]
  refine h.dropped_of_gone (h.abortTask ht) (Hba.abortTask_calls k task) hs ⟨task, ht, rfl⟩ ?_
  rintro ⟨other, hother, hseq⟩
  have hr := abortTask_removed k task
  rw [queue, hr.queue, h.nodup.mem_erase_iff] at hother
  rw [hr.tasks other hother.1] at hseq
  exact hother.1 (h.seq_injective hother.2 ht hseq)

/-- A reset drops every queued submission. -/
theorem eh_host_reset_drops (h : k.Valid) {seq : Nat} {s : Submission} (hs : k.history.accepted[seq]? = some s)
    (hq : k.Queued seq) : ∃ s', (k.apply .eh_host_reset).history.accepted[seq]? = some s' ∧
      (k.apply .eh_host_reset).Dropped seq s' := by
  obtain ⟨hvalid, hempty⟩ := h.eh_host_reset
  refine h.dropped_of_gone hvalid (foldl_keeps Hba.abortTask_calls k) hs hq ?_
  rintro ⟨task, ht, -⟩
  rw [hempty] at ht
  cases ht

theorem ptr_iff (h : k.Valid) (sc : Addr) :
    (k.cmnds sc).SCp_ptr ≠ none ↔ ∃! task, task ∈ k.queue ∧ (k.tasks task).sc = sc := by
  constructor
  · intro hptr
    obtain ⟨task, htask⟩ := Option.ne_none_iff_exists'.mp hptr
    refine ⟨task, (h.back sc task).mp htask, ?_⟩
    rintro other ⟨hother, hsc⟩
    exact h.sc_injective hother ((h.back sc task).mp htask).1
      (hsc.trans ((h.back sc task).mp htask).2.symm)
  · rintro ⟨task, htask, _⟩
    rw [(h.back sc task).mpr htask]
    exact Option.some_ne_none task

end Valid

/-- Only an accepted submission makes the queue longer. -/
theorem queue_length_apply {k : Hba} (h : k.Valid) (op : Op) (hallowed : k.Allowed op) :
    (k.apply op).queue.length ≤ k.queue.length ∨
      (∃ sc slot, op = .queuecommand sc slot ∧ (k.apply op).queue.length ≤ k.queue.length + 1) := by
  cases op with
  | queuecommand sc slot =>
    refine .inr ⟨sc, slot, rfl, ?_⟩
    change (scsitap_queuecommand k sc slot).2.queue.length ≤ _
    by_cases hready : k.session.flags = .ready
    · cases slot with
      | none =>
        rw [queue, (scsitap_queuecommand_busy k sc hready).2.session]
        exact Nat.le_succ _
      | some task => simp [(scsitap_queuecommand_accepted k sc task hready).2.queue]
    · rw [queue, (scsitap_queuecommand_refused k sc slot hready (h.idle_ptr hallowed.1)).2.session]
      exact Nat.le_succ _
  | eh_abort sc =>
    refine .inl ?_
    change (scsitap_eh_abort k sc).2.queue.length ≤ _
    unfold scsitap_eh_abort
    split
    · exact Nat.le_refl _
    · rename_i task _
      change (hba.abortTask k task).session.scsitap_queue.length ≤ _
      rw [(abortTask_removed k task).queue]
      exact List.length_erase_le
  | eh_host_reset => exact .inl (by simp [apply, h.eh_host_reset.2])
  | write user count =>
    refine .inl ?_
    rcases device.scsitap_ctl_write_cases k user count with hsame | ⟨task, k₁, _, hsame, heq⟩
    · exact Nat.le_of_eq (congrArg List.length hsame.same.queue)
    · have hqueue : (k.apply (.write user count)).queue = k.queue.erase task := by
        simp only [apply, heq, queue, scsitap_complete_task_session, hsame.session]
      rw [hqueue]
      exact List.length_erase_le
  | unregister_client =>
    refine .inl ?_
    change (device.scsitap_ioctl_unregister_client k).2.queue.length ≤ _
    rw [device.scsitap_ioctl_unregister_client_snd]
    rcases h.destroy_session.2 with heq | heq <;> simp [heq]
  | receive_task arg =>
    exact .inl (Nat.le_of_eq (congrArg List.length (device.scsitap_ioctl_receive_task_queue k arg)))
  | prepare sc cmnd mem => exact .inl (Nat.le_refl _)
  | read f_pos user count => exact .inl (Nat.le_refl _)
  | register_client pid => exact .inl (Nat.le_refl _)
  | release => exact .inl (Nat.le_refl _)

/-- A run in which the mid layer respects `can_queue` never has more tasks
queued than that. -/
theorem queue_length_le_canQueue {start k : Hba} {trace : List (Hba × Op)} (hinit : Initial start)
    (hrun : Run Step start trace k) (hsteps : ∀ e ∈ trace, e.1.KeepsCanQueue e.2) :
    k.queue.length ≤ SCSITAP_CANQUEUE := by
  have hinv : k.Valid ∧ k.queue.length ≤ SCSITAP_CANQUEUE := by
    refine hrun.invariant_of_steps (P := fun k => k.Valid ∧ k.queue.length ≤ SCSITAP_CANQUEUE) ?_ ?_ hsteps
    · obtain ⟨id, tasks, cmnds, mem, _, rfl⟩ := id hinit
      exact ⟨.initial hinit, Nat.zero_le _⟩
    · rintro k op k' ⟨hvalid, hlen⟩ hkeeps ⟨_, _, hallowed, rfl⟩
      refine ⟨hvalid.apply op hallowed, ?_⟩
      rcases queue_length_apply hvalid op hallowed with hle | ⟨sc, slot, rfl, hle⟩
      · exact le_trans hle hlen
      · exact le_trans hle hkeeps
  exact hinv.2

/-- Every accepted submission is waiting, completed with one call or dropped
with none, and an abort of its command or a reset drops one that waits; the answers given in the NOT_READY branch are one each and no other
call was made. The counter is the length of the queue, as the 32-bit value it is
stored in, and as a number when the mid layer respects `can_queue`. A command
points at a task exactly when one queued task points at it, and then at that. -/
theorem exactly_once_ledger {start k : Hba} {trace : List (Hba × Op)} (hinit : Initial start)
    (hrun : Run Step start trace k) :
    (∀ seq s, k.history.accepted[seq]? = some s →
      (k.Waiting seq s ∧ ¬ k.Completed seq s ∧ ¬ k.Dropped seq s) ∨
      (¬ k.Waiting seq s ∧ k.Completed seq s ∧ ¬ k.Dropped seq s) ∨
      (¬ k.Waiting seq s ∧ ¬ k.Completed seq s ∧ k.Dropped seq s)) ∧
    (∀ seq s, k.history.accepted[seq]? = some s → k.Waiting seq s → ∀ op k', op = .eh_abort s.sc ∨ op = .eh_host_reset →
      Step k op k' → ∃ s', k'.history.accepted[seq]? = some s' ∧ k'.Dropped seq s') ∧
    (∀ calls ∈ k.history.refused, calls = 1) ∧ k.history.stray = 0 ∧
    k.session.cmd_numbers = UInt32.ofNat k.queue.length ∧
    ((∀ e ∈ trace, e.1.KeepsCanQueue e.2) → k.session.cmd_numbers.toNat = k.queue.length) ∧
    ∀ sc, ((k.cmnds sc).SCp_ptr ≠ none ↔ ∃! task, task ∈ k.queue ∧ (k.tasks task).sc = sc) ∧
      ∀ task, (k.cmnds sc).SCp_ptr = some task → task ∈ k.queue ∧ (k.tasks task).sc = sc := by
  have hvalid : k.Valid := Reachable.valid ⟨start, hinit, trace, hrun⟩
  refine ⟨fun _ _ hs => hvalid.one_condition hs, ?_, hvalid.refused, hvalid.stray, ?_, ?_,
    fun sc => ⟨hvalid.ptr_iff sc, fun task => (hvalid.back sc task).mp⟩⟩
  · rintro seq s hs hwaiting op k' hop ⟨-, -, -, rfl⟩
    rcases hop with rfl | rfl
    · exact hvalid.eh_abort_drops hs hwaiting.1
    · exact hvalid.eh_host_reset_drops hs hwaiting.1
  · apply UInt32.toNat_inj.mp
    rw [hvalid.count, UInt32.toNat_ofNat']
  · intro hsteps
    have hlen := queue_length_le_canQueue hinit hrun hsteps
    rw [hvalid.count, Nat.mod_eq_of_lt]
    simp only [SCSITAP_CANQUEUE] at hlen
    omega

/-- The completion of command 1 with status 0. -/
def completion : UserMem := .mapped fun i => [68, 1, 0, 0, 0, 0].getD i 0

/-- Of two commands the first is completed and the second aborted. -/
theorem exactly_once_ledger_two_commands : twoCommands.session.cmd_numbers = 2 ∧
    ∃ s s', ((twoCommands.apply (.write completion 6)).apply (.eh_abort 1)).history.accepted = [s, s'] ∧
      ((twoCommands.apply (.write completion 6)).apply (.eh_abort 1)).Completed 0 s ∧
      ((twoCommands.apply (.write completion 6)).apply (.eh_abort 1)).Dropped 1 s' := by
  obtain ⟨trace, hrun⟩ := twoCommands_run
  have hwrite : Step twoCommands (.write completion 6) (twoCommands.apply (.write completion 6)) :=
    ⟨rfl, fun _ => rfl, trivial, rfl⟩
  have hrun' := hrun.snoc hwrite
  have habort : Step (twoCommands.apply (.write completion 6)) (.eh_abort 1)
      ((twoCommands.apply (.write completion 6)).apply (.eh_abort 1)) := ⟨rfl, fun _ => rfl, trivial, rfl⟩
  have hqueued : (twoCommands.apply (.write completion 6)).Queued 1 := ⟨9, List.mem_singleton.mpr rfl, rfl⟩
  refine ⟨(exactly_once_ledger fresh_initial hrun).2.2.2.2.1, _, _, rfl, ?_, ?_⟩
  · -- nothing is queued any more, and the first was not aborted
    rcases (exactly_once_ledger fresh_initial (hrun'.snoc habort)).1 0 _ rfl with h | h | h
    · obtain ⟨⟨⟨task, ht, -⟩, -⟩, -⟩ := h
      cases ht
    · exact h.2.1
    · obtain ⟨-, -, -, -, haborted⟩ := h
      cases haborted
  · obtain ⟨s', hs', hdropped⟩ := (exactly_once_ledger fresh_initial hrun').2.1 1 _ rfl ⟨hqueued, rfl, rfl⟩ _ _
      (.inl rfl) habort
    obtain rfl := Option.some.inj hs'
    exact hdropped

end Hba

end vscsi
