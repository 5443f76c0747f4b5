import Vscsi.Kernel.Evolve

open lib

namespace vscsi

open hba device

/-- Numbers repeat only after a full turn of the generator. -/
theorem numberOf_injective_of_close {m n : Nat} (h : numberOf m = numberOf n)
    (hmn : m < n + (2 ^ 32 - 1)) (hnm : n < m + (2 ^ 32 - 1)) : m = n := by
  simp only [numberOf] at h
  omega

namespace Hba

/-- The command that a call has the driver accept: one submitted to a session
that is ready when there is a slot for its task. -/
def accepts (e : Hba × Op) : Option Addr :=
  match e.2 with
  | .queuecommand sc (some _) => if e.1.session.flags = .ready then some sc else none
  | _ => none

/-- What the driver does with a command that it accepts: it returns 0, gives the
command the next number and puts its task at the end of the queue. -/
structure Takes (k : Hba) (sc task : Addr) (k' : Hba) : Prop where
  result : (scsitap_queuecommand k sc (some task)).1 = 0
  accepted : ∃ number : UInt32, number.toNat = 1 + k.history.accepted.length % (2 ^ 32 - 1) ∧
    k'.history.accepted = k.history.accepted ++ [{ sc, cmd_number := number, done_calls := 0, aborted := false }] ∧
    (k'.tasks task).cmd_number = number
  queue : k'.queue = k.queue ++ [task]
  sc : (k'.tasks task).sc = sc
  others : ∀ t ∈ k.queue, k'.tasks t = k.tasks t

/-- Every queued task is among the last `2 ^ 32 - 1` accepted commands. -/
def WithinTurn (k : Hba) : Prop :=
  ∀ task ∈ k.queue, k.history.accepted.length ≤ (k.tasks task).seq + (2 ^ 32 - 1)

/-- Calls that name `number` leave the queue and every task alone: a completion
changes nothing at all, a claim at most takes the lock of a session that is not
ready, and a data read stores nothing. -/
structure Harmless (k : Hba) (number : UInt32) : Prop where
  write : ∀ user count, get_user user 0 = 68 → copy_from_user user 1 4 = le32 number →
    (scsitap_ctl_write k user count).2 = k
  receive : ∀ arg, UInt32.ofNat arg = number →
    (scsitap_ioctl_receive_task k arg).2.queue = k.queue ∧
      (scsitap_ioctl_receive_task k arg).2.tasks = k.tasks
  read : ∀ f_pos user count, UInt32.ofNat f_pos = number → SCSITAP_UHEADER_SIZE < count →
    (scsitap_ctl_read k f_pos user count).2 = user ∧ (scsitap_ctl_read k f_pos user count).1 ≤ 0

theorem harmless_of_task_of_cmd {k : Hba} {number : UInt32} (h : task_of_cmd k number = none) :
    k.Harmless number := by
  constructor
  · intro user count htype hbytes
    unfold scsitap_ctl_write
    split
    · rfl
    · simp [hbytes, h]
  · intro arg harg
    unfold scsitap_ioctl_receive_task
    split
    · exact ⟨rfl, rfl⟩
    · rw [harg, h]
      exact ⟨rfl, rfl⟩
  · intro f_pos user count hpos hcount
    unfold scsitap_ctl_read
    split
    · exact ⟨rfl, by simp [EINVAL]⟩
    · have hdata : count ≠ SCSITAP_UHEADER_SIZE := Nat.ne_of_gt hcount
      simp only [if_neg hdata, hpos, h]
      exact ⟨trivial, Int.le_refl 0⟩

namespace Valid

variable {k : Hba}

theorem takes (h : k.Valid) {sc task : Addr} {k' : Hba} (hready : k.session.flags = .ready)
    (hstep : Step k (.queuecommand sc (some task)) k') : k.Takes sc task k' := by
  obtain ⟨-, -, hallowed, rfl⟩ := hstep
  obtain ⟨hresult, ha⟩ := scsitap_queuecommand_accepted k sc task hready
  have htask : (k.apply (.queuecommand sc (some task))).tasks task = newTask k sc := by
    rw [Hba.apply, ha.tasks, Function.update_self]
  refine ⟨hresult, ⟨nextNumber k, h.nextNumber_toNat, by rw [Hba.apply, ha.history, History.accept], by rw [htask, newTask]⟩,
    ha.queue, by rw [htask, newTask], fun t ht => ?_⟩
  rw [Hba.apply, ha.tasks, Function.update_of_ne]
  rintro rfl
  exact hallowed.2 t rfl ht

/-- A call adds to the accepted commands the one that it has the driver accept. -/
theorem apply_commands (h : k.Valid) {op : Op} (hallowed : k.Allowed op) :
    (k.apply op).history.commands = k.history.commands ++ (accepts (k, op)).toList := by
  by_cases hop : ∃ sc slot, op = .queuecommand sc slot
  · obtain ⟨sc, slot, rfl⟩ := hop
    by_cases hready : k.session.flags = .ready
    · cases slot with
      | none =>
        rw [Hba.apply, History.commands, (scsitap_queuecommand_busy k sc hready).2.accepted]
        exact (List.append_nil _).symm
      | some task =>
        rw [Hba.apply, (scsitap_queuecommand_accepted k sc task hready).2.history]
        simp [accepts, hready, History.commands, History.accept]
    · have hrefused := (scsitap_queuecommand_refused k sc slot hready (h.idle_ptr hallowed.1)).2.accepted
      rw [Hba.apply, History.commands, hrefused]
      cases slot <;> simp [accepts, hready, History.commands]
  · have hother : ∀ sc slot, op ≠ .queuecommand sc slot := fun sc slot heq => hop ⟨sc, slot, heq⟩
    rw [(h.apply_evolves hallowed hother).commands]
    cases op with
    | queuecommand sc slot => exact absurd rfl (hother sc slot)
    | _ => exact (List.append_nil _).symm

theorem queued_number (h : k.Valid) {task : Addr} (ht : task ∈ k.queue) :
    (k.tasks task).cmd_number.toNat = numberOf (k.tasks task).seq := by
  obtain ⟨s, hs⟩ := h.pending task ht
  rw [← hs.number]
  exact h.numbers _ s hs.entry

theorem number_injective (h : k.Valid) (hturn : k.WithinTurn) {t u : Addr} (ht : t ∈ k.queue)
    (hu : u ∈ k.queue) (heq : (k.tasks t).cmd_number = (k.tasks u).cmd_number) : t = u := by
  apply h.seq_injective ht hu
  have hnumbers : numberOf (k.tasks t).seq = numberOf (k.tasks u).seq := by
    rw [← h.queued_number ht, ← h.queued_number hu, heq]
  have hrecent := hturn t ht
  have hrecent' := hturn u hu
  have hlt := h.seq_lt ht
  have hlt' := h.seq_lt hu
  exact numberOf_injective_of_close hnumbers (by omega) (by omega)

theorem task_of_cmd_iff (h : k.Valid) (hturn : k.WithinTurn) (number : UInt32) (task : Addr) :
    task_of_cmd k number = some task ↔ task ∈ k.queue ∧ (k.tasks task).cmd_number = number := by
  refine ⟨task_of_cmd_some, ?_⟩
  rintro ⟨ht, hnumber⟩
  cases hfound : task_of_cmd k number with
  | none => exact absurd hnumber (task_of_cmd_eq_none.mp hfound task ht)
  | some other =>
    obtain ⟨hother, hsame⟩ := task_of_cmd_some hfound
    rw [h.number_injective hturn hother ht (hsame.trans hnumber.symm)]

/-- The number of a command that left the queue belongs to no task, unless a
later command was given it too. -/
theorem harmless_of_removed (h : k.Valid) (hturn : k.WithinTurn) {n : Nat} {s : Submission}
    (hs : k.history.accepted[n]? = some s)
    (hlast : ∀ m s', n < m → k.history.accepted[m]? = some s' → s'.cmd_number ≠ s.cmd_number)
    (hgone : ¬ k.Queued n) : k.Harmless s.cmd_number := by
  apply harmless_of_task_of_cmd
  rw [task_of_cmd_eq_none]
  intro task ht heq
  obtain ⟨s', hs'⟩ := h.pending task ht
  rcases lt_trichotomy n (k.tasks task).seq with hlater | hsame | hearlier
  · exact hlast _ s' hlater hs'.entry (hs'.number.trans heq)
  · exact hgone ⟨task, ht, hsame.symm⟩
  · have hnumbers : numberOf n = numberOf (k.tasks task).seq := by
      rw [← h.queued_number ht, heq, h.numbers n s hs]
    have hn := (List.getElem?_eq_some_iff.mp hs).1
    have hrecent := hturn task ht
    have := numberOf_injective_of_close hnumbers (by omega) (by omega)
    omega

end Valid

/-- The accepted commands of a run are those its calls had the driver accept. -/
theorem run_commands {start k : Hba} {trace : List (Hba × Op)} (hinit : Initial start) (hrun : Run Step start trace k) :
    k.history.commands = trace.filterMap accepts := by
  induction hrun with
  | nil =>
    obtain ⟨_, _, _, _, -, rfl⟩ := id hinit
    rfl
  | @snoc trace k next op run hstep ih =>
    have hvalid : k.Valid := Reachable.valid ⟨start, hinit, trace, run⟩
    obtain ⟨-, -, hallowed, rfl⟩ := hstep
    rw [hvalid.apply_commands hallowed, ih, List.filterMap_append]
    cases haccepts : accepts (k, op) <;> simp [haccepts]

/-- The accepted commands of a run are those submitted to the ready session with a
slot, in order, and the `n`-th of them is numbered `1 + n mod (2 ^ 32 - 1)`. The
next one is taken: it is answered 0, numbered and queued at the end. While all
queued tasks are recent, their numbers differ, the queue is in acceptance order,
the lookup finds the task with the number or none, and a number whose last
command left the queue, like one that no queued task has, names nothing. -/
theorem command_numbers_identify_tasks {start k : Hba} {trace : List (Hba × Op)} (hinit : Initial start)
    (hrun : Run Step start trace k) :
    k.history.commands = trace.filterMap accepts ∧
    (∀ n s, k.history.accepted[n]? = some s →
      s.cmd_number.toNat = 1 + n % (2 ^ 32 - 1) ∧ s.cmd_number ≠ 0) ∧
    (∀ sc task k', k.session.flags = .ready → Step k (.queuecommand sc (some task)) k' → k.Takes sc task k') ∧
    (∀ task ∈ k.queue, ∃ s, k.history.accepted[(k.tasks task).seq]? = some s ∧
      s.sc = (k.tasks task).sc ∧ s.cmd_number = (k.tasks task).cmd_number) ∧
    (k.WithinTurn →
      (k.queue.map fun task => (k.tasks task).cmd_number).Nodup ∧
      (k.queue.Pairwise fun t u => (k.tasks t).seq < (k.tasks u).seq) ∧
      (∀ number task, task_of_cmd k number = some task ↔
        task ∈ k.queue ∧ (k.tasks task).cmd_number = number) ∧
      (∀ n s, k.history.accepted[n]? = some s →
        (∀ m s', n < m → k.history.accepted[m]? = some s' → s'.cmd_number ≠ s.cmd_number) →
        ¬ k.Queued n → k.Harmless s.cmd_number) ∧
      ∀ number, (∀ task ∈ k.queue, (k.tasks task).cmd_number ≠ number) → k.Harmless number) := by
  have hvalid : k.Valid := Reachable.valid ⟨start, hinit, trace, hrun⟩
  refine ⟨run_commands hinit hrun, ?_, fun sc task k' => hvalid.takes, ?_,
    fun hturn => ⟨?_, hvalid.order, hvalid.task_of_cmd_iff hturn, fun n s hs => hvalid.harmless_of_removed hturn hs, ?_⟩⟩
  · intro n s hs
    have hnumber := hvalid.numbers n s hs
    refine ⟨hnumber, fun hzero => ?_⟩
    rw [hzero, numberOf] at hnumber
    simp only [UInt32.toNat_zero] at hnumber
    omega
  · intro task ht
    obtain ⟨s, hs⟩ := hvalid.pending task ht
    exact ⟨s, hs.entry, hs.sc, hs.number⟩
  · exact hvalid.nodup.map_on fun t ht u hu => hvalid.number_injective hturn ht hu
  · intro number hnone
    exact harmless_of_task_of_cmd (task_of_cmd_eq_none.mpr hnone)

/-- Two commands are numbered 1 and 2; when the first is aborted, the second is
the one that is found, and the number of the first names nothing. -/
theorem command_numbers_identify_tasks_two_commands :
    oneCommand.Takes 1 9 twoCommands ∧ (twoCommands.apply (.eh_abort 0)).history.commands = [0, 1] ∧
      task_of_cmd (twoCommands.apply (.eh_abort 0)) 2 = some 9 ∧ (twoCommands.apply (.eh_abort 0)).Harmless 1 := by
  have hrun := ((Run.nil.snoc register_step).snoc register_step').snoc oneCommand_step
  have habort : Step twoCommands (.eh_abort 0) (twoCommands.apply (.eh_abort 0)) := ⟨rfl, fun _ => rfl, trivial, rfl⟩
  have hrun' := (hrun.snoc twoCommands_step).snoc habort
  have hqueue : ∀ task ∈ (twoCommands.apply (.eh_abort 0)).queue, task = 9 := fun task ht => List.mem_singleton.mp ht
  have hturn : (twoCommands.apply (.eh_abort 0)).WithinTurn := by
    intro task ht
    rw [hqueue task ht]
    decide
  obtain ⟨hcommands, -, -, -, hrecent⟩ := command_numbers_identify_tasks fresh_initial hrun'
  obtain ⟨-, -, hlookup, hremoved, -⟩ := hrecent hturn
  refine ⟨(command_numbers_identify_tasks fresh_initial hrun).2.2.1 _ _ _ rfl twoCommands_step, hcommands.trans rfl,
    (hlookup 2 9).mpr ⟨List.mem_singleton.mpr rfl, rfl⟩, hremoved 0 _ rfl (fun m s hm hs => ?_) ?_⟩
  · obtain rfl : m = 1 := by
      have hlt : m < 2 := (List.getElem?_eq_some_iff.mp hs).1
      omega
    obtain rfl := Option.some.inj hs
    decide
  · rintro ⟨task, ht, hseq⟩
    rw [hqueue task ht] at hseq
    cases hseq

end Hba

end vscsi
