import Vscsi.Target.Exchange
import Vscsi.Kernel.Ledger
import Vscsi.Kernel.Numbers

open lib

namespace vscsi

open hba device api

/-- A command whose header the target has read, and how many commands had been
accepted then. -/
structure Served where
  seq : Nat
  cmd_number : UInt32
  accepted : Nat

/-- A session with a single target, which calls nothing but `get_scsi_task`,
`receive_scsi_data` and `complete_scsi_task`. `reading` is what a call of
`get_scsi_task` has read, up to its ioctl, and `returned` lists the commands for
which the calls returned 0. -/
structure Service where
  hba : Hba
  reading : Option (UserScsitapTask × Served)
  returned : List Served

/-- A call of the mid layer, or a step of the target. A completion names a
command that has been returned, or none when the task has never been used. -/
inductive ServiceOp where
  | midlayer (op : Op)
  | header (task : UserScsitapTask)
  | claim
  | receive (task : UserScsitapTask)
  | complete (named : Option Served) (task : UserScsitapTask)

namespace Service

/-- The positions of the commands returned so far, in order. -/
def commands (s : Service) : List Nat := s.returned.map (·.seq)

def Step (s : Service) : ServiceOp → Service → Prop
  | .midlayer op, s' => op.MidLayer ∧ ∃ hba, s.hba.Step op hba ∧ s' = { s with hba }
  | .header task, s' =>
    s.hba.session.scsitap_queue_lock = false ∧ s.reading = none ∧
      match get_scsi_task_header s.hba 0 task with
      | .returned _ => s' = s
      | .offered task => ∃ addr, offer s.hba = some addr ∧ s' = { s with
          reading := some (task, {
            seq := (s.hba.tasks addr).seq
            cmd_number := task.cmd_number
            accepted := s.hba.history.accepted.length }) }
      | .overrun => False
  | .claim, s' =>
    s.hba.session.scsitap_queue_lock = false ∧ ∃ task served, s.reading = some (task, served) ∧
      s' = {
        hba := (get_scsi_task_claim s.hba task).2
        reading := none
        returned := if (get_scsi_task_claim s.hba task).1 = 0 then s.returned ++ [served] else s.returned }
  | .receive _, s' => s.hba.session.scsitap_queue_lock = false ∧ s' = s
  | .complete named task, s' =>
    s.hba.session.scsitap_queue_lock = false ∧
      (match named with
        | some served => served ∈ s.returned ∧ task.cmd_number = served.cmd_number
        | none => task.cmd_number = 0) ∧
      s' = { s with hba := (complete_scsi_task s.hba task).2.1 }

/-- A session just created, with which the target has registered. -/
def Initial (s : Service) : Prop :=
  (∃ k pid, Hba.Initial k ∧ s.hba = k.apply (.register_client pid)) ∧ s.reading = none ∧ s.returned = []

/-- The command is gone through an abort or a reset. -/
def Dropped (s : Service) (seq : Nat) : Prop :=
  ∃ sub, s.hba.history.accepted[seq]? = some sub ∧ s.hba.Dropped seq sub

/-- Commands are returned in the order they were accepted in, and none is left
out that has not been dropped. -/
structure InOrder (s : Service) : Prop where
  increasing : s.commands.Pairwise (· < ·)
  complete : ∀ n ∈ s.commands, ∀ m < n, m ∈ s.commands ∨ s.Dropped m

/-- When the target names a command, no command still queued and not the one it
names has been overtaken by a full turn of the numbers. -/
def Recent (s : Service) : ServiceOp → Prop
  | .claim => s.hba.WithinTurn ∧ ∀ task served, s.reading = some (task, served) →
      s.hba.history.accepted.length ≤ served.seq + (2 ^ 32 - 1)
  | .complete named _ => s.hba.WithinTurn ∧ ∀ served, named = some served →
      s.hba.history.accepted.length ≤ served.seq + (2 ^ 32 - 1)
  | _ => True

end Service

namespace Hba

/-- Tasks were only taken out, and `P` holds of the submissions of those. -/
structure Removes (P : Nat → Submission → Prop) (k k' : Hba) : Prop where
  kept : ∀ task ∈ k'.queue, task ∈ k.queue ∧ k'.tasks task = k.tasks task
  gone : ∀ m sub, k'.history.accepted[m]? = some sub → ¬ k'.Queued m →
    P m sub ∨ (¬ k.Queued m ∧ k.history.accepted[m]? = some sub)
  length : k'.history.accepted.length = k.history.accepted.length

variable {P : Nat → Submission → Prop} {k k' k'' : Hba}

/-- Nothing was taken out. -/
theorem Removes.of_same (hqueue : k'.queue = k.queue) (htasks : k'.tasks = k.tasks)
    (haccepted : k'.history.accepted = k.history.accepted) : Removes P k k' where
  kept task ht := by
    rw [hqueue] at ht
    rw [htasks]
    exact ⟨ht, rfl⟩
  gone m sub hsub hgone := by
    rw [haccepted] at hsub
    rw [Queued, hqueue, htasks] at hgone
    exact .inr ⟨hgone, hsub⟩
  length := by rw [haccepted]

theorem Removes.trans (h : Removes P k k') (h' : Removes P k' k'') : Removes P k k'' where
  kept task ht := by
    obtain ⟨hmiddle, hsame⟩ := h'.kept task ht
    obtain ⟨hold, hsame'⟩ := h.kept task hmiddle
    exact ⟨hold, hsame.trans hsame'⟩
  gone m sub hsub hgone := by
    rcases h'.gone m sub hsub hgone with hlast | ⟨hgone', hsub'⟩
    · exact .inl hlast
    · exact h.gone m sub hsub' hgone'
  length := h'.length.trans h.length

theorem Removes.removed (hvalid : k.Valid) {task : Addr} {f : Submission → Submission} (hr : Removed k task f k')
    (hP : ∀ sub, P (k.tasks task).seq (f sub)) : Removes P k k' where
  kept t ht := by
    rw [queue, hr.queue] at ht
    obtain ⟨hne, hold⟩ := hvalid.nodup.mem_erase_iff.mp ht
    exact ⟨hold, hr.tasks t hne⟩
  gone m sub hsub hgone := by
    rw [hr.accepted] at hsub
    by_cases heq : (k.tasks task).seq = m
    · subst heq
      rw [List.getElem?_modify_eq] at hsub
      obtain ⟨sub', -, rfl⟩ := Option.map_eq_some_iff.mp hsub
      exact .inl (hP sub')
    · rw [List.getElem?_modify_ne _ _ heq] at hsub
      refine .inr ⟨?_, hsub⟩
      rintro ⟨t, ht, rfl⟩
      have hne : t ≠ task := fun hsame => heq (by rw [hsame])
      refine hgone ⟨t, ?_, by rw [hr.tasks t hne]⟩
      rw [queue, hr.queue]
      exact hvalid.nodup.mem_erase_iff.mpr ⟨hne, ht⟩
  length := by rw [hr.accepted, List.length_modify]

/-- What the mid layer takes out it has aborted. -/
theorem Removes.eh_host_reset (hvalid : k.Valid) :
    Removes (fun _ sub => sub.aborted = true) k (scsitap_eh_host_reset k).2 := by
  unfold scsitap_eh_host_reset
  generalize hqueue : k.session.scsitap_queue = tasks
  induction tasks generalizing k with
  | nil => exact .of_same rfl rfl rfl
  | cons task tasks ih =>
    have ht : task ∈ k.queue := by simp [queue, hqueue]
    have hremoved := abortTask_removed k task
    refine (Removes.removed hvalid hremoved fun _ => rfl).trans (ih (hvalid.abortTask ht) ?_)
    rw [hremoved.queue, hqueue, List.erase_cons_head]

theorem Removes.eh_abort (hvalid : k.Valid) (sc : Addr) :
    Removes (fun _ sub => sub.aborted = true) k (scsitap_eh_abort k sc).2 := by
  unfold scsitap_eh_abort
  cases (k.cmnds sc).SCp_ptr with
  | none => exact .of_same rfl rfl rfl
  | some task => exact .removed hvalid (abortTask_removed k task) fun _ => rfl

/-- A completion takes out the task with the number, if there is one. -/
theorem ctl_write_removes (hvalid : k.Valid) (user : UserMem) (count : Nat) :
    Removes (fun _ _ => False) k (scsitap_ctl_write k user count).2 ∨
      ∃ task, task_of_cmd k (unle32 (copy_from_user user 1 4)) = some task ∧
        Removes (fun m _ => m = (k.tasks task).seq) k (scsitap_ctl_write k user count).2 := by
  rcases scsitap_ctl_write_cases k user count with hsame | ⟨task, k₁, hfound, hsame, heq⟩
  · exact .inl (.of_same hsame.same.queue hsame.tasks (by rw [hsame.history]))
  · refine .inr ⟨task, hfound, ?_⟩
    have hfirst : Removes (fun m _ => m = (k.tasks task).seq) k k₁ :=
      .of_same hsame.same.queue hsame.tasks (by rw [hsame.history])
    have hvalid₁ := hvalid.same hsame.same
    have ht : task ∈ k₁.queue := by
      rw [hsame.same.queue]
      exact (task_of_cmd_some hfound).1
    obtain ⟨s, hs⟩ := hvalid₁.pending task ht
    have hflags : (k₁.tasks task).flags ≠ .aborted := by
      rcases hvalid₁.live task ht with hlive | hlive <;> rw [hlive] <;> decide
    have horigin := hs.origin
    rw [hs.sc] at horigin
    rw [heq]
    exact hfirst.trans (.removed hvalid₁ (scsitap_complete_task_removed k₁ task hflags horigin)
      fun _ => by rw [hsame.tasks])

end Hba

namespace Service

/-- What holds while the target is between the two calls of `get_scsi_task`. -/
structure Reading (s : Service) (task : UserScsitapTask) (served : Served) : Prop where
  named : task.cmd_number = served.cmd_number
  number : served.cmd_number.toNat = numberOf served.seq
  accepted : served.seq < s.hba.history.accepted.length
  later : ∀ n ∈ s.commands, n < served.seq
  first : ∀ t ∈ s.hba.queue, (s.hba.tasks t).flags = .submitted → served.seq ≤ (s.hba.tasks t).seq

/-- The queue is a part that has been returned followed by a part that has not,
and whatever has left it was returned or aborted. -/
structure Ordered (s : Service) : Prop where
  valid : s.hba.Valid
  serving : s.hba.Serving
  increasing : s.commands.Pairwise (· < ·)
  accepted : ∀ n ∈ s.commands, n < s.hba.history.accepted.length
  number : ∀ served ∈ s.returned, served.cmd_number.toNat = numberOf served.seq
  submitted : ∀ t ∈ s.hba.queue, (s.hba.tasks t).flags = .submitted → ∀ n ∈ s.commands, n < (s.hba.tasks t).seq
  received : ∀ t ∈ s.hba.queue, (s.hba.tasks t).flags = .received → (s.hba.tasks t).seq ∈ s.commands
  settled : ∀ m sub, s.hba.history.accepted[m]? = some sub → ¬ s.hba.Queued m → m ∈ s.commands ∨ sub.aborted = true
  reading : ∀ task served, s.reading = some (task, served) → s.Reading task served

variable {s s' : Service}

theorem Ordered.initial (h : s.Initial) : s.Ordered := by
  obtain ⟨⟨k, pid, hinit, hhba⟩, hreading, hreturned⟩ := h
  have hvalid := Hba.Valid.initial hinit
  obtain ⟨id, tasks, cmnds, mem, -, rfl⟩ := hinit
  have hqueue : s.hba.queue = [] := by rw [hhba]; rfl
  have haccepted : s.hba.history.accepted = [] := by rw [hhba]; rfl
  have hcommands : s.commands = [] := by simp [commands, hreturned]
  constructor
  · rw [hhba]
    exact hvalid.apply (.register_client pid) trivial
  · rw [hhba]
    exact ⟨rfl, rfl, rfl⟩
  all_goals simp [hqueue, haccepted, hcommands, hreturned, hreading]

/-- A queue in order has no gap before a returned command. -/
theorem Ordered.inOrder (h : s.Ordered) : s.InOrder where
  increasing := h.increasing
  complete n hn m hlt := by
    have hm : m < s.hba.history.accepted.length := Nat.lt_trans hlt (h.accepted n hn)
    have hsub := List.getElem?_eq_getElem hm
    by_cases hqueued : s.hba.Queued m
    · obtain ⟨t, ht, rfl⟩ := hqueued
      rcases h.valid.live t ht with hflags | hflags
      · exact absurd hlt (Nat.lt_asymm (h.submitted t ht hflags n hn))
      · exact .inl (h.received t ht hflags)
    · rcases h.settled m _ hsub hqueued with hreturned | haborted
      · exact .inl hreturned
      · refine .inr ⟨_, hsub, hqueued, ?_, haborted⟩
        rcases (h.valid.settled m _ hsub).resolve_left hqueued with ⟨-, hnot⟩ | ⟨hcalls, -⟩
        · rw [haborted] at hnot
          cases hnot
        · exact hcalls

/-- Tasks that have been returned or are aborted leave the queue. -/
theorem Ordered.removes (h : s.Ordered) {P : Nat → Submission → Prop} {hba : Hba} (hvalid : hba.Valid)
    (hserving : hba.Serving) (hremoves : Hba.Removes P s.hba hba)
    (hP : ∀ m sub, P m sub → m ∈ s.commands ∨ sub.aborted = true) : Ordered { s with hba } where
  valid := hvalid
  serving := hserving
  increasing := h.increasing
  accepted n hn := by
    rw [hremoves.length]
    exact h.accepted n hn
  number := h.number
  submitted t ht hflags n hn := by
    obtain ⟨hold, hsame⟩ := hremoves.kept t ht
    simp only [hsame] at hflags ⊢
    exact h.submitted t hold hflags n hn
  received t ht hflags := by
    obtain ⟨hold, hsame⟩ := hremoves.kept t ht
    simp only [hsame] at hflags ⊢
    exact h.received t hold hflags
  settled m sub hsub hgone := by
    rcases hremoves.gone m sub hsub hgone with hnow | ⟨hbefore, hsub'⟩
    · exact hP m sub hnow
    · exact h.settled m sub hsub' hbefore
  reading task served hreading := by
    have hold := h.reading task served hreading
    refine ⟨hold.named, hold.number, ?_, hold.later, fun t ht hflags => ?_⟩
    · rw [hremoves.length]
      exact hold.accepted
    · obtain ⟨hqueued, hsame⟩ := hremoves.kept t ht
      simp only [hsame] at hflags ⊢
      exact hold.first t hqueued hflags

/-- A command just accepted comes after all the others. -/
theorem Ordered.accepts (h : s.Ordered) {sc task : Addr} {hba : Hba} (hvalid : hba.Valid) (hserving : hba.Serving)
    (hfresh : task ∉ s.hba.queue) (ha : Accepted s.hba sc task hba) : Ordered { s with hba } := by
  have hlength : hba.history.accepted.length = s.hba.history.accepted.length + 1 := by
    rw [ha.history, History.accept, List.length_append]
    rfl
  have hqueue : ∀ t ∈ hba.queue, (t ∈ s.hba.queue ∧ hba.tasks t = s.hba.tasks t) ∨ hba.tasks t = newTask s.hba sc := by
    intro t ht
    rw [ha.queue] at ht
    rw [ha.tasks]
    by_cases heq : t = task
    · subst heq
      exact .inr (Function.update_self ..)
    · have hold : t ∈ s.hba.queue := by simpa [heq] using ht
      exact .inl ⟨hold, Function.update_of_ne heq ..⟩
  constructor
  · exact hvalid
  · exact hserving
  · exact h.increasing
  · intro n hn
    rw [hlength]
    exact Nat.lt_succ_of_lt (h.accepted n hn)
  · exact h.number
  · intro t ht hflags n hn
    rcases hqueue t ht with ⟨hold, hsame⟩ | hnew
    · simp only [hsame] at hflags ⊢
      exact h.submitted t hold hflags n hn
    · simp only [hnew]
      exact h.accepted n hn
  · intro t ht hflags
    rcases hqueue t ht with ⟨hold, hsame⟩ | hnew
    · simp only [hsame] at hflags ⊢
      exact h.received t hold hflags
    · simp [hnew, newTask] at hflags
  · intro m sub hsub hgone
    have hm : m < s.hba.history.accepted.length := by
      by_contra hnot
      have hlt := (List.getElem?_eq_some_iff.mp hsub).1
      have hm : m = s.hba.history.accepted.length := by
        simp only [hlength] at hlt
        omega
      refine hgone ⟨task, ?_, ?_⟩
      · simp [ha.queue]
      · simp only [ha.tasks, Function.update_self, newTask]
        exact hm.symm
    have hsub' : s.hba.history.accepted[m]? = some sub := by
      simp only [ha.history, History.accept, List.getElem?_append_left hm] at hsub
      exact hsub
    refine h.settled m sub hsub' ?_
    rintro ⟨t, ht, rfl⟩
    have hne : t ≠ task := fun heq => hfresh (heq ▸ ht)
    refine hgone ⟨t, ?_, ?_⟩
    · simp [ha.queue, ht]
    · simp [ha.tasks, hne]
  · intro task' served hreading
    have hold := h.reading task' served hreading
    refine ⟨hold.named, hold.number, ?_, hold.later, fun t ht hflags => ?_⟩
    · rw [hlength]
      exact Nat.lt_succ_of_lt hold.accepted
    · rcases hqueue t ht with ⟨hqueued, hsame⟩ | hnew
      · simp only [hsame] at hflags ⊢
        exact hold.first t hqueued hflags
      · simp only [hnew]
        exact Nat.le_of_lt hold.accepted

/-- Among the tasks that can be offered, the first is the one accepted first. -/
theorem offer_first {k : Hba} (hvalid : k.Valid) {addr : Addr} (hoffer : offer k = some addr) {t : Addr}
    (ht : t ∈ k.queue) (hflags : (k.tasks t).flags = .submitted) : (k.tasks addr).seq ≤ (k.tasks t).seq := by
  obtain ⟨-, before, after, hqueue, hbefore⟩ := List.find?_eq_some_iff_append.mp hoffer
  have horder := hvalid.order
  rw [Hba.queue, hqueue] at ht horder
  rcases List.mem_append.mp ht with hearlier | hlater
  · have hnot := hbefore t hearlier
    simp [hflags] at hnot
  · rcases List.mem_cons.mp hlater with rfl | hlater
    · exact Nat.le_refl _
    · have hpairs := (List.pairwise_append.mp horder).2.1
      exact Nat.le_of_lt ((List.pairwise_cons.mp hpairs).1 t hlater)

theorem Ordered.midlayer (h : s.Ordered) {op : Op} (hop : op.MidLayer) {hba : Hba} (hstep : s.hba.Step op hba) :
    Ordered { s with hba } := by
  obtain ⟨-, -, hallowed, rfl⟩ := hstep
  have hvalid := h.valid.apply op hallowed
  have hquiet : op.Quiet := by cases op <;> trivial
  have hserving := h.serving.apply hquiet
  cases op with
  | prepare sc cmnd mem => exact h.removes (P := fun _ _ => False) hvalid hserving (.of_same rfl rfl rfl) fun _ _ => False.elim
  | queuecommand sc slot =>
    cases slot with
    | none =>
      have ha := (scsitap_queuecommand_busy s.hba sc h.serving.ready).2
      have hqueue : (scsitap_queuecommand s.hba sc none).2.queue = s.hba.queue := by rw [Hba.queue, ha.session]
      exact h.removes (P := fun _ _ => False) hvalid hserving (.of_same hqueue ha.tasks ha.accepted) fun _ _ => False.elim
    | some task =>
      have ha := (scsitap_queuecommand_accepted s.hba sc task h.serving.ready).2
      exact h.accepts hvalid hserving (hallowed.2 task rfl) ha
  | eh_abort sc => exact h.removes hvalid hserving (.eh_abort h.valid sc) fun _ _ => .inr
  | eh_host_reset => exact h.removes hvalid hserving (.eh_host_reset h.valid) fun _ _ => .inr
  | _ => exact hop.elim

theorem Ordered.header (h : s.Ordered) {task : UserScsitapTask} (hstep : s.Step (.header task) s') : s'.Ordered := by
  obtain ⟨-, hnone, hresult⟩ := hstep
  split at hresult
  · rw [hresult]
    exact h
  · rename_i task' htask
    obtain ⟨addr, hoffer, rfl⟩ := hresult
    obtain ⟨-, addr', hoffer', -, rfl⟩ := get_scsi_task_header_offered htask
    obtain rfl : addr' = addr := Option.some.inj (hoffer'.symm.trans hoffer)
    obtain ⟨hqueued, hflags⟩ := offer_some hoffer
    refine ⟨h.valid, h.serving, h.increasing, h.accepted, h.number, h.submitted, h.received, h.settled, ?_⟩
    rintro task'' served hreading
    obtain ⟨rfl, rfl⟩ := Prod.mk.inj (Option.some.inj hreading)
    exact ⟨rfl, h.valid.queued_number hqueued, h.valid.seq_lt hqueued, h.submitted addr' hqueued hflags,
      fun t ht hsubmitted => offer_first h.valid hoffer ht hsubmitted⟩
  · exact hresult.elim

/-- While the numbers have not made a turn, a queued task with the number of a
command is the task of that command. -/
theorem seq_of_number {k : Hba} (hvalid : k.Valid) (hturn : k.WithinTurn) {addr : Addr} (haddr : addr ∈ k.queue)
    {seq : Nat} (haccepted : seq < k.history.accepted.length)
    (hrecent : k.history.accepted.length ≤ seq + (2 ^ 32 - 1))
    (hnumber : (k.tasks addr).cmd_number.toNat = numberOf seq) : (k.tasks addr).seq = seq := by
  rw [hvalid.queued_number haddr] at hnumber
  have hlt := hvalid.seq_lt haddr
  have hwithin := hturn addr haddr
  exact numberOf_injective_of_close hnumber (by omega) (by omega)

theorem Ordered.claim (h : s.Ordered) (hrecent : s.Recent .claim) (hstep : s.Step .claim s') : s'.Ordered := by
  obtain ⟨-, task, served, hreading, rfl⟩ := hstep
  obtain ⟨hturn, hnamed⟩ := hrecent
  have hread := h.reading task served hreading
  have hvalid := h.valid.receive_task task.cmd_number.toNat
  rw [← get_scsi_task_claim_snd] at hvalid
  obtain ⟨hzero, hsession⟩ := get_scsi_task_claim_succeeds h.serving.ready task
  have hserving := h.serving.same (.of_session hsession)
  have hqueue : (get_scsi_task_claim s.hba task).2.queue = s.hba.queue := congrArg ScsitapSession.scsitap_queue hsession
  -- the task that is claimed, if any, is that of the command whose header was read
  have htasks : ∀ t ∈ s.hba.queue, ((get_scsi_task_claim s.hba task).2.tasks t).seq = (s.hba.tasks t).seq ∧
      ((s.hba.tasks t).seq = served.seq → ((get_scsi_task_claim s.hba task).2.tasks t).flags ≠ .submitted) ∧
      ((s.hba.tasks t).seq ≠ served.seq →
        ((get_scsi_task_claim s.hba task).2.tasks t).flags = (s.hba.tasks t).flags) := by
    intro t ht
    rw [get_scsi_task_claim_eq h.serving.ready]
    cases hfound : task_of_cmd s.hba task.cmd_number with
    | none =>
      refine ⟨rfl, fun hseq => ?_, fun _ => rfl⟩
      have hnumber := h.valid.queued_number ht
      rw [hseq, ← hread.number, ← hread.named] at hnumber
      exact absurd (UInt32.toNat_inj.mp hnumber) (task_of_cmd_eq_none.mp hfound t ht)
    | some addr =>
      obtain ⟨haddr, hnumber⟩ := task_of_cmd_some hfound
      have hseq : (s.hba.tasks addr).seq = served.seq := by
        refine seq_of_number h.valid hturn haddr hread.accepted (hnamed task served hreading) ?_
        rw [hnumber, hread.named, hread.number]
      by_cases heq : t = addr
      · subst heq
        exact ⟨by simp, fun _ => by simp, fun hne => absurd hseq hne⟩
      · have hother := Hba.setFlags_of_ne s.hba addr .received heq
        have hne : (s.hba.tasks t).seq ≠ served.seq := fun hsame =>
          heq (h.valid.seq_injective ht haddr (hsame.trans hseq.symm))
        exact ⟨by simp [hother], fun hsame => absurd hsame hne, fun _ => by simp [hother]⟩
  have hhistory := get_scsi_task_claim_history h.serving.ready task
  have hcommands : ∀ n, n ∈ (s.returned ++ [served]).map (·.seq) ↔ n ∈ s.commands ∨ n = served.seq := by
    simp [commands]
  rw [hzero, if_pos rfl]
  constructor
  · exact hvalid
  · exact hserving
  · rw [commands, List.map_append, List.pairwise_append]
    refine ⟨h.increasing, List.pairwise_singleton _ _, fun n hn m hm => ?_⟩
    rw [List.mem_singleton.mp hm]
    exact hread.later n hn
  · intro n hn
    simp only [hhistory]
    rcases (hcommands n).mp hn with hold | rfl
    · exact h.accepted n hold
    · exact hread.accepted
  · intro r hr
    rcases List.mem_append.mp hr with hold | hnew
    · exact h.number r hold
    · rw [List.mem_singleton.mp hnew]
      exact hread.number
  · intro t ht hflags n hn
    simp only [hqueue] at ht
    obtain ⟨hseq, hclaimed, hother⟩ := htasks t ht
    have hne : (s.hba.tasks t).seq ≠ served.seq := fun hsame => hclaimed hsame hflags
    have hsubmitted : (s.hba.tasks t).flags = .submitted := (hother hne).symm.trans hflags
    simp only [hseq]
    rcases (hcommands n).mp hn with hold | rfl
    · exact h.submitted t ht hsubmitted n hold
    · exact Nat.lt_of_le_of_ne (hread.first t ht hsubmitted) hne.symm
  · intro t ht hflags
    simp only [hqueue] at ht
    obtain ⟨hseq, -, hother⟩ := htasks t ht
    simp only [hseq]
    by_cases hsame : (s.hba.tasks t).seq = served.seq
    · exact (hcommands _).mpr (.inr hsame)
    · exact (hcommands _).mpr (.inl (h.received t ht ((hother hsame).symm.trans hflags)))
  · intro m sub hsub hgone
    simp only [hhistory] at hsub
    refine (h.settled m sub hsub ?_).imp_left fun hold => (hcommands m).mpr (.inl hold)
    rintro ⟨t, ht, rfl⟩
    exact hgone ⟨t, by rwa [hqueue], (htasks t ht).1⟩
  · intro task' served' hnone
    cases hnone

theorem Ordered.complete (h : s.Ordered) {named : Option Served} {task : UserScsitapTask}
    (hrecent : s.Recent (.complete named task)) (hstep : s.Step (.complete named task) s') : s'.Ordered := by
  obtain ⟨-, hnamed, rfl⟩ := hstep
  obtain ⟨hturn, hclose⟩ := hrecent
  let count := size_t (int32 (task.request_bufflen + 6))
  have hresult : (complete_scsi_task s.hba task).2.1 = (scsitap_ctl_write s.hba (.mapped (reply task)) count).2 := rfl
  have hvalid := h.valid.ctl_write (.mapped (reply task)) count
  have hserving := h.serving.same (scsitap_ctl_write_sameService s.hba (.mapped (reply task)) count)
  rw [hresult]
  rcases Hba.ctl_write_removes h.valid (.mapped (reply task)) count with hsame | ⟨addr, hfound, hremoves⟩
  · exact h.removes hvalid hserving hsame fun _ _ => False.elim
  · rw [copy_from_user_mapped, reply_number] at hfound
    obtain ⟨haddr, hnumber⟩ := task_of_cmd_some hfound
    refine h.removes hvalid hserving hremoves ?_
    rintro m sub rfl
    cases named with
    | none =>
      -- no task has the number zero
      have hzero := h.valid.queued_number haddr
      rw [hnumber, hnamed, numberOf, UInt32.toNat_zero] at hzero
      omega
    | some served =>
      obtain ⟨hmem, hsame⟩ := hnamed
      have hcommand : served.seq ∈ s.commands := List.mem_map_of_mem hmem
      have hseq : (s.hba.tasks addr).seq = served.seq := by
        refine seq_of_number h.valid hturn haddr (h.accepted _ hcommand) (hclose served rfl) ?_
        rw [hnumber, hsame, h.number served hmem]
      exact .inl (hseq ▸ hcommand)

theorem Ordered.step (h : s.Ordered) {op : ServiceOp} (hrecent : s.Recent op) (hstep : s.Step op s') : s'.Ordered := by
  cases op with
  | midlayer op =>
    obtain ⟨hop, hba, hba_step, rfl⟩ := hstep
    exact h.midlayer hop hba_step
  | header task => exact h.header hstep
  | claim => exact h.claim hrecent hstep
  | receive task =>
    obtain ⟨-, rfl⟩ := hstep
    exact h
  | complete named task => exact h.complete hrecent hstep

/-- As long as the target names no command that a full turn of the numbers has
overtaken, and none such is queued then, commands are returned in order and
without a gap. -/
theorem returned_in_order {start : Service} {trace : List (Service × ServiceOp)} (hinit : start.Initial)
    (hrun : Run Step start trace s) (hsteps : ∀ e ∈ trace, e.1.Recent e.2) : s.InOrder := by
  have hordered := hrun.invariant_of_steps (C := Recent) (P := Ordered) (.initial hinit)
    (fun _ _ _ h hrecent hstep => h.step hrecent hstep) hsteps
  exact hordered.inOrder

/-- Fewer than `2 ^ 32 - 1` commands have been accepted since the header of a
command was read that is still queued. -/
def Unwrapped (s : Service) : Prop :=
  ∀ served, (served ∈ s.returned ∨ ∃ task, s.reading = some (task, served)) → s.hba.Queued served.seq →
    s.hba.history.accepted.length < served.accepted + (2 ^ 32 - 1)

/-- A run through such states. -/
def Leads (start s : Service) : Prop := ∃ trace, Run Step start trace s ∧ ∀ e ∈ trace, e.1.Unwrapped

theorem Leads.tail {start : Service} (h : Leads start s) (hunwrapped : s.Unwrapped) {op : ServiceOp}
    (hstep : s.Step op s') : Leads start s' := by
  obtain ⟨trace, hrun, hall⟩ := h
  refine ⟨_, hrun.snoc hstep, fun e he => ?_⟩
  rcases List.mem_append.mp he with hold | hnew
  · exact hall e hold
  · rw [List.mem_singleton.mp hnew]
    exact hunwrapped

/-- The state after a call of the mid layer. -/
def call (s : Service) (op : Op) : Service := { s with hba := s.hba.apply op }

theorem call_step (hserving : s.hba.Serving) {op : Op} (hop : op.MidLayer) (hallowed : s.hba.Allowed op) :
    s.Step (.midlayer op) (s.call op) := ⟨hop, _, ⟨hserving.listed, fun _ => hserving.unlocked, hallowed, rfl⟩, rfl⟩

/-- The state after the header of a queued task has been read. -/
def afterHeader (s : Service) (addr : Addr) : Service := { s with
  reading := some (decoded s.hba addr (s.hba.tasks addr).type register_scsi_host, {
    seq := (s.hba.tasks addr).seq
    cmd_number := (s.hba.tasks addr).cmd_number
    accepted := s.hba.history.accepted.length }) }

theorem header_step (hserving : s.hba.Serving) (hreading : s.reading = none) {addr : Addr}
    (hoffer : offer s.hba = some addr) (hlen : (s.hba.cmnds (s.hba.tasks addr).sc).cmd_len.toNat ≤ 16) :
    s.Step (.header register_scsi_host) (s.afterHeader addr) := by
  have hheader : get_scsi_task_header s.hba 0 register_scsi_host =
      .offered (decoded s.hba addr (s.hba.tasks addr).type register_scsi_host) := by
    rw [get_scsi_task_header_eq, if_neg (not_not.mpr hserving.ready), hoffer]
    exact if_pos hlen
  refine ⟨hserving.unlocked, hreading, ?_⟩
  rw [hheader]
  exact ⟨addr, hoffer, rfl⟩

/-- The state after the claim that follows. -/
def afterClaim (s : Service) (task : UserScsitapTask) (served : Served) : Service where
  hba := (get_scsi_task_claim s.hba task).2
  reading := none
  returned := s.returned ++ [served]

theorem claim_step (hserving : s.hba.Serving) {task : UserScsitapTask} {served : Served}
    (hreading : s.reading = some (task, served)) : s.Step .claim (s.afterClaim task served) := by
  refine ⟨hserving.unlocked, task, served, hreading, ?_⟩
  rw [(get_scsi_task_claim_succeeds hserving.ready task).1]
  rfl

/-- One command waits, the first of `n` that have been accepted, and the target
has not read its header. -/
structure FirstWaits (s : Service) (n : Nat) : Prop where
  valid : s.hba.Valid
  serving : s.hba.Serving
  reading : s.reading = none
  returned : s.returned = []
  queue : s.hba.queue = [8]
  seq : (s.hba.tasks 8).seq = 0
  sc : (s.hba.tasks 8).sc = 0
  flags : (s.hba.tasks 8).flags = .submitted
  cmd_len : (s.hba.cmnds 0).request.cmd_len = 0
  accepted : s.hba.history.accepted.length = n

theorem FirstWaits.unwrapped {n : Nat} (h : s.FirstWaits n) : s.Unwrapped := by
  rintro served (hserved | ⟨task, hreading⟩) _
  · rw [h.returned] at hserved
    cases hserved
  · rw [h.reading] at hreading
    cases hreading

/-- Another command can be submitted. -/
theorem FirstWaits.allowed {n : Nat} (h : s.FirstWaits n) : s.hba.Allowed (.queuecommand 1 (some 9)) := by
  constructor
  · intro task ht
    change task ∈ s.hba.queue at ht
    rw [h.queue, List.mem_singleton] at ht
    rw [ht, h.sc]
    decide
  · rintro task htask ht
    obtain rfl := Option.some.inj htask
    change 9 ∈ s.hba.queue at ht
    rw [h.queue] at ht
    exact absurd ht (by decide)

/-- Another command comes and goes. -/
theorem FirstWaits.cycle {start : Service} {n : Nat} (h : s.FirstWaits n) (hleads : Leads start s) :
    ∃ s', Leads start s' ∧ s'.FirstWaits (n + 1) := by
  have ha := (scsitap_queuecommand_accepted s.hba 1 9 h.serving.ready).2
  have hserving : (s.hba.apply (.queuecommand 1 (some 9))).Serving := h.serving.apply trivial
  have hserving' : ((s.hba.apply (.queuecommand 1 (some 9))).apply (.eh_abort 1)).Serving := hserving.apply trivial
  have hvalid := h.valid.apply _ h.allowed
  have hqueue : (scsitap_queuecommand s.hba 1 (some 9)).2.queue = [8, 9] := by rw [ha.queue, h.queue]; rfl
  have hsubmitted : (s.call (.queuecommand 1 (some 9))).Unwrapped := by
    rintro served (hserved | ⟨task, hreading⟩) _
    · change served ∈ s.returned at hserved
      rw [h.returned] at hserved
      cases hserved
    · change s.reading = some (task, served) at hreading
      rw [h.reading] at hreading
      cases hreading
  have htask : (scsitap_queuecommand s.hba 1 (some 9)).2.tasks 8 = s.hba.tasks 8 := by
    rw [ha.tasks]
    exact Function.update_of_ne (by decide) _ _
  have habort : (scsitap_eh_abort (scsitap_queuecommand s.hba 1 (some 9)).2 1).2 =
      abortTask (scsitap_queuecommand s.hba 1 (some 9)).2 9 := by
    rw [scsitap_eh_abort, ha.ptr, if_pos rfl]
  have hremoved := abortTask_removed (scsitap_queuecommand s.hba 1 (some 9)).2 9
  have hrequest := abortTask_request (scsitap_queuecommand s.hba 1 (some 9)).2 9 0
  rw [← habort] at hremoved hrequest
  have hkept : ((scsitap_eh_abort (scsitap_queuecommand s.hba 1 (some 9)).2 1).2.tasks 8) = s.hba.tasks 8 :=
    (hremoved.tasks 8 (by decide)).trans htask
  have hsubmit : s.Step (.midlayer (.queuecommand 1 (some 9))) (s.call (.queuecommand 1 (some 9))) :=
    call_step h.serving trivial h.allowed
  have hdrop : (s.call (.queuecommand 1 (some 9))).Step (.midlayer (.eh_abort 1))
      ((s.call (.queuecommand 1 (some 9))).call (.eh_abort 1)) := call_step hserving trivial trivial
  refine ⟨_, (hleads.tail h.unwrapped hsubmit).tail hsubmitted hdrop, ?_⟩
  refine ⟨hvalid.apply (.eh_abort 1) trivial, hserving', h.reading, h.returned, ?_, ?_, ?_, ?_, ?_, ?_⟩
  · refine hremoved.queue.trans ?_
    change (scsitap_queuecommand s.hba 1 (some 9)).2.queue.erase 9 = [8]
    rw [hqueue]
    rfl
  · exact (congrArg ScsitapTask.seq hkept).trans h.seq
  · exact (congrArg ScsitapTask.sc hkept).trans h.sc
  · exact (congrArg ScsitapTask.flags hkept).trans h.flags
  · exact (congrArg Request.cmd_len (hrequest.trans (ha.request 0))).trans h.cmd_len
  · refine (congrArg List.length hremoved.accepted).trans ?_
    rw [List.length_modify, ha.history, History.accept, List.length_append, h.accepted]
    rfl

theorem FirstWaits.cycles {start : Service} (h : s.FirstWaits 1) (hleads : Leads start s) (n : Nat) :
    ∃ s', Leads start s' ∧ s'.FirstWaits (1 + n) := by
  induction n with
  | zero => exact ⟨s, hleads, h⟩
  | succ n ih =>
    obtain ⟨s', hleads', hwaits⟩ := ih
    exact hwaits.cycle hleads'

/-- The target holds a claim on a command it has not returned, the last of
those that have been accepted. -/
structure Overtaken (s : Service) (n : Nat) : Prop where
  valid : s.hba.Valid
  serving : s.hba.Serving
  reading : s.reading = none
  returned : ∃ served, s.returned = [served] ∧ served.seq = 0 ∧ served.accepted = n + 1
  queue : s.hba.queue = [9]
  seq : (s.hba.tasks 9).seq = n
  sc : (s.hba.tasks 9).sc = 1
  flags : (s.hba.tasks 9).flags = .received
  cmd_len : (s.hba.cmnds 0).request.cmd_len = 0
  accepted : s.hba.history.accepted.length = n + 1

/-- Two commands are queued under one number, and the target is between the two
calls of `get_scsi_task` for the first. -/
structure Doubled (s : Service) (n : Nat) : Prop where
  valid : s.hba.Valid
  serving : s.hba.Serving
  reading : ∃ task served, s.reading = some (task, served) ∧ task.cmd_number = (s.hba.tasks 9).cmd_number ∧
    served.seq = 0 ∧ served.accepted = n + 1
  returned : s.returned = []
  queue : s.hba.queue = [8, 9]
  first : (s.hba.tasks 8).sc = 0
  seq : (s.hba.tasks 9).seq = n
  sc : (s.hba.tasks 9).sc = 1
  cmd_len : (s.hba.cmnds 0).request.cmd_len = 0
  accepted : s.hba.history.accepted.length = n + 1

theorem FirstWaits.doubled {start : Service} {n : Nat} (h : s.FirstWaits n) (hnumber : numberOf n = numberOf 0)
    (hleads : Leads start s) : ∃ s', Leads start s' ∧ s'.Doubled n := by
  have ha := (scsitap_queuecommand_accepted s.hba 1 9 h.serving.ready).2
  have hserving : (s.call (.queuecommand 1 (some 9))).hba.Serving :=
    show (s.hba.apply (.queuecommand 1 (some 9))).Serving from h.serving.apply trivial
  have hvalid : (s.call (.queuecommand 1 (some 9))).hba.Valid := h.valid.apply _ h.allowed
  have hsubmit : s.Step (.midlayer (.queuecommand 1 (some 9))) (s.call (.queuecommand 1 (some 9))) :=
    call_step h.serving trivial h.allowed
  have hreading : (s.call (.queuecommand 1 (some 9))).reading = none := h.reading
  have hreturned : (s.call (.queuecommand 1 (some 9))).returned = [] := h.returned
  change Accepted s.hba 1 9 (s.call (.queuecommand 1 (some 9))).hba at ha
  generalize s.call (.queuecommand 1 (some 9)) = s₁ at *
  have hqueue : s₁.hba.queue = [8, 9] := by rw [ha.queue, h.queue]; rfl
  have hfirst : s₁.hba.tasks 8 = s.hba.tasks 8 := by
    rw [ha.tasks]
    exact Function.update_of_ne (by decide) _ _
  have hlast : (s₁.hba.tasks 9).seq = n ∧ (s₁.hba.tasks 9).sc = 1 := by
    rw [ha.tasks, Function.update_self]
    exact ⟨h.accepted, rfl⟩
  have haccepted : s₁.hba.history.accepted.length = n + 1 := by
    rw [ha.history, History.accept, List.length_append, h.accepted]
    rfl
  have hcmd_len : (s₁.hba.cmnds 0).request.cmd_len = 0 := by rw [ha.request, h.cmd_len]
  have hsame : (s₁.hba.tasks 8).cmd_number = (s₁.hba.tasks 9).cmd_number := by
    apply UInt32.toNat_inj.mp
    rw [hvalid.queued_number (by simp [hqueue]), hvalid.queued_number (by simp [hqueue]), hlast.1, hfirst, h.seq,
      hnumber]
  have hoffer : offer s₁.hba = some 8 := by
    have hflags : (s₁.hba.tasks 8).flags = .submitted := by rw [hfirst, h.flags]
    change s₁.hba.queue.find? _ = some 8
    rw [hqueue]
    simp [hflags]
  have hread : s₁.Step (.header register_scsi_host) (s₁.afterHeader 8) := by
    refine header_step hserving hreading hoffer ?_
    change (s₁.hba.cmnds (s₁.hba.tasks 8).sc).request.cmd_len.toNat ≤ 16
    rw [hfirst, h.sc, hcmd_len]
    decide
  have hunwrapped : s₁.Unwrapped := by
    rintro served (hserved | ⟨task, hsome⟩) _
    · rw [hreturned] at hserved
      cases hserved
    · rw [hreading] at hsome
      cases hsome
  refine ⟨_, (hleads.tail h.unwrapped hsubmit).tail hunwrapped hread, hvalid, hserving, ⟨_, _, rfl, hsame, ?_, ?_⟩,
    hreturned, hqueue, ?_, hlast.1, hlast.2, hcmd_len, haccepted⟩
  · change (s₁.hba.tasks 8).seq = 0
    rw [hfirst, h.seq]
  · exact haccepted
  · change (s₁.hba.tasks 8).sc = 0
    rw [hfirst, h.sc]

/-- The first command is aborted before the claim, which then finds the other. -/
theorem Doubled.overtaken {start : Service} {n : Nat} (h : s.Doubled n) (hleads : Leads start s) :
    ∃ s', Leads start s' ∧ s'.Overtaken n := by
  obtain ⟨task, served, hreading, hnamed, hseq, hread⟩ := h.reading
  have hptr : (s.hba.cmnds 0).SCp_ptr = some 8 := (h.valid.back 0 8).mpr ⟨by simp [h.queue], h.first⟩
  have habort : (s.call (.eh_abort 0)).hba = abortTask s.hba 8 := by
    simp only [call, Hba.apply, scsitap_eh_abort, hptr]
  have hremoved := abortTask_removed s.hba 8
  have hrequest := abortTask_request s.hba 8 0
  have hvalid : (s.call (.eh_abort 0)).hba.Valid := h.valid.apply (.eh_abort 0) trivial
  have hserving : (s.call (.eh_abort 0)).hba.Serving :=
    show (s.hba.apply (.eh_abort 0)).Serving from h.serving.apply trivial
  have hdrop : s.Step (.midlayer (.eh_abort 0)) (s.call (.eh_abort 0)) := call_step h.serving trivial trivial
  have hreading' : (s.call (.eh_abort 0)).reading = some (task, served) := hreading
  have hreturned : (s.call (.eh_abort 0)).returned = [] := h.returned
  rw [← habort] at hremoved hrequest
  generalize s.call (.eh_abort 0) = s₁ at *
  have hqueue : s₁.hba.queue = [9] := by
    refine hremoved.queue.trans ?_
    change s.hba.queue.erase 8 = [9]
    rw [h.queue]
    rfl
  have htask : s₁.hba.tasks 9 = s.hba.tasks 9 := hremoved.tasks 9 (by decide)
  have haccepted : s₁.hba.history.accepted.length = n + 1 := by
    rw [hremoved.accepted, List.length_modify, h.accepted]
  have hunwrapped : s.Unwrapped := by
    rintro served' (hserved | ⟨task', hsome⟩) _
    · rw [h.returned] at hserved
      cases hserved
    · rw [hreading] at hsome
      obtain ⟨-, rfl⟩ := Prod.mk.inj (Option.some.inj hsome)
      rw [h.accepted, hread]
      omega
  have hunwrapped' : s₁.Unwrapped := by
    rintro served' (hserved | ⟨task', hsome⟩) _
    · rw [hreturned] at hserved
      cases hserved
    · rw [hreading'] at hsome
      obtain ⟨-, rfl⟩ := Prod.mk.inj (Option.some.inj hsome)
      rw [haccepted, hread]
      omega
  have hfound : task_of_cmd s₁.hba task.cmd_number = some 9 := by
    change s₁.hba.queue.find? _ = some 9
    rw [hqueue]
    simp [htask, hnamed]
  have hclaim : (get_scsi_task_claim s₁.hba task).2 = s₁.hba.setFlags 9 .received := by
    rw [get_scsi_task_claim_eq hserving.ready, hfound]
  refine ⟨_, (hleads.tail hunwrapped hdrop).tail hunwrapped' (claim_step hserving hreading'), ?_⟩
  refine ⟨?_, ?_, rfl, ⟨served, ?_, hseq, hread⟩, ?_, ?_, ?_, ?_, ?_, ?_⟩
  all_goals simp only [afterClaim, hclaim]
  · exact hvalid.setReceived 9
  · exact hserving.same (.of_session rfl)
  · simp [hreturned]
  · exact hqueue
  · simp [htask, h.seq]
  · simp [htask, h.sc]
  · simp
  · exact (congrArg Request.cmd_len hrequest).trans h.cmd_len
  · exact haccepted

/-- The next command is returned, and the one that was claimed in place of the
first has not been. -/
theorem Overtaken.gap {start : Service} {n : Nat} (h : s.Overtaken n) (hpos : 0 < n) (hleads : Leads start s) :
    ∃ s', Leads start s' ∧ s'.Unwrapped ∧ ¬ s'.InOrder := by
  obtain ⟨served, hreturned, hseq, hread⟩ := h.returned
  have hallowed : s.hba.Allowed (.queuecommand 0 (some 8)) := by
    constructor
    · intro task ht
      change task ∈ s.hba.queue at ht
      rw [h.queue, List.mem_singleton] at ht
      rw [ht, h.sc]
      decide
    · rintro task htask ht
      obtain rfl := Option.some.inj htask
      change 8 ∈ s.hba.queue at ht
      rw [h.queue] at ht
      exact absurd ht (by decide)
  have ha := (scsitap_queuecommand_accepted s.hba 0 8 h.serving.ready).2
  have hvalid : (s.call (.queuecommand 0 (some 8))).hba.Valid := h.valid.apply _ hallowed
  have hserving : (s.call (.queuecommand 0 (some 8))).hba.Serving :=
    show (s.hba.apply (.queuecommand 0 (some 8))).Serving from h.serving.apply trivial
  have hsubmit : s.Step (.midlayer (.queuecommand 0 (some 8))) (s.call (.queuecommand 0 (some 8))) :=
    call_step h.serving trivial hallowed
  have hreading : (s.call (.queuecommand 0 (some 8))).reading = none := h.reading
  have hreturned' : (s.call (.queuecommand 0 (some 8))).returned = [served] := hreturned
  change Accepted s.hba 0 8 (s.call (.queuecommand 0 (some 8))).hba at ha
  generalize s.call (.queuecommand 0 (some 8)) = s₁ at *
  have hqueue : s₁.hba.queue = [9, 8] := by rw [ha.queue, h.queue]; rfl
  have hnine : s₁.hba.tasks 9 = s.hba.tasks 9 := by
    rw [ha.tasks]
    exact Function.update_of_ne (by decide) _ _
  have height : s₁.hba.tasks 8 = newTask s.hba 0 := by rw [ha.tasks, Function.update_self]
  have haccepted : s₁.hba.history.accepted.length = n + 2 := by
    rw [ha.history, History.accept, List.length_append, h.accepted]
    rfl
  have hoffer : offer s₁.hba = some 8 := by
    change s₁.hba.queue.find? _ = some 8
    rw [hqueue]
    simp [hnine, height, h.flags, newTask]
  have hheader : s₁.Step (.header register_scsi_host) (s₁.afterHeader 8) := by
    refine header_step hserving hreading hoffer ?_
    change (s₁.hba.cmnds (s₁.hba.tasks 8).sc).request.cmd_len.toNat ≤ 16
    rw [height, ha.request]
    change (s.hba.cmnds 0).request.cmd_len.toNat ≤ 16
    rw [h.cmd_len]
    decide
  have hlast : (s₁.hba.tasks 8).seq = n + 1 := by
    rw [height, newTask]
    exact h.accepted
  obtain ⟨task, latest, hsome, hlatest, hread'⟩ : ∃ task latest, (s₁.afterHeader 8).reading = some (task, latest) ∧
      latest.seq = n + 1 ∧ latest.accepted = n + 2 := ⟨_, _, rfl, hlast, haccepted⟩
  have hclaim := claim_step (s := s₁.afterHeader 8) hserving hsome
  have hhistory := get_scsi_task_claim_history hserving.ready task
  have hkept := (Hba.Valid.receive_task_evolves s₁.hba task.cmd_number.toNat).kept
  have hsession := (get_scsi_task_claim_succeeds hserving.ready task).2
  -- both commands whose headers were read were read not long ago
  have hrecent : ∀ served' ∈ [served, latest], n + 2 < served'.accepted + (2 ^ 32 - 1) := by
    intro served' hserved
    rcases List.mem_cons.mp hserved with rfl | hserved
    · rw [hread]
      omega
    · rw [List.mem_singleton.mp hserved, hread']
      omega
  have hunwrapped : s.Unwrapped := by
    rintro served' (hserved | ⟨task', hsome'⟩) _
    · rw [hreturned, List.mem_singleton] at hserved
      have hbound := hrecent served' (by simp [hserved])
      rw [h.accepted]
      omega
    · rw [h.reading] at hsome'
      cases hsome'
  have hunwrapped₁ : s₁.Unwrapped := by
    rintro served' (hserved | ⟨task', hsome'⟩) _
    · rw [hreturned', List.mem_singleton] at hserved
      rw [haccepted]
      exact hrecent served' (by simp [hserved])
    · rw [hreading] at hsome'
      cases hsome'
  have hunwrapped₂ : (s₁.afterHeader 8).Unwrapped := by
    rintro served' hserved _
    change s₁.hba.history.accepted.length < _
    rw [haccepted]
    refine hrecent served' ?_
    rcases hserved with hserved | ⟨task', hsome'⟩
    · change served' ∈ s₁.returned at hserved
      rw [hreturned', List.mem_singleton] at hserved
      simp [hserved]
    · rw [hsome] at hsome'
      obtain ⟨-, rfl⟩ := Prod.mk.inj (Option.some.inj hsome')
      simp
  have hreturned₃ : ((s₁.afterHeader 8).afterClaim task latest).returned = [served, latest] := by
    simp only [afterClaim, afterHeader, hreturned', List.cons_append, List.nil_append]
  refine ⟨_, ((hleads.tail hunwrapped hsubmit).tail hunwrapped₁ hheader).tail hunwrapped₂ hclaim, ?_, fun hinorder => ?_⟩
  · rintro served' (hserved | ⟨task', hnone⟩) _
    · change (get_scsi_task_claim s₁.hba task).2.history.accepted.length < _
      rw [hhistory, haccepted]
      exact hrecent served' (hreturned₃ ▸ hserved)
    · cases hnone
  · have hcommands : ((s₁.afterHeader 8).afterClaim task latest).commands = [0, n + 1] := by
      rw [commands, hreturned₃, List.map_cons, List.map_singleton, hseq, hlatest]
    have hmem : n + 1 ∈ ((s₁.afterHeader 8).afterClaim task latest).commands := by
      rw [hcommands]
      simp
    rcases hinorder.complete (n + 1) hmem n (Nat.lt_succ_self n) with hbefore | ⟨sub, -, hgone, -⟩
    · rw [hcommands] at hbefore
      simp only [List.mem_cons, List.not_mem_nil, or_false] at hbefore
      omega
    · have hqueued : 9 ∈ (get_scsi_task_claim s₁.hba task).2.queue := by
        rw [Hba.queue, hsession]
        change 9 ∈ s₁.hba.queue
        rw [hqueue]
        simp
      exact hgone ⟨9, hqueued, (hkept 9 hqueued).seq.trans (by rw [hnine, h.seq])⟩

/-- The target has registered with a session that has nothing in it. -/
def registered : Service where
  hba := Hba.fresh.apply (.register_client 1)
  reading := none
  returned := []

theorem registered_initial : registered.Initial := ⟨⟨Hba.fresh, 1, Hba.fresh_initial, rfl⟩, rfl, rfl⟩

theorem registered_serving : registered.hba.Serving := ⟨rfl, rfl, rfl⟩

theorem registered_allowed : registered.hba.Allowed (.queuecommand 0 (some 8)) := by
  have hqueue : registered.hba.session.scsitap_queue = [] := rfl
  constructor
  · intro task ht
    rw [hqueue] at ht
    cases ht
  · intro task _ ht
    rw [hqueue] at ht
    cases ht

theorem registered_unwrapped : registered.Unwrapped := by
  rintro served (hserved | ⟨task, hreading⟩) _
  · cases hserved
  · cases hreading

theorem firstWaits_registered : (registered.call (.queuecommand 0 (some 8))).FirstWaits 1 where
  valid := (Ordered.initial registered_initial).valid.apply _ registered_allowed
  serving := ⟨rfl, rfl, rfl⟩
  reading := rfl
  returned := rfl
  queue := rfl
  seq := rfl
  sc := rfl
  flags := rfl
  cmd_len := rfl
  accepted := rfl

/-- After `2 ^ 32` commands two are queued under one number. The first is
aborted after its header was read, and its claim takes the second, which is never
returned. -/
theorem gap_after_turn : ¬ ∀ start s trace, start.Initial → Run Step start trace s → Always Unwrapped trace s →
    s.InOrder := by
  intro hall
  have hsubmit : registered.Step _ (registered.call (.queuecommand 0 (some 8))) :=
    call_step registered_serving trivial registered_allowed
  have hnil : Leads registered registered := ⟨[], .nil, fun e he => absurd he (List.not_mem_nil)⟩
  obtain ⟨s₁, hleads₁, hwaits⟩ := firstWaits_registered.cycles (hnil.tail registered_unwrapped hsubmit) (2 ^ 32 - 2)
  obtain ⟨s₂, hleads₂, hdoubled⟩ := hwaits.doubled (by simp [numberOf]) hleads₁
  obtain ⟨s₃, hleads₃, hovertaken⟩ := hdoubled.overtaken hleads₂
  obtain ⟨s₄, ⟨trace, hrun, htrace⟩, hlast, hgap⟩ := hovertaken.gap (by omega) hleads₃
  exact hgap (hall _ _ _ registered_initial hrun ⟨htrace, hlast⟩)

/-- No command can be overtaken by a full turn of the numbers before so many have
been accepted. -/
theorem recent_of_few (h : s.hba.history.accepted.length ≤ 2 ^ 32 - 1) (op : ServiceOp) : s.Recent op := by
  have hnumbers (seq : Nat) : s.hba.history.accepted.length ≤ seq + (2 ^ 32 - 1) := Nat.le_trans h (Nat.le_add_left _ _)
  cases op with
  | claim => exact ⟨fun task _ => hnumbers _, fun _ served _ => hnumbers served.seq⟩
  | complete named task => exact ⟨fun task _ => hnumbers _, fun served _ => hnumbers served.seq⟩
  | _ => trivial

/-- Of two commands the second is read and claimed when the first has come back. -/
theorem returned_in_order_two_commands : ∃ trace s, Run Step registered trace s ∧ s.commands = [0, 1] ∧
    s.hba.queue = [9] ∧ s.InOrder := by
  let s₁ := registered.call (.queuecommand 0 (some 8))
  let s₂ := s₁.call (.queuecommand 1 (some 9))
  let task := decoded s₂.hba 8 (s₂.hba.tasks 8).type register_scsi_host
  let served : Served := { seq := 0, cmd_number := 1, accepted := 2 }
  let s₃ := (s₂.afterHeader 8).afterClaim task served
  let s₄ : Service := { s₃ with hba := (complete_scsi_task s₃.hba task).2.1 }
  let task' := decoded s₄.hba 9 (s₄.hba.tasks 9).type register_scsi_host
  have hsubmit : registered.Step (.midlayer (.queuecommand 0 (some 8))) s₁ :=
    call_step registered_serving trivial registered_allowed
  have hsubmit' : s₁.Step (.midlayer (.queuecommand 1 (some 9))) s₂ := by
    refine call_step ⟨rfl, rfl, rfl⟩ trivial ⟨fun task ht => ?_, fun task heq ht => ?_⟩
    · rw [List.mem_singleton.mp ht]
      decide
    · rw [List.mem_singleton.mp ht] at heq
      cases heq
  have hheader : s₂.Step (.header register_scsi_host) (s₂.afterHeader 8) := header_step ⟨rfl, rfl, rfl⟩ rfl rfl (by decide)
  have hclaim : (s₂.afterHeader 8).Step .claim s₃ := claim_step ⟨rfl, rfl, rfl⟩ rfl
  have hcomplete : s₃.Step (.complete (some served) task) s₄ := ⟨rfl, ⟨List.mem_singleton.mpr rfl, rfl⟩, rfl⟩
  have hserving : s₄.hba.Serving := ⟨by decide, by decide, by decide⟩
  have hheader' : s₄.Step (.header register_scsi_host) (s₄.afterHeader 9) := header_step hserving rfl (by decide) (by decide)
  have hserving' : (s₄.afterHeader 9).hba.Serving := hserving
  have hclaim' : (s₄.afterHeader 9).Step .claim ((s₄.afterHeader 9).afterClaim task' _) := claim_step hserving' rfl
  have hrun := ((((((Run.nil.snoc hsubmit).snoc hsubmit').snoc hheader).snoc hclaim).snoc hcomplete).snoc hheader').snoc hclaim'
  refine ⟨_, _, hrun, by decide, by decide, returned_in_order registered_initial hrun fun e he => ?_⟩
  simp only [List.cons_append, List.nil_append, List.mem_cons, List.not_mem_nil, or_false] at he
  have hfirst : s₂.hba.history.accepted.length ≤ 2 ^ 32 - 1 := show 2 ≤ 2 ^ 32 - 1 by decide
  have hsecond : (s₄.afterHeader 9).hba.history.accepted.length ≤ 2 ^ 32 - 1 := by decide
  rcases he with rfl | rfl | rfl | rfl | rfl | rfl | rfl
  · trivial
  · trivial
  · trivial
  · exact recent_of_few (s := s₂.afterHeader 8) hfirst .claim
  · exact recent_of_few (s := s₃) hfirst (.complete (some served) task)
  · trivial
  · exact recent_of_few hsecond .claim

end Service

end vscsi
