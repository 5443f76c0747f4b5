import Vscsi.Kernel.Sessions

open lib

namespace vscsi

open hba device

namespace Hba

/-- No task has been claimed that was not claimed before. -/
def NoNewClaims (k k' : Hba) : Prop :=
  ∀ task ∈ k'.queue, (k'.tasks task).flags = .received →
    task ∈ k.queue ∧ (k.tasks task).flags = .received ∧ (k'.tasks task).seq = (k.tasks task).seq

theorem NoNewClaims.of_tasks {k k' : Hba} (hqueue : k'.queue ⊆ k.queue)
    (htasks : ∀ task ∈ k'.queue, k'.tasks task = k.tasks task) : NoNewClaims k k' := by
  intro task ht hflags
  rw [htasks task ht] at hflags ⊢
  exact ⟨hqueue ht, hflags, rfl⟩

theorem NoNewClaims.removed {k k' : Hba} (hvalid : k.Valid) {task : Addr} {f : Submission → Submission}
    (hr : Removed k task f k') : NoNewClaims k k' := by
  have hmem : ∀ t ∈ k'.queue, t ≠ task ∧ t ∈ k.queue := by
    intro t ht
    rw [queue, hr.queue] at ht
    exact hvalid.nodup.mem_erase_iff.mp ht
  exact .of_tasks (fun t ht => (hmem t ht).2) fun t ht => hr.tasks t (hmem t ht).1

/-- A submission adds a task that nobody has claimed. -/
theorem NoNewClaims.queuecommand {k : Hba} (hvalid : k.Valid) {sc : Addr} {slot : Option Addr}
    (hallowed : k.Allowed (.queuecommand sc slot)) : NoNewClaims k (scsitap_queuecommand k sc slot).2 := by
  have hturned : ∀ {k'}, TurnedAway k sc k' → NoNewClaims k k' := by
    intro k' ha
    refine .of_tasks ?_ fun task _ => by rw [ha.tasks]
    rw [queue, ha.session]
    exact List.Subset.refl _
  by_cases hready : k.session.flags = .ready
  · cases slot with
    | none => exact hturned (scsitap_queuecommand_busy k sc hready).2
    | some task =>
      have ha := (scsitap_queuecommand_accepted k sc task hready).2
      intro t ht hflags
      rw [ha.queue] at ht
      by_cases heq : t = task
      · subst heq
        rw [ha.tasks, Function.update_self] at hflags
        cases hflags
      · have hold : t ∈ k.queue := by simpa [heq] using ht
        rw [ha.tasks, Function.update_of_ne heq] at hflags ⊢
        exact ⟨hold, hflags, rfl⟩
  · exact hturned (scsitap_queuecommand_refused k sc slot hready (hvalid.idle_ptr hallowed.1)).2

theorem NoNewClaims.apply {k : Hba} (hvalid : k.Valid) {op : Op}
    (hop : op.MidLayer ∨ ∃ user count, op = .write user count) (hallowed : k.Allowed op) :
    NoNewClaims k (k.apply op) := by
  cases op with
  | prepare sc cmnd mem => exact .of_tasks (List.Subset.refl _) fun _ _ => rfl
  | queuecommand sc slot => exact .queuecommand hvalid hallowed
  | eh_abort sc =>
    change NoNewClaims k (scsitap_eh_abort k sc).2
    unfold scsitap_eh_abort
    cases (k.cmnds sc).SCp_ptr with
    | none => exact .of_tasks (List.Subset.refl _) fun _ _ => rfl
    | some task => exact .removed hvalid (abortTask_removed k task)
  | eh_host_reset =>
    intro task ht
    rw [show (k.apply .eh_host_reset).queue = [] from hvalid.eh_host_reset.2] at ht
    cases ht
  | write user count =>
    change NoNewClaims k (scsitap_ctl_write k user count).2
    rcases scsitap_ctl_write_cases k user count with hsame | ⟨task, k₁, _, hsame, heq⟩
    · exact .of_tasks (by rw [hsame.same.queue]; exact List.Subset.refl _) fun _ _ => by rw [hsame.tasks]
    · rw [heq]
      refine .of_tasks ?_ fun t _ => by rw [scsitap_complete_task_tasks, hsame.tasks]
      rw [queue, scsitap_complete_task_session, ← hsame.same.queue]
      exact List.erase_subset
  | read f_pos user count => simp [Op.MidLayer] at hop
  | receive_task arg => simp [Op.MidLayer] at hop
  | register_client pid => simp [Op.MidLayer] at hop
  | unregister_client => simp [Op.MidLayer] at hop
  | release => simp [Op.MidLayer] at hop

end Hba

namespace Driver

open driver

variable {d d' : Driver}

/-- Somebody other than `file` whose file is open has claimed the `seq`-th
command of the session. -/
def HeldWithout (d : Driver) (file : Option Nat) (session seq : Nat) : Prop :=
  ∃ owner ∈ d.opened, some owner ≠ file ∧ { session, seq, file := owner } ∈ d.claims

/-- Every queued task that is no longer offered was claimed by a target whose
file is still open. -/
def Owned (d : Driver) : Prop :=
  ∀ session ∈ d.session_queue, ∀ task ∈ (d.hbas session).queue, ((d.hbas session).tasks task).flags = .received →
    d.HeldWithout none session ((d.hbas session).tasks task).seq

/-- A file that is closed leaves no claimed task that only it has claimed. -/
def LeavesNothing (d : Driver) : DriverOp → Prop
  | .ctl_release file => ∀ session ∈ d.session_queue, ∀ task ∈ (d.hbas session).queue,
      ((d.hbas session).tasks task).flags = .received →
        d.HeldWithout (some file) session ((d.hbas session).tasks task).seq
  | _ => True

theorem Owned.initial (h : Initial d) : d.Owned := by
  obtain ⟨_, hqueue, _⟩ := h
  intro session hsession
  rw [hqueue] at hsession
  cases hsession

/-- An owner that was there before is there still. -/
theorem Owned.of_claims (h : d.Owned) (hopened : d.opened ⊆ d'.opened) (hclaims : d.claims ⊆ d'.claims)
    (htasks : ∀ session ∈ d'.session_queue, ∀ task ∈ (d'.hbas session).queue,
      ((d'.hbas session).tasks task).flags = .received →
        (session ∈ d.session_queue ∧ task ∈ (d.hbas session).queue ∧ ((d.hbas session).tasks task).flags = .received ∧
          ((d'.hbas session).tasks task).seq = ((d.hbas session).tasks task).seq) ∨
        d'.HeldWithout none session ((d'.hbas session).tasks task).seq) : d'.Owned := by
  intro session hsession task ht hflags
  rcases htasks session hsession task ht hflags with ⟨hold, hqueued, hreceived, hseq⟩ | hnew
  · obtain ⟨owner, howner, hnone, hclaim⟩ := h session hold task hqueued hreceived
    rw [hseq]
    exact ⟨owner, hopened howner, hnone, hclaims hclaim⟩
  · exact hnew

/-- One session has changed, without a new claim. -/
theorem Owned.session (h : d.Owned) (session : Nat) (hopened : d.opened ⊆ d'.opened) (hclaims : d'.claims = d.claims)
    (hqueue : d'.session_queue ⊆ d.session_queue)
    (hsame : Hba.NoNewClaims (d.hbas session) (d'.hbas session))
    (hother : ∀ s ≠ session, d'.hbas s = d.hbas s) : d'.Owned := by
  refine h.of_claims hopened (by rw [hclaims]; exact List.Subset.refl _) fun s hs task ht hflags => .inl ?_
  by_cases heq : s = session
  · subst heq
    obtain ⟨hqueued, hreceived, hseq⟩ := hsame task ht hflags
    exact ⟨hqueue hs, hqueued, hreceived, hseq⟩
  · rw [hother s heq] at ht hflags ⊢
    exact ⟨hqueue hs, ht, hflags, rfl⟩

theorem Owned.same (h : d.Owned) (hopened : d.opened ⊆ d'.opened) (hclaims : d'.claims = d.claims)
    (hqueue : d'.session_queue ⊆ d.session_queue) (hhbas : d'.hbas = d.hbas) : d'.Owned :=
  h.session 0 hopened hclaims hqueue (by rw [hhbas]; exact .of_tasks (List.Subset.refl _) fun _ _ => rfl)
    fun s _ => by rw [hhbas]

theorem Owned.attach (h : d.Owned) (file session : Nat) (pid : UInt32) : (d.attach file session pid).Owned := by
  refine h.session session (List.Subset.refl _) rfl (List.Subset.refl _) ?_ fun s hs => Function.update_of_ne hs _ _
  rw [attach_hbas, Function.update_self]
  exact .of_tasks (List.Subset.refl _) fun _ _ => rfl

theorem Owned.addSession (h : d.Owned) (id : UInt32) (host : HostMemory) : (d.addSession id host).Owned := by
  refine h.of_claims (List.Subset.refl _) (List.Subset.refl _) fun s hs task ht hflags => .inl ?_
  by_cases heq : s = d.created
  · rw [heq, addSession_hbas, Function.update_self] at ht
    cases ht
  · rw [addSession_hbas, Function.update_of_ne heq] at ht hflags ⊢
    have hold : s ∈ d.session_queue := by simpa [heq] using hs
    exact ⟨hold, ht, hflags, rfl⟩

/-- A claim makes its file an owner. -/
theorem Owned.recordClaim (h : d.Owned) {file session : Nat} (hfile : file ∈ d.opened) (arg : Nat) :
    (d.recordClaim session file arg).Owned := by
  refine h.of_claims (List.Subset.refl _) (List.subset_append_left _ _) fun s hs task ht hflags => ?_
  by_cases heq : s = session
  · subst heq
    rw [recordClaim_hbas, Function.update_self] at ht hflags ⊢
    change task ∈ (scsitap_ioctl_receive_task (d.hbas s) arg).2.queue at ht
    rw [scsitap_ioctl_receive_task_queue] at ht
    by_cases hready : (d.hbas s).session.flags = .ready
    · cases hfound : task_of_cmd (d.hbas s) (UInt32.ofNat arg) with
      | none =>
        have hsame : (d.hbas s).apply (.receive_task arg) = d.hbas s := by
          simp [Hba.apply, scsitap_ioctl_receive_task, hready, hfound]
        rw [hsame] at hflags ⊢
        exact .inl ⟨hs, ht, hflags, rfl⟩
      | some claimed =>
        have hset : (d.hbas s).apply (.receive_task arg) = (d.hbas s).setFlags claimed .received := by
          simp [Hba.apply, scsitap_ioctl_receive_task, hready, hfound]
        rw [hset] at hflags ⊢
        by_cases htask : task = claimed
        · subst htask
          refine .inr ⟨file, hfile, Option.some_ne_none file, List.mem_append_right _ ?_⟩
          simp [claimOf, hready, hfound]
        · rw [Hba.setFlags_of_ne _ _ _ htask] at hflags ⊢
          exact .inl ⟨hs, ht, hflags, rfl⟩
    · have hsame : ((d.hbas s).apply (.receive_task arg)).tasks = (d.hbas s).tasks := by
        simp [Hba.apply, scsitap_ioctl_receive_task, hready]
      rw [hsame] at hflags ⊢
      exact .inl ⟨hs, ht, hflags, rfl⟩
  · rw [recordClaim_hbas, Function.update_of_ne heq] at ht hflags ⊢
    exact .inl ⟨hs, ht, hflags, rfl⟩

/-- What a file leaves that others have claimed too stays owned when it is
closed. -/
theorem Owned.close {file : Nat} (hleaves : d.LeavesNothing (.ctl_release file)) (hwellformed : d.Wellformed)
    (hopened : d'.opened = d.opened.erase file) (hclaims : d'.claims = d.claims)
    (hqueue : d'.session_queue = d.session_queue)
    (htasks : ∀ s, (d'.hbas s).queue = (d.hbas s).queue ∧ (d'.hbas s).tasks = (d.hbas s).tasks) : d'.Owned := by
  intro session hsession task ht hflags
  rw [(htasks session).1] at ht
  rw [(htasks session).2] at hflags ⊢
  rw [hqueue] at hsession
  obtain ⟨owner, howner, hne, hclaim⟩ := hleaves session hsession task ht hflags
  refine ⟨owner, ?_, nofun, by rwa [hclaims]⟩
  rw [hopened]
  exact hwellformed.files.mem_erase_iff.mpr ⟨fun heq => hne (congrArg some heq), howner⟩

theorem release_tasks (d : Driver) (session s : Nat) :
    ((d.callSession session .release).hbas s).queue = (d.hbas s).queue ∧
      ((d.callSession session .release).hbas s).tasks = (d.hbas s).tasks := by
  rw [callSession_hbas]
  by_cases heq : s = session
  · subst heq
    rw [Function.update_self]
    exact ⟨rfl, rfl⟩
  · rw [Function.update_of_ne heq]
    exact ⟨rfl, rfl⟩

theorem Owned.change (h : d.Owned) (hwellformed : d.Wellformed) {op : DriverOp} (hleaves : d.LeavesNothing op)
    (hchange : Change d op d') : d'.Owned := by
  cases hchange with
  | nothing _ _ _ => exact h
  | opened minor => exact h.same (List.subset_append_left _ _) rfl (List.Subset.refl _) rfl
  | attached file session pid host hfile hfound => exact h.attach file session pid
  | created file pid host hfile hnone hfresh => exact (h.addSession _ host).attach file d.created pid
  | claimed file session arg host hfile hsession hcall => exact h.recordClaim hfile arg
  | positioned file arg host hfile => exact h.same (List.Subset.refl _) rfl (List.Subset.refl _) rfl
  | destroyed file session host hfile hfound hclosed hcall =>
    refine h.of_claims (List.Subset.refl _) (List.Subset.refl _) fun s hs task ht hflags => .inl ?_
    obtain ⟨hne, hold⟩ := hwellformed.sessions.mem_erase_iff.mp hs
    rw [removeSession_hbas, Function.update_of_ne hne] at ht hflags ⊢
    exact ⟨hold, ht, hflags, rfl⟩
  | written file session user count hfile hsession hcall =>
    refine h.session session (List.Subset.refl _) rfl (List.Subset.refl _) ?_ fun s hs => Function.update_of_ne hs _ _
    rw [callSession_hbas, Function.update_self]
    exact .apply (hwellformed.valid session hcall.1) (.inr ⟨user, count, rfl⟩) hcall.2.2
  | midlayer session op hop hcall =>
    refine h.session session (List.Subset.refl _) rfl (List.Subset.refl _) ?_ fun s hs => Function.update_of_ne hs _ _
    rw [callSession_hbas, Function.update_self]
    exact .apply (hwellformed.valid session hcall.1) (.inl hop) hcall.2.2
  | closed file session hfile hsession hcall =>
    exact .close hleaves hwellformed rfl rfl rfl fun s => release_tasks d session s
  | closedBogus file hfile hsession => exact .close hleaves hwellformed rfl rfl rfl fun s => ⟨rfl, rfl⟩
  | scanBegun hpending => exact h.same (List.Subset.refl _) rfl (List.Subset.refl _) rfl
  | scanEnded session hscanning => exact h.same (List.Subset.refl _) rfl (List.Subset.refl _) rfl

/-- The task that only the closed file had claimed has no owner left. -/
theorem not_owned_of_closed (hwellformed : d.Wellformed) {file : Nat} (hleaves : ¬ d.LeavesNothing (.ctl_release file))
    (hopened : d'.opened = d.opened.erase file) (hclaims : d'.claims = d.claims)
    (hqueue : d'.session_queue = d.session_queue)
    (htasks : ∀ s, (d'.hbas s).queue = (d.hbas s).queue ∧ (d'.hbas s).tasks = (d.hbas s).tasks) : ¬ d'.Owned := by
  intro howned
  refine hleaves fun session hsession task ht hflags => ?_
  have hheld := howned session (by rwa [hqueue]) task (by rwa [(htasks session).1]) (by rwa [(htasks session).2])
  obtain ⟨owner, howner, -, hclaim⟩ := hheld
  rw [(htasks session).2, hclaims] at hclaim
  rw [hopened] at howner
  obtain ⟨hne, hold⟩ := hwellformed.files.mem_erase_iff.mp howner
  exact ⟨owner, hold, fun heq => hne (Option.some.inj heq), hclaim⟩

theorem not_owned_of_leaves (hwellformed : d.Wellformed) {op : DriverOp} (hleaves : ¬ d.LeavesNothing op)
    (hchange : Change d op d') : ¬ d'.Owned := by
  cases hchange with
  | nothing op hregister hunregister hrelease =>
    refine absurd ?_ hleaves
    unfold LeavesNothing
    split
    · rename_i file
      exact absurd rfl (hrelease file)
    · trivial
  | closed file session hfile hsession hcall =>
    exact not_owned_of_closed hwellformed hleaves rfl rfl rfl fun s => release_tasks d session s
  | closedBogus file hfile hsession =>
    exact not_owned_of_closed hwellformed hleaves rfl rfl rfl fun s => ⟨rfl, rfl⟩
  | _ => exact absurd trivial hleaves

/-- In a run every queued task that is no longer offered has an open target that
claimed it, exactly if no file is closed that alone has claimed a queued task. -/
theorem owned_iff {start : Driver} {trace : List (Driver × DriverOp)} (hinit : Initial start)
    (hrun : Run Step start trace d) : Always Owned trace d ↔ ∀ e ∈ trace, e.1.LeavesNothing e.2 := by
  refine hrun.always_iff (I := fun d => d.Wellformed ∧ d.Owned) ⟨.initial hinit, .initial hinit⟩ ?_ ?_ ?_
  · rintro state ⟨-, howned⟩
    exact howned
  · rintro state label next ⟨hwellformed, howned⟩ hleaves hstep
    exact ⟨hwellformed.change hstep.change, howned.change hwellformed hleaves hstep.change⟩
  · rintro state label next ⟨hwellformed, -⟩ hleaves hstep
    exact not_owned_of_leaves hwellformed hleaves hstep.change

/-- One target, and one command queued for it. -/
def oneQueued : Driver := ((loaded.addFile 0).afterRegister 0).apply (.midlayer 0 (.queuecommand 0 (some 8)))

/-- The target has claimed the command. -/
def oneClaimed : Driver := oneQueued.apply (.ctl_ioctl 0 none (.receive_task 1))

theorem oneQueued_run : ∃ trace, Run Step loaded trace oneQueued ∧ ∀ e ∈ trace, e.1.LeavesNothing e.2 := by
  have hqueue : (((loaded.addFile 0).afterRegister 0).hbas 0).session.scsitap_queue = [] := rfl
  have hstep : ((loaded.addFile 0).afterRegister 0).Step (.midlayer 0 (.queuecommand 0 (some 8))) oneQueued := by
    refine ⟨⟨trivial, by decide, fun _ => rfl, fun task ht => ?_, fun task _ ht => ?_⟩, rfl⟩
    · rw [hqueue] at ht
      cases ht
    · rw [hqueue] at ht
      cases ht
  have hrun := ((Run.nil.snoc (open_step loaded 0)).snoc (register_step 0 (List.mem_singleton.mpr rfl))).snoc hstep
  refine ⟨_, hrun, fun e he => ?_⟩
  simp only [List.cons_append, List.nil_append, List.mem_cons, List.not_mem_nil, or_false] at he
  rcases he with rfl | rfl | rfl <;> trivial

theorem oneClaimed_step : oneQueued.Step (.ctl_ioctl 0 none (.receive_task 1)) oneClaimed := by
  refine ⟨⟨List.mem_singleton.mpr rfl, fun session hsession => ?_⟩, rfl⟩
  obtain rfl : 0 = session := Option.some.inj hsession
  exact ⟨by decide, fun _ => rfl, trivial⟩

/-- The target claims the command and is closed. -/
theorem orphan_of_closed : ¬ ∀ start d trace, Initial start → Run Step start trace d → Always Owned trace d := by
  intro hall
  obtain ⟨trace, hrun, -⟩ := oneQueued_run
  have hrelease : oneClaimed.Step (.ctl_release 0) ((oneClaimed.callSession 0 .release).closeFile 0) :=
    release_step (List.mem_singleton.mpr rfl) rfl (by decide)
  have howned := (hall _ _ _ loaded_initial ((hrun.snoc oneClaimed_step).snoc hrelease)).2
  obtain ⟨owner, howner, -⟩ := howned 0 (by decide) 8 (by decide) rfl
  cases howner

/-- The target claims the command and stays open. -/
theorem owned_one_claimed : ∃ trace, Run Step loaded trace oneClaimed ∧ Always Owned trace oneClaimed := by
  obtain ⟨trace, hrun, hleaves⟩ := oneQueued_run
  have hrun' := hrun.snoc oneClaimed_step
  refine ⟨_, hrun', (owned_iff loaded_initial hrun').mpr fun e he => ?_⟩
  rcases List.mem_append.mp he with hold | hnew
  · exact hleaves e hold
  · rw [List.mem_singleton.mp hnew]
    trivial

end Driver

end vscsi
