import Vscsi.Target.MainLoop
import Vscsi.Target.Exchange
import Vscsi.Lib.Run

open lib

namespace vscsi

open hba device api

namespace System

variable {Pid : Type} {E : Engine Pid}

/-- The steps of processes, and what the mid layer does: it submits commands
within the host's limits, aborts them and resets the host. -/
def Legal (s : System E) : Act Pid → Prop
  | .kernel (.prepare _ _ _) => True
  | .kernel (.queuecommand sc _) => (s.hba.cmnds sc).request.Legal
  | .kernel (.eh_abort _) => True
  | .kernel .eh_host_reset => True
  | .kernel _ => False
  | _ => True

/-- A data read finds what it asks for. -/
def Ready (s : System E) : Act Pid → Prop
  | .receive pid => DataReady s.hba (s.procs pid).task
  | _ => True

/-- No process has run into `exit(1)`. -/
def Alive (s : System E) : Prop := ∀ pid, (s.procs pid).phase ≠ .exited

/-- What legal steps keep, whether or not processes exit. -/
structure Sound (s : System E) : Prop where
  valid : s.hba.Valid
  serving : s.hba.Serving
  legal : ∀ task ∈ s.hba.queue, (s.hba.cmnds (s.hba.tasks task).sc).request.Legal
  bounded : ∀ pid, (s.procs pid).task.Bounded
  receiving : ∀ pid, (s.procs pid).phase = .receiving → (s.procs pid).task.direction = 79

theorem register_scsi_host_bounded : register_scsi_host.Bounded := by
  constructor <;> decide

theorem Sound.attached {s : System E} (h : s.Attached) : s.Sound where
  valid := h.reachable.valid
  serving := h.serving
  legal task ht := by
    rw [h.empty] at ht
    cases ht
  bounded pid := by
    rw [h.polling]
    exact register_scsi_host_bounded
  receiving pid hphase := by
    rw [h.polling] at hphase
    cases hphase

theorem Sound.mapped {s : System E} (h : s.Sound) :
    ∀ addr ∈ s.hba.queue, (s.hba.cmnds (s.hba.tasks addr).sc).request_buffer.Mapped :=
  fun addr haddr => (h.legal addr haddr).mapped

/-- A session that keeps its tasks, apart from adding legal ones, stays sound. -/
theorem Sound.session {s : System E} (h : s.Sound) {hba : Hba} (hvalid : hba.Valid) (hserving : hba.Serving)
    (hqueue : ∀ task ∈ hba.queue, Hba.Kept s.hba hba task ∨
      (hba.cmnds (hba.tasks task).sc).request.Legal) : Sound { s with hba } where
  valid := hvalid
  serving := hserving
  legal task ht := by
    rcases hqueue task ht with hkept | hnew
    · change (hba.cmnds (hba.tasks task).sc).request.Legal
      rw [hkept.request]
      exact h.legal task hkept.queued
    · exact hnew
  bounded := h.bounded
  receiving := h.receiving

theorem Sound.kernel {s : System E} (h : s.Sound) {op : Op} (hlegal : s.Legal (.kernel op)) {hba : Hba}
    (hstep : s.hba.Step op hba) : Sound { s with hba } := by
  obtain ⟨_, _, hallowed, rfl⟩ := hstep
  have hquiet : op.Quiet := by
    cases op <;> trivial
  have hvalid := h.valid.apply op hallowed
  have hserving := h.serving.apply hquiet
  by_cases hop : ∃ sc slot, op = .queuecommand sc slot
  · obtain ⟨sc, slot, rfl⟩ := hop
    rcases h.valid.queuecommand_evolves hallowed with hevolves | ⟨task, hfresh, ha⟩
    · exact h.session hvalid hserving fun t ht => .inl (hevolves.kept t ht)
    · refine h.session hvalid hserving fun t ht => ?_
      refine (Hba.Valid.accepted_queue hfresh ha t ht).imp_right fun hnew => ?_
      exact hnew.request ▸ hlegal
  · have hevolves := h.valid.apply_evolves hallowed fun sc slot heq => hop ⟨sc, slot, heq⟩
    exact h.session hvalid hserving fun t ht => .inl (hevolves.kept t ht)

variable [DecidableEq Pid]

/-- A process moves on with a task of the same bounds. -/
theorem Sound.setProc {s : System E} (h : s.Sound) (pid : Pid) {phase : Phase E.Local} {task : UserScsitapTask}
    (hbounded : task.Bounded) (hreceiving : phase = .receiving → task.direction = 79) :
    (s.setProc pid phase task).Sound where
  valid := h.valid
  serving := h.serving
  legal := h.legal
  bounded other := by
    by_cases heq : other = pid
    · subst heq
      simpa [System.setProc] using hbounded
    · simpa [System.setProc, heq] using h.bounded other
  receiving other := by
    by_cases heq : other = pid
    · subst heq
      simpa [System.setProc] using hreceiving
    · simpa [System.setProc, heq] using h.receiving other

/-- A process that had not exited moves on. -/
theorem alive_setProc {s : System E} {pid : Pid} (hbefore : (s.procs pid).phase ≠ .exited) (hba : Hba)
    (shared : E.Shared) (phase : Phase E.Local) (task : UserScsitapTask) :
    (({ s with hba, shared } : System E).setProc pid phase task).Alive ↔ s.Alive ∧ phase ≠ .exited := by
  constructor
  · intro halive
    refine ⟨fun other => ?_, by simpa [System.setProc] using halive pid⟩
    by_cases heq : other = pid
    · rwa [heq]
    · simpa [System.setProc, heq] using halive other
  · rintro ⟨halive, hphase⟩ other
    by_cases heq : other = pid
    · subst heq
      simpa [System.setProc] using hphase
    · simpa [System.setProc, heq] using halive other

omit [DecidableEq Pid] in
theorem check_ne_exited {x : Int} (next : Phase E.Local) (hnext : next ≠ .exited) :
    check (E := E) x next ≠ .exited ↔ ¬ x < 0 := by
  unfold check
  split <;> simp_all

omit [DecidableEq Pid] in
theorem dispatch_ne_exited (task : UserScsitapTask) : dispatch (E := E) task ≠ .exited := by
  unfold dispatch
  split
  · nofun
  · split <;> nofun

omit [DecidableEq Pid] in
theorem dispatch_receiving {task : UserScsitapTask} {x : Int}
    (h : check (E := E) x (dispatch task) = .receiving) : task.direction = 79 := by
  unfold check dispatch at h
  split at h
  · cases h
  · split at h
    · cases h
    · split at h
      · assumption
      · cases h

/-- The task of a legal command is within bounds. -/
theorem decoded_bounded {k : Hba} {addr : Addr} (h : (k.cmnds (k.tasks addr).sc).request.Legal) (type : UInt8)
    (task : UserScsitapTask) : (decoded k addr type task).Bounded := by
  have hlen : (k.cmnds (k.tasks addr).sc).request_bufflen.toNat ≤ 131072 := h.request_bufflen
  have hint : int32 ((k.cmnds (k.tasks addr).sc).request_bufflen.toNat : Int) =
      (k.cmnds (k.tasks addr).sc).request_bufflen.toNat := int32_of_range (by omega) (by omega)
  simp only [UserScsitapTask.Bounded, decoded, hint]
  omega

theorem Sound.wake {s s' : System E} (h : s.Sound) {pid : Pid} (hstep : s.Step (.wake pid) s') : s'.Sound ∧ (s'.Alive ↔ s.Alive) := by
  obtain ⟨-, -, -, rfl⟩ := hstep
  refine ⟨⟨h.valid, h.serving, h.legal, fun other => ?_, fun other => ?_⟩, ?_⟩
  · rw [afterWake_task]
    exact h.bounded other
  · rw [afterWake_phase, afterWake_task]
    exact h.receiving other
  · simp only [Alive, afterWake_phase]

theorem Sound.header {s s' : System E} (h : s.Sound) {pid : Pid} (hstep : s.Step (.header pid) s') :
    s'.Sound ∧ (s'.Alive ↔ s.Alive) := by
  obtain ⟨_, hphase, hresult⟩ := hstep
  have hbefore : (s.procs pid).phase ≠ .exited := by
    rw [hphase]
    nofun
  rw [get_scsi_task_header_eq, if_neg (not_not.mpr h.serving.ready)] at hresult
  cases hoffer : offer s.hba with
  | none =>
    rw [hoffer] at hresult
    subst hresult
    refine ⟨h.setProc pid (h.bounded pid) (nofun), ?_⟩
    refine (alive_setProc hbefore _ _ _ _).trans ?_
    rw [check_ne_exited .polling (nofun)]
    simp
  | some addr =>
    have hlegal := h.legal addr (offer_some hoffer).1
    rw [hoffer] at hresult
    simp only [if_pos (show (s.hba.cmnds (s.hba.tasks addr).sc).cmd_len.toNat ≤ 16 from hlegal.cmd_len)] at hresult
    subst hresult
    refine ⟨h.setProc pid (decoded_bounded hlegal _ _) (nofun), ?_⟩
    refine (alive_setProc hbefore _ _ _ _).trans ?_
    simp

theorem Sound.claim {s s' : System E} (h : s.Sound) {pid : Pid} (hstep : s.Step (.claim pid) s') :
    s'.Sound ∧ (s'.Alive ↔ s.Alive) := by
  obtain ⟨_, hphase, hresult⟩ := hstep
  subst hresult
  have hbefore : (s.procs pid).phase ≠ .exited := by
    rw [hphase]
    nofun
  obtain ⟨hsucceeds, hsession⟩ := get_scsi_task_claim_succeeds h.serving.ready (s.procs pid).task
  have hevolves := Hba.Valid.receive_task_evolves s.hba (s.procs pid).task.cmd_number.toNat
  have hvalid := h.valid.receive_task (s.procs pid).task.cmd_number.toNat
  rw [← get_scsi_task_claim_snd] at hevolves hvalid
  have hsound := h.session hvalid (h.serving.same (.of_session hsession)) fun t ht => .inl (hevolves.kept t ht)
  refine ⟨hsound.setProc pid (h.bounded pid) dispatch_receiving, ?_⟩
  refine (alive_setProc hbefore _ _ _ _).trans ?_
  rw [check_ne_exited _ (dispatch_ne_exited _), hsucceeds]
  simp

theorem Sound.receive {s s' : System E} (h : s.Sound) {pid : Pid} (hstep : s.Step (.receive pid) s') :
    s'.Sound ∧ (s'.Alive ↔ s.Alive ∧ DataReady s.hba (s.procs pid).task) := by
  obtain ⟨_, hphase, hresult⟩ := hstep
  subst hresult
  have hbefore : (s.procs pid).phase ≠ .exited := by
    rw [hphase]
    nofun
  have hdirection := h.receiving pid hphase
  have hfails := receive_scsi_data_fails_iff h.serving.ready hdirection (h.bounded pid) h.mapped
  have hbounded : (receive_scsi_data s.hba (s.procs pid).task).2.Bounded := by
    simp only [receive_scsi_data, hdirection, ne_eq, not_true_eq_false, if_false]
    exact h.bounded pid
  refine ⟨h.setProc pid hbounded ?_, ?_⟩
  · intro hcheck
    unfold check at hcheck
    split at hcheck <;> cases hcheck
  · refine (alive_setProc hbefore _ _ _ _).trans ?_
    rw [check_ne_exited .loaded (by simp), hfails, not_not]

theorem Sound.complete {s s' : System E} (h : s.Sound) {pid : Pid} (hstep : s.Step (.complete pid) s') :
    s'.Sound ∧ (s'.Alive ↔ s.Alive) := by
  obtain ⟨_, ⟨call, status, data, hphase⟩, hresult⟩ := hstep
  subst hresult
  have hbefore : (s.procs pid).phase ≠ .exited := by
    rw [hphase]
    nofun
  have hsucceeds := complete_scsi_task_succeeds h.serving.ready (h.bounded pid) h.mapped
  have heq := complete_scsi_task_eq (k := s.hba) (h.bounded pid)
  have hhba := congrArg (fun r => r.2.1) heq
  have htask := congrArg (fun r => r.2.2) heq
  simp only at hhba htask
  have hsound : Sound { s with hba := (complete_scsi_task s.hba (s.procs pid).task).2.1 } := by
    rw [hhba]
    exact h.session (h.valid.ctl_write _ _) (h.serving.same (scsitap_ctl_write_sameService _ _ _))
      fun t ht => .inl ((Hba.Valid.ctl_write_evolves s.hba _ _).kept t ht)
  refine ⟨hsound.setProc pid ?_ ?_, ?_⟩
  · rw [htask]
    exact h.bounded pid
  · intro hcheck
    unfold check at hcheck
    split at hcheck <;> cases hcheck
  · refine (alive_setProc hbefore _ _ _ _).trans ?_
    rw [check_ne_exited .polling (nofun), hsucceeds]
    simp

theorem finished_bounded {task : UserScsitapTask} (h : task.Bounded) (status : UInt8) (data : Mem) :
    (task.finished status data).Bounded := by
  unfold UserScsitapTask.Bounded UserScsitapTask.finished
  dsimp only
  split
  · exact ⟨Int.le_refl 0, by decide⟩
  · exact h

/-- A legal step keeps a system sound, and only a data read without data makes a
process exit. -/
theorem Sound.step {s s' : System E} {act : Act Pid} (h : s.Sound) (hlegal : s.Legal act)
    (hstep : s.Step act s') : s'.Sound ∧ (s'.Alive ↔ s.Alive ∧ s.Ready act) := by
  cases act with
  | kernel op =>
    obtain ⟨hba, hop, rfl⟩ := hstep
    exact ⟨h.kernel hlegal hop, by simp [Alive, Ready]⟩
  | wake pid => simpa [Ready] using h.wake hstep
  | header pid => simpa [Ready] using h.header hstep
  | claim pid => simpa [Ready] using h.claim hstep
  | receive pid => exact h.receive hstep
  | start pid =>
    obtain ⟨hphase, rfl⟩ := hstep
    refine ⟨h.setProc pid (h.bounded pid) (nofun), ?_⟩
    refine (alive_setProc (by rw [hphase]; nofun) _ _ _ _).trans ?_
    simp [Ready]
  | run pid =>
    obtain ⟨call, loc, loc', shared, hphase, -, rfl⟩ := hstep
    have hsound : Sound { s with shared } := ⟨h.valid, h.serving, h.legal, h.bounded, h.receiving⟩
    refine ⟨hsound.setProc pid (h.bounded pid) (nofun), ?_⟩
    refine (alive_setProc (by rw [hphase]; nofun) _ _ _ _).trans ?_
    simp [Ready]
  | finish pid =>
    obtain ⟨call, loc, status, data, hphase, -, rfl⟩ := hstep
    refine ⟨h.setProc pid (finished_bounded (h.bounded pid) status data) (nofun), ?_⟩
    refine (alive_setProc (by rw [hphase]; nofun) _ _ _ _).trans ?_
    simp [Ready]
  | complete pid => simpa [Ready] using h.complete hstep
  | kill pid =>
    obtain ⟨hphase, -, rfl⟩ := hstep
    have hsound : Sound { s with shared := E.kill pid s.shared } :=
      ⟨h.valid, h.serving, h.legal, h.bounded, h.receiving⟩
    refine ⟨hsound.setProc pid (h.bounded pid) (nofun), ?_⟩
    refine (alive_setProc hphase _ _ _ _).trans ?_
    simp [Ready]
  | flush pid =>
    obtain ⟨shared, -, -, rfl⟩ := hstep
    exact ⟨⟨h.valid, h.serving, h.legal, h.bounded, h.receiving⟩, by simp [Alive, Ready]⟩

theorem Sound.run {start s : System E} {trace : List (System E × Act Pid)} (h : start.Attached)
    (hrun : Run Step start trace s) (hlegal : ∀ e ∈ trace, e.1.Legal e.2) :
    s.Sound ∧ (s.Alive ↔ ∀ e ∈ trace, e.1.Ready e.2) := by
  induction hrun with
  | nil =>
    refine ⟨.attached h, ?_⟩
    simp [Alive, h.polling]
  | @snoc trace state next act run hstep ih =>
    obtain ⟨hsound, halive⟩ := ih fun e he => hlegal e (List.mem_append_left _ he)
    have hlast := hlegal (state, act) (List.mem_append_right _ (List.mem_singleton.mpr rfl))
    obtain ⟨hsound', halive'⟩ := hsound.step hlast hstep
    refine ⟨hsound', ?_⟩
    rw [halive', halive]
    simp [or_imp, forall_and]

/-- Targets survive exactly the runs in which every data read finds its data: a
task that is still queued, claimed and of the length asked for, or for a length
of zero any task that waits to be claimed. -/
theorem targets_survive_iff {start s : System E} {trace : List (System E × Act Pid)} (h : start.Attached)
    (hrun : Run Step start trace s) (hlegal : ∀ e ∈ trace, e.1.Legal e.2) :
    (∀ pid, (s.procs pid).phase ≠ .exited) ↔ ∀ e ∈ trace, e.1.Ready e.2 :=
  (Sound.run h hrun hlegal).2

/-- A process that polls gets the command the session offers. -/
theorem header_step {s : System E} (hserving : s.hba.Serving) {pid : Pid}
    (hphase : (s.procs pid).phase = .polling) (hawake : (s.procs pid).awake = true) {addr : Addr} (hoffer : offer s.hba = some addr)
    (hlen : (s.hba.cmnds (s.hba.tasks addr).sc).cmd_len.toNat ≤ 16) :
    s.Step (.header pid) (s.setProc pid .claiming
      (decoded s.hba addr (s.hba.tasks addr).type (s.procs pid).task)) := by
  refine ⟨⟨⟨hserving.listed, hserving.unlocked⟩, hawake⟩, hphase, ?_⟩
  rw [get_scsi_task_header_eq, if_neg (not_not.mpr hserving.ready), hoffer]
  simp only [if_pos hlen]

end System

/-- An engine on which every command ends at once with status 0. -/
def silent (Pid : Type) : Engine Pid where
  Shared := Unit
  Local := Mem
  start := fun _ _ data _ => data
  Step := fun _ _ _ _ _ => False
  result := fun data => some (0, data)
  kill := fun _ _ => ()
  Flush := fun _ _ _ => False

/-- One target that has not asked for a task yet. -/
def alone (hba : Hba) : System (silent Unit) where
  hba := hba
  shared := ()
  procs := fun _ => { phase := .polling, task := api.register_scsi_host }

/-- A command that writes one block. -/
def oneBlockOut : ScsiCmnd := { ScsiCmnd.zero with
  sc_data_direction := .dma_to_device
  request_bufflen := 512 }

/-- A session with one target, and with one command that writes one block. -/
def oneTarget : Hba := Hba.fresh.apply (.register_client 1)
def oneTargetPrepared : Hba := oneTarget.apply (.prepare 0 oneBlockOut fun _ => 0xff)
def oneTargetQueued : Hba := oneTargetPrepared.apply (.queuecommand 0 (some 8))

namespace System

theorem alone_attached : (alone oneTarget).Attached where
  reachable := ⟨.fresh, Hba.fresh_initial, lib.Reachable.refl.tail Hba.register_step⟩
  serving := ⟨rfl, rfl, rfl⟩
  empty := rfl
  polling := fun _ => rfl

theorem alone_step {k k' : Hba} {op : Op} (h : k.Step op k') : (alone k).Step (.kernel op) (alone k') :=
  ⟨k', h, rfl⟩

theorem oneTarget_idle (sc : Addr) : oneTarget.Idle sc := by
  intro task ht
  rw [show oneTarget.session.scsitap_queue = [] from rfl] at ht
  cases ht

theorem oneTarget_prepare : oneTarget.Step (.prepare 0 oneBlockOut fun _ => 0xff) oneTargetPrepared :=
  ⟨rfl, fun _ => rfl, ⟨oneTarget_idle 0, rfl⟩, rfl⟩

theorem oneTarget_queue : oneTargetPrepared.Step (.queuecommand 0 (some 8)) oneTargetQueued := by
  refine ⟨rfl, fun _ => rfl, ⟨oneTarget_idle 0, ?_⟩, rfl⟩
  intro task _ ht
  rw [show oneTargetPrepared.session.scsitap_queue = [] from rfl] at ht
  cases ht

/-- The target has read the header of the command. -/
def offered : System (silent Unit) :=
  ((alone oneTargetQueued).afterWake ()).setProc () .claiming (decoded oneTargetQueued 8 67 register_scsi_host)

/-- The target has claimed the command. -/
def claimed : System (silent Unit) := offered.afterClaim ()

def claimedTrace : List (System (silent Unit) × Act Unit) :=
  [(alone oneTarget, .kernel (.prepare 0 oneBlockOut fun _ => 0xff)),
    (alone oneTargetPrepared, .kernel (.queuecommand 0 (some 8))), (alone oneTargetQueued, .wake ()),
    ((alone oneTargetQueued).afterWake (), .header ()), (offered, .claim ())]

theorem oneTarget_wake : Step (alone oneTargetQueued) (.wake ()) ((alone oneTargetQueued).afterWake ()) :=
  ⟨rfl, .inl rfl, rfl, rfl⟩

theorem offered_step : Step ((alone oneTargetQueued).afterWake ()) (.header ()) offered := by
  have hserving : ((alone oneTargetQueued).afterWake ()).hba.Serving := ⟨rfl, rfl, rfl⟩
  exact header_step hserving rfl rfl (show offer oneTargetQueued = some 8 from rfl) (by decide)

theorem claimed_step : Step offered (.claim ()) claimed := ⟨⟨rfl, rfl⟩, rfl, rfl⟩

theorem claimed_run : Run Step (alone oneTarget) claimedTrace claimed := by
  have hqueued := (Run.nil.snoc (alone_step oneTarget_prepare)).snoc (alone_step oneTarget_queue)
  exact ((hqueued.snoc oneTarget_wake).snoc offered_step).snoc claimed_step

theorem oneBlockOut_legal : oneBlockOut.request.Legal := ⟨by decide, by decide, trivial⟩

theorem claimedTrace_legal : ∀ e ∈ claimedTrace, e.1.Legal e.2 := by
  intro e he
  simp only [claimedTrace, List.mem_cons, List.not_mem_nil, or_false] at he
  rcases he with rfl | rfl | rfl | rfl | rfl
  · trivial
  · exact oneBlockOut_legal
  · trivial
  · trivial
  · trivial

theorem claimedTrace_ready : ∀ e ∈ claimedTrace, e.1.Ready e.2 := by
  intro e he
  simp only [claimedTrace, List.mem_cons, List.not_mem_nil, or_false] at he
  rcases he with rfl | rfl | rfl | rfl | rfl <;> trivial

/-- The target's data read has passed its wait. -/
def reading : System (silent Unit) := claimed.afterWake ()

theorem reading_step : Step claimed (.wake ()) reading := ⟨rfl, .inr rfl, rfl, rfl⟩

theorem reading_receive : Step reading (.receive ()) (reading.afterReceive ()) := ⟨⟨⟨rfl, rfl⟩, rfl⟩, rfl, rfl⟩

theorem reading_dataReady : DataReady reading.hba (reading.procs ()).task := by
  have hlen : (reading.procs ()).task.request_bufflen ≠ 0 := by decide
  rw [DataReady, if_neg hlen]
  exact ⟨8, rfl, rfl, by decide⟩

/-- While the command is queued the data read succeeds. -/
theorem targets_survive_iff_data_read : ((reading.afterReceive ()).procs ()).phase ≠ .exited := by
  have hrun := (claimed_run.snoc reading_step).snoc reading_receive
  refine (targets_survive_iff alone_attached hrun ?_).mpr ?_ ()
  · simp only [List.forall_mem_append, List.forall_mem_singleton]
    exact ⟨⟨claimedTrace_legal, trivial⟩, trivial⟩
  · simp only [List.forall_mem_append, List.forall_mem_singleton]
    exact ⟨⟨claimedTrace_ready, trivial⟩, reading_dataReady⟩

/-- A second command joins the claimed one, which is aborted before its data is read. -/
def secondPrepared : Hba := claimed.hba.apply (.prepare 1 oneBlockOut fun _ => 0)
def secondQueued : Hba := secondPrepared.apply (.queuecommand 1 (some 16))
def firstAborted : Hba := secondQueued.apply (.eh_abort 0)

def abortedTrace : List (System (silent Unit) × Act Unit) :=
  claimedTrace ++ [(claimed, .kernel (.prepare 1 oneBlockOut fun _ => 0)),
    ({ claimed with hba := secondPrepared }, .kernel (.queuecommand 1 (some 16))),
    ({ claimed with hba := secondQueued }, .kernel (.eh_abort 0)), ({ claimed with hba := firstAborted }, .wake ())]

/-- The data read of the command that is gone has passed its wait. -/
def misled : System (silent Unit) := { claimed with hba := firstAborted }.afterWake ()

theorem claimed_idle : claimed.hba.Idle 1 := by
  intro task ht
  rw [show claimed.hba.session.scsitap_queue = [8] from rfl] at ht
  obtain rfl := List.mem_singleton.mp ht
  decide

theorem misled_run : Run Step (alone oneTarget) abortedTrace misled := by
  have hprepare : Step claimed (.kernel (.prepare 1 oneBlockOut fun _ => 0)) { claimed with hba := secondPrepared } :=
    ⟨_, ⟨rfl, fun _ => rfl, ⟨claimed_idle, rfl⟩, rfl⟩, rfl⟩
  have hqueue : Step { claimed with hba := secondPrepared } (.kernel (.queuecommand 1 (some 16)))
      { claimed with hba := secondQueued } := by
    refine ⟨_, ⟨rfl, fun _ => rfl, ⟨claimed_idle, ?_⟩, rfl⟩, rfl⟩
    rintro task ⟨rfl⟩ ht
    rw [show secondPrepared.session.scsitap_queue = [8] from rfl] at ht
    exact absurd (List.mem_singleton.mp ht) (by decide)
  have habort : Step { claimed with hba := secondQueued } (.kernel (.eh_abort 0)) { claimed with hba := firstAborted } :=
    ⟨_, ⟨rfl, fun _ => rfl, trivial, rfl⟩, rfl⟩
  have hwake : Step { claimed with hba := firstAborted } (.wake ()) misled := ⟨rfl, .inr rfl, rfl, rfl⟩
  exact claimed_run.append ((((Run.nil.snoc hprepare).snoc hqueue).snoc habort).snoc hwake)

/-- An abort between the claim and the data read ends the target, while another command
waits for it. -/
theorem target_exits_on_abort : ¬ ∀ (s : System (silent Unit)) trace, Run Step (alone oneTarget) trace s →
    (∀ e ∈ trace, e.1.Legal e.2) → ∀ pid, (s.procs pid).phase ≠ .exited := by
  intro hsurvives
  have hreceive : Step misled (.receive ()) (misled.afterReceive ()) := ⟨⟨⟨rfl, rfl⟩, rfl⟩, rfl, rfl⟩
  have hlegal : ∀ e ∈ abortedTrace, e.1.Legal e.2 := by
    simp only [abortedTrace, List.forall_mem_append, List.forall_mem_cons, List.not_mem_nil, IsEmpty.forall_iff, implies_true]
    exact ⟨claimedTrace_legal, trivial, oneBlockOut_legal, trivial, trivial, trivial⟩
  have hnone : ¬ DataReady misled.hba (misled.procs ()).task := by
    have hlen : (misled.procs ()).task.request_bufflen ≠ 0 := by decide
    have hgone : task_of_cmd misled.hba (misled.procs ()).task.cmd_number = none := rfl
    rw [DataReady, if_neg hlen, hgone]
    rintro ⟨addr, haddr, -⟩
    cases haddr
  obtain ⟨hsound, -⟩ := Sound.run alone_attached misled_run hlegal
  have halive := (hsound.receive hreceive).2.mp (hsurvives _ _ (misled_run.snoc hreceive) ?_)
  · exact hnone halive.2
  · simp only [List.forall_mem_append, List.forall_mem_singleton]
    exact ⟨hlegal, trivial⟩

end System

end vscsi
