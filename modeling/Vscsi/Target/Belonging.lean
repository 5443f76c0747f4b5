import Vscsi.Target.Backlog
import Vscsi.Target.Tracking

open lib

namespace vscsi

open hba device api

theorem hba.abort_mem (k : Hba) (sc : Addr) : (scsitap_eh_abort k sc).2.mem = k.mem := by
  unfold scsitap_eh_abort
  cases (k.cmnds sc).SCp_ptr with
  | none => rfl
  | some task => exact scsitap_complete_task_mem _ task

namespace Watched

variable {Pid : Type} [DecidableEq Pid] {E : Engine Pid} {w w' : Watched E} {act : Act Pid} {pid : Pid}

omit [DecidableEq Pid] in
theorem Proper.legal (h : w.Proper act) : w.system.Legal act := by
  cases act with
  | kernel op =>
    cases op with
    | queuecommand sc slot => exact h.1.toLegal
    | prepare sc cmnd mem => trivial
    | eh_abort sc => trivial
    | eh_host_reset => trivial
    | _ => exact h.elim
  | _ => trivial

omit [DecidableEq Pid] in
/-- What the mid layer does. -/
theorem Tracked.kernel (h : w.Tracked) {op : Op} (hproper : w.Proper (.kernel op)) {hba : Hba}
    (hstep : w.system.hba.Step op hba) : w.system.hba.Onward hba := by
  obtain ⟨_, _, hallowed, rfl⟩ := hstep
  have hvalid := h.sound.valid
  cases op with
  | prepare sc cmnd mem =>
    have hextends : w.system.hba.Extends (w.system.hba.apply (.prepare sc cmnd mem)) :=
      Hba.prepare_extends w.system.hba hallowed.1 hproper
    exact .of_evolves (hvalid.apply_evolves hallowed (by simp)) fun task ht => hextends.buffer task ht
  | queuecommand sc slot =>
    have hextends := hvalid.queuecommand_extends hallowed
    have hkept {task : Addr} (hkept : w.system.hba.Kept (w.system.hba.apply (.queuecommand sc slot)) task) :
        (w.system.hba.apply (.queuecommand sc slot)).buffer
            ((w.system.hba.apply (.queuecommand sc slot)).tasks task).sc =
          w.system.hba.buffer (w.system.hba.tasks task).sc := by
      rw [hkept.sc]
      exact hextends.buffer task hkept.queued
    rcases hvalid.queuecommand_evolves hallowed with hevolves | ⟨task, hfresh, ha⟩
    · exact .of_evolves hevolves fun task ht => hkept (hevolves.kept task ht)
    · refine ⟨?_, fun t ht => ?_⟩
      · rw [show (w.system.hba.apply (.queuecommand sc slot)).history = _ from ha.history, History.accept,
          List.length_append]
        omega
      · exact (Hba.Valid.accepted_queue hfresh ha t ht).imp (fun hold => ⟨hold, hkept hold⟩)
          fun hnew => Nat.le_of_eq hnew.seq.symm
  | eh_abort sc => exact (hvalid.apply_evolves hallowed (by simp)).onward (abort_mem w.system.hba sc)
  | eh_host_reset =>
    have hevolves := hvalid.apply_evolves hallowed (by simp)
    refine .of_evolves hevolves fun task ht => ?_
    rw [show (w.system.hba.apply .eh_host_reset).queue = [] from hvalid.eh_host_reset.2] at ht
    cases ht
  | _ => exact hproper.elim

/-- What any step does to the session. -/
theorem Tracked.onward (h : w.Tracked) (hproper : w.Proper act) (hstep : w.system.Step act w'.system) :
    w.system.hba.Onward w'.system.hba := by
  cases act with
  | kernel op =>
    obtain ⟨hba, hop, hsystem⟩ := hstep
    rw [hsystem]
    exact h.kernel hproper hop
  | claim pid =>
    obtain ⟨-, -, hsystem⟩ := hstep
    rw [hsystem, System.afterClaim_hba]
    exact (Hba.Valid.receive_task_evolves _ _).onward (scsitap_ioctl_receive_task_mem _ _)
  | complete pid =>
    obtain ⟨-, -, hsystem⟩ := hstep
    have hcomplete := complete_scsi_task_eq (k := w.system.hba) (h.sound.bounded pid)
    have hhba : (w.system.afterComplete pid).hba = (complete_scsi_task w.system.hba (w.system.procs pid).task).2.1 := rfl
    rw [hsystem, hhba, hcomplete]
    exact h.sound.valid.write_keeps h.apart h.sound.serving.ready h.sound.mapped (reply_type _) _
  | _ =>
    rw [System.step_hba hstep nofun nofun nofun]
    exact .refl _

omit [DecidableEq Pid] in
theorem check_idle (x : Int) : (System.check (E := E) x .polling).Idle := by
  unfold System.check
  split <;> trivial

/-- A header read leads into the command that is offered. -/
theorem Tracked.header (h : w.Tracked) (hstep : w.Step (.header pid) w') : (w'.system.procs pid).phase.Idle ∨
    ∃ sub, w'.held pid = some sub ∧ w'.system.hba.Doing sub (w'.system.procs pid) := by
  obtain ⟨⟨-, -, hresult⟩, hheld⟩ := hstep
  cases hheader : get_scsi_task_header w.system.hba 0 (w.system.procs pid).task with
  | returned x =>
    rw [hheader] at hresult
    rw [show w'.system = _ from hresult, System.setProc_self]
    exact .inl (check_idle x)
  | offered task =>
    obtain ⟨-, addr, hoffer, -, rfl⟩ := get_scsi_task_header_offered hheader
    have haddr := (offer_some hoffer).1
    rw [hheader] at hresult
    rw [show w'.system = _ from hresult, System.setProc_self, hheld, after, Function.update_self, hoffer]
    exact .inr ⟨_, rfl, h.sound.valid.concerns haddr (h.lun addr haddr) (h.plain addr haddr) _ _⟩
  | overrun =>
    rw [hheader] at hresult
    exact hresult.elim

omit [DecidableEq Pid] in
/-- Nothing has to be fetched for a command that is not outbound. -/
theorem carried_of_direction {k : Hba} {sub : Held} {task : UserScsitapTask} (h : k.Concerns sub task)
    (hdirection : task.direction = 73) : k.Carried sub task where
  toConcerns := h
  loaded hout := by
    have hd := h.asks.direction
    rw [directionChar, if_pos hout, hdirection] at hd
    cases hd

theorem Tracked.claim (h : w.Tracked) {sub : Held} (hconcerns : w.system.hba.Concerns sub (w.system.procs pid).task)
    (honward : w.system.hba.Onward (w.system.afterClaim pid).hba) : ((w.system.afterClaim pid).procs pid).phase.Idle ∨
      (w.system.afterClaim pid).hba.Doing sub ((w.system.afterClaim pid).procs pid) := by
  have hconcerns' := hconcerns.onward honward
  have hsucceeds := (get_scsi_task_claim_succeeds h.sound.serving.ready (w.system.procs pid).task).1
  have hproc : (w.system.afterClaim pid).procs pid =
      { phase := System.dispatch (w.system.procs pid).task, task := (w.system.procs pid).task } := by
    rw [System.afterClaim, System.setProc_self, hsucceeds]
    rfl
  rw [hproc]
  by_cases hin : (w.system.procs pid).task.direction = 73
  · right
    rw [System.dispatch, if_pos hin]
    exact carried_of_direction hconcerns' hin
  · by_cases hout : (w.system.procs pid).task.direction = 79
    · right
      rw [System.dispatch, if_neg hin, if_pos hout]
      exact hconcerns'
    · left
      rw [System.dispatch, if_neg hin, if_neg hout]
      trivial

/-- The data that a target gets is that of the command it is in. -/
theorem Tracked.receive (h : w.Tracked) {sub : Held} (hconcerns : w.system.hba.Concerns sub (w.system.procs pid).task)
    (hphase : (w.system.procs pid).phase = .receiving) (hcurrent : w.system.hba.Current sub.seq) :
    ((w.system.afterReceive pid).procs pid).phase.Idle ∨
      w.system.hba.Doing sub ((w.system.afterReceive pid).procs pid) := by
  have hdirection := h.sound.receiving pid hphase
  have hbounded := h.sound.bounded pid
  have hfails := receive_scsi_data_fails_iff h.sound.serving.ready hdirection hbounded h.sound.mapped
  rw [System.afterReceive, System.setProc_self]
  by_cases hfailed : (receive_scsi_data w.system.hba (w.system.procs pid).task).1 < 0
  · left
    rw [System.check, if_pos hfailed]
    trivial
  · right
    rw [System.check, if_neg hfailed]
    have hready := not_not.mp (mt hfails.mpr hfailed)
    obtain ⟨-, hcount⟩ := count_eq hbounded SCSITAP_UHEADER_SIZE (by decide)
    have hreceived : (receive_scsi_data w.system.hba (w.system.procs pid).task).2 =
        { (w.system.procs pid).task with request_buffer :=
          (scsitap_ctl_read w.system.hba (w.system.procs pid).task.cmd_number.toNat
            (.mapped (w.system.procs pid).task.request_buffer)
            (SCSITAP_UHEADER_SIZE + (w.system.procs pid).task.request_bufflen.toNat)).2.contents } := by
      simp only [receive_scsi_data, hdirection, ne_eq, not_true_eq_false, if_false, hcount]
    rw [hreceived]
    obtain ⟨hlun, hdir, hcdb, hbufflen⟩ := hconcerns.asks
    refine ⟨⟨hconcerns.accepted, hconcerns.plain, hconcerns.number, ⟨hlun, hdir, hcdb, hbufflen⟩, hconcerns.same⟩, fun hout => ?_⟩
    -- the number finds the task of the submission, and with it its data
    have hpositive := hconcerns.plain.positive hout
    have hnonzero : (w.system.procs pid).task.request_bufflen ≠ 0 := by omega
    rw [DataReady, if_neg hnonzero] at hready
    obtain ⟨addr, hfound, hflags, -⟩ := hready
    obtain ⟨haddr, hseq⟩ := hconcerns.found h.sound.valid hcurrent hfound
    have hsame := hconcerns.same addr haddr hseq
    have hlen : (w.system.hba.cmnds (w.system.hba.tasks addr).sc).request_bufflen.toNat = sub.request.request_bufflen.toNat :=
      congrArg (·.request.request_bufflen.toNat) hsame
    have hplain := h.plain addr haddr
    have hclaimed := receive_scsi_data_claimed h.sound.serving.ready hdirection hbounded hfound hflags hplain (by omega)
      (by rw [hbufflen, hlen])
    rw [← hreceived, hclaimed, ← hlen]
    exact (Hba.slice_claimed hplain _).trans (congrArg Held.sent hsame)

omit [DecidableEq Pid] in
/-- A target that the step is not about goes on as it was. -/
theorem Tracked.other (h : w.Tracked) {hba : Hba} {proc : Process E.Local} {held : Option Held}
    (honward : w.system.hba.Onward hba) (hproc : proc = w.system.procs pid) (hheld : held = w.held pid) :
    proc.phase.Idle ∨ ∃ sub, held = some sub ∧ hba.Doing sub proc := by
  rw [hproc, hheld]
  exact (h.doing pid).imp_right fun ⟨sub, hsub, hdoing⟩ => ⟨sub, hsub, hdoing.onward honward⟩

omit [DecidableEq Pid] in
/-- The submission that a target in a phase is in. -/
theorem Tracked.in_command (h : w.Tracked) {phase : Phase E.Local} (hphase : (w.system.procs pid).phase = phase)
    (hidle : ¬ phase.Idle) : ∃ sub, w.held pid = some sub ∧ w.system.hba.Doing sub (w.system.procs pid) :=
  (h.doing pid).resolve_left (by rwa [hphase])

/-- When only one target moves, only that one has to be looked at. -/
theorem Tracked.moves (h : w.Tracked) {s' : System E} {p : Pid} (honward : w.system.hba.Onward s'.hba)
    (hothers : ∀ q, q ≠ p → s'.procs q = w.system.procs q)
    (hmoved : (s'.procs p).phase.Idle ∨ ∃ sub, w.held p = some sub ∧ s'.hba.Doing sub (s'.procs p)) (pid : Pid) :
    (s'.procs pid).phase.Idle ∨ ∃ sub, w.held pid = some sub ∧ s'.hba.Doing sub (s'.procs pid) := by
  by_cases hp : pid = p
  · rw [hp]
    exact hmoved
  · exact h.other honward (hothers pid hp) rfl

/-- Each target goes on with the command it is in. -/
theorem Tracked.doing_step (h : w.Tracked) (hproper : w.Proper act) (hstep : w.Step act w') (pid : Pid) :
    (w'.system.procs pid).phase.Idle ∨ ∃ sub, w'.held pid = some sub ∧ w'.system.hba.Doing sub (w'.system.procs pid) := by
  have honward := h.onward hproper hstep.1
  obtain ⟨system', held'⟩ := w'
  obtain ⟨hsystem, hheld⟩ := id hstep
  dsimp only at hsystem hheld honward ⊢
  subst hheld
  cases act with
  | kernel op =>
    obtain ⟨hba, -, rfl⟩ := hsystem
    exact h.other honward rfl rfl
  | wake p =>
    obtain ⟨-, -, -, rfl⟩ := hsystem
    refine (h.doing pid).imp (fun hidle => by rwa [System.afterWake_phase]) fun ⟨sub, hsub, hdoing⟩ => ⟨sub, hsub, ?_⟩
    unfold Hba.Doing at hdoing ⊢
    rw [System.afterWake_phase, System.afterWake_task]
    exact hdoing
  | header p =>
    by_cases hp : pid = p
    · subst hp
      exact h.header hstep
    · have hheld : Function.update w.held p ((offer w.system.hba).map w.system.hba.held) pid = w.held pid :=
        Function.update_of_ne hp _ _
      refine h.other honward ?_ hheld
      obtain ⟨-, -, hresult⟩ := hsystem
      split at hresult
      · rw [hresult]
        exact System.setProc_other _ hp _ _
      · rw [hresult]
        exact System.setProc_other _ hp _ _
      · exact hresult.elim
  | claim p =>
    obtain ⟨-, hphase, rfl⟩ := hsystem
    refine h.moves honward (fun q hq => System.setProc_other _ hq _ _) ?_ pid
    obtain ⟨sub, hsub, hdoing⟩ := h.in_command hphase id
    simp only [Hba.Doing, hphase] at hdoing
    exact (h.claim hdoing honward).imp_right fun hdoing' => ⟨sub, hsub, hdoing'⟩
  | receive p =>
    obtain ⟨-, hphase, rfl⟩ := hsystem
    refine h.moves honward (fun q hq => System.setProc_other _ hq _ _) ?_ pid
    obtain ⟨sub, hsub, hdoing⟩ := h.in_command hphase id
    simp only [Hba.Doing, hphase] at hdoing
    exact (h.receive hdoing hphase (hproper sub hsub)).imp_right fun hdoing' => ⟨sub, hsub, hdoing'⟩
  | start p =>
    obtain ⟨hphase, rfl⟩ := hsystem
    refine h.moves honward (fun q hq => System.setProc_other _ hq _ _) (.inr ?_) pid
    obtain ⟨sub, hsub, hdoing⟩ := h.in_command hphase id
    simp only [Hba.Doing, hphase] at hdoing
    refine ⟨sub, hsub, ?_⟩
    rw [System.afterStart, System.setProc_self]
    exact ⟨hdoing, rfl⟩
  | run p =>
    obtain ⟨call, loc, loc', shared, hphase, -, rfl⟩ := hsystem
    refine h.moves honward (fun q hq => System.setProc_other _ hq _ _) (.inr ?_) pid
    obtain ⟨sub, hsub, hdoing⟩ := h.in_command hphase id
    simp only [Hba.Doing, hphase] at hdoing
    refine ⟨sub, hsub, ?_⟩
    rw [System.setProc_self]
    exact hdoing
  | finish p =>
    obtain ⟨call, loc, status, data, hphase, -, rfl⟩ := hsystem
    refine h.moves honward (fun q hq => System.setProc_other _ hq _ _) (.inr ?_) pid
    obtain ⟨sub, hsub, hdoing⟩ := h.in_command hphase id
    simp only [Hba.Doing, hphase] at hdoing
    refine ⟨sub, hsub, ?_⟩
    rw [System.setProc_self]
    exact ⟨_, hdoing.1, hdoing.2, rfl⟩
  | complete p =>
    obtain ⟨-, -, rfl⟩ := hsystem
    refine h.moves honward (fun q hq => System.setProc_other _ hq _ _) (.inl ?_) pid
    rw [System.afterComplete, System.setProc_self]
    exact check_idle _
  | kill p =>
    obtain ⟨-, -, rfl⟩ := hsystem
    refine h.moves honward (fun q hq => System.setProc_other _ hq _ _) (.inl ?_) pid
    rw [System.setProc_self]
    trivial
  | flush p =>
    obtain ⟨shared, -, -, rfl⟩ := hsystem
    exact h.other honward rfl rfl

/-- What a step keeps. -/
theorem Tracked.step (h : w.Tracked) (hproper : w.Proper act) (hstep : w.Step act w') : w'.Tracked := by
  have hvalid := h.sound.valid
  have hsound := (h.sound.step hproper.legal hstep.1).1
  have hqueue {task : Addr} (ht : task ∈ w'.system.hba.queue) := System.step_queue hvalid hstep.1 ht
  refine ⟨hsound, fun task ht => ?_, fun task ht => ?_, fun t ht u hu hne a => ?_, h.doing_step hproper hstep⟩
  · rcases hqueue ht with hkept | ⟨sc, slot, rfl, hfresh⟩
    · rw [Hba.request, hkept.request]
      exact h.plain task hkept.queued
    · rw [Hba.request, hfresh.request]
      exact hproper.1
  · rcases hqueue ht with hkept | ⟨sc, slot, rfl, hfresh⟩
    · rw [Hba.request, hkept.request, hkept.lun]
      exact h.lun task hkept.queued
    · rw [Hba.request, hfresh.request, hfresh.lun]
      rfl
  · rcases hqueue ht with hkept | ⟨sc, slot, rfl, hfresh⟩ <;> rcases hqueue hu with hkept' | ⟨sc', slot', heq, hfresh'⟩
    · rw [Hba.request, Hba.request, hkept.request, hkept'.request]
      exact h.apart t hkept.queued u hkept'.queued hne a
    · subst heq
      rw [Hba.request, Hba.request, hkept.request, hfresh'.request]
      exact fun hcovers hcovers' => hproper.2 t hkept.queued a hcovers' hcovers
    · rw [Hba.request, Hba.request, hfresh.request, hkept'.request]
      exact hproper.2 u hkept'.queued a
    · exact absurd (hsound.valid.seq_injective ht hu (hfresh.seq.trans hfresh'.seq.symm)) hne

omit [DecidableEq Pid] in
theorem Tracked.attached (h : w.system.Attached) : w.Tracked where
  sound := .attached h
  plain task ht := by
    rw [h.empty] at ht
    cases ht
  lun task ht := by
    rw [h.empty] at ht
    cases ht
  apart t ht := by
    rw [h.empty] at ht
    cases ht
  doing pid := by
    rw [h.polling]
    exact .inl trivial

/-- What the mid layer finds when a completion has found its task: the status and the
data are with the command of that task, and no other request has changed. -/
structure Answered (k : Hba) (addr : Addr) (status : UInt8) (data : Mem) (k' : Hba) : Prop where
  queue : k'.queue = k.queue.erase addr
  tasks : k'.tasks = k.tasks
  result : status.toNat < 128 → (k'.cmnds (k.tasks addr).sc).result = status.toUInt32
  buffer : k'.buffer (k.tasks addr).sc =
    if (k.request addr).sc_data_direction ≠ .dma_to_device ∧ status = 0 then
      slice data 0 (k.request addr).request_bufflen.toNat
    else k.buffer (k.tasks addr).sc
  others : ∀ task ∈ k'.queue, k'.request task = k.request task ∧ k'.buffer (k.tasks task).sc = k.buffer (k.tasks task).sc

/-- The completion of a target that has finished the command of a task. -/
theorem Tracked.answered (h : w.Tracked) {addr : Addr} {task : UserScsitapTask} {status : UInt8} {data : Mem}
    (hfound : task_of_cmd w.system.hba task.cmd_number = some addr) (hd : w.system.hba.Describes addr task)
    (htask : (w.system.procs pid).task = task.finished status data)
    (honward : w.system.hba.Onward (w.system.afterComplete pid).hba) :
    Answered w.system.hba addr status data (w.system.afterComplete pid).hba := by
  have hfinishes := System.finishes h.sound.serving.ready hfound (h.plain addr (task_of_cmd_some hfound).1) hd
    (htask ▸ h.sound.bounded pid)
  rw [← htask] at hfinishes
  refine ⟨hfinishes.queue, hfinishes.tasks, hfinishes.result, hfinishes.buffer, fun t ht => ?_⟩
  have hqueued := List.mem_of_mem_erase (hfinishes.queue ▸ ht)
  have hsame := honward.queue t ht
  rw [show (w.system.afterComplete pid).hba.tasks = w.system.hba.tasks from hfinishes.tasks] at hsame
  refine ⟨?_, ?_⟩
  · rw [Hba.request, show (w.system.afterComplete pid).hba.tasks = w.system.hba.tasks from hfinishes.tasks]
    exact hfinishes.request _
  · rcases hsame with ⟨-, hbuffer⟩ | hlater
    · exact hbuffer
    · have hlt := h.sound.valid.seq_lt hqueued
      omega

/-- An answer only comes to the request it was computed for. However many targets serve
a session, and whatever is aborted or reset and whoever is killed meanwhile: a target that
completes a command was called for the request, and with the data, of the submission
whose header it had read. If that is still queued, it is as it was then, and it gets the
status and the data, and no other request changes; if it is not, the completion changes
nothing. -/
theorem answers_belong {start w : Watched E} {trace : List (Watched E × Act Pid)} (h : start.system.Attached)
    (hrun : Run Step start trace w) (hsteps : ∀ e ∈ trace, e.1.Proper e.2) {pid : Pid} {call : Invocation} {status : UInt8}
    {data : Mem} (hphase : (w.system.procs pid).phase = .completing call status data)
    (hcurrent : ∀ sub, w.held pid = some sub → w.system.hba.Current sub.seq) :
    ∃ sub, w.held pid = some sub ∧ sub.Calls call ∧
      ((∃ addr ∈ w.system.hba.queue, w.system.hba.held addr = sub ∧
          Answered w.system.hba addr status data (w.system.afterComplete pid).hba) ∨
        ¬ w.system.hba.Queued sub.seq ∧ (w.system.afterComplete pid).hba = w.system.hba) := by
  have htracked : w.Tracked := hrun.invariant_of_steps (.attached h) (fun _ _ _ ht hp hstep => ht.step hp hstep) hsteps
  have hvalid := htracked.sound.valid
  obtain ⟨sub, hsub, hdoing⟩ := htracked.in_command hphase id
  simp only [Hba.Doing, hphase] at hdoing
  obtain ⟨task, hcarried, rfl, htask⟩ := hdoing
  have hcomplete := complete_scsi_task_eq (k := w.system.hba) (htracked.sound.bounded pid)
  have hhba : (w.system.afterComplete pid).hba = (complete_scsi_task w.system.hba (w.system.procs pid).task).2.1 := rfl
  have honward : w.system.hba.Onward (w.system.afterComplete pid).hba := by
    rw [hhba, hcomplete]
    exact hvalid.write_keeps htracked.apart htracked.sound.serving.ready htracked.sound.mapped (reply_type _) _
  refine ⟨sub, hsub, hcarried.calls, ?_⟩
  cases hfound : task_of_cmd w.system.hba task.cmd_number with
  | some addr =>
    left
    obtain ⟨haddr, hseq⟩ := hcarried.found hvalid (hcurrent sub hsub) hfound
    have hd := hcarried.describes hvalid haddr hseq
    exact ⟨addr, haddr, hcarried.same addr haddr hseq, htracked.answered hfound hd htask honward⟩
  | none =>
    right
    have hnumber : unle32 (slice (reply (w.system.procs pid).task) 1 4) = task.cmd_number := by
      rw [reply_number, htask]
      rfl
    refine ⟨hcarried.gone hvalid hfound, ?_⟩
    rw [hhba, hcomplete, scsitap_ctl_write_unknown htracked.sound.serving.ready (reply_type _) (by rw [hnumber, hfound])]

/-- Every run can be watched. -/
theorem watched_run {s s' : System E} {trace : List (System E × Act Pid)} (hrun : Run System.Step s trace s')
    (held : Pid → Option Held) : ∃ trace' held', Run Step { system := s, held } trace' { system := s', held := held' } ∧
      trace'.map (fun e => (e.1.system, e.2)) = trace := by
  induction hrun with
  | nil => exact ⟨[], held, .nil, rfl⟩
  | @snoc trace current next act run hstep ih =>
    obtain ⟨trace', held', hrun', hmap⟩ := ih
    have hwatched : Step { system := current, held := held' } act
        { system := next, held := after { system := current, held := held' } act } := ⟨hstep, rfl⟩
    refine ⟨_, _, hrun'.snoc hwatched, ?_⟩
    rw [List.map_append, hmap, List.map_singleton]

/-- Nothing has been submitted before the one command. -/
theorem one_block_proper {w : Watched (silent Unit)} {act : Act Unit}
    (h : (w.system, act) ∈ System.claimedTrace ++ System.returnedTrace) : w.Proper act := by
  obtain ⟨system, held⟩ := w
  have hplain {e : System (silent Unit) × Act Unit} (he : e ∈ System.claimedTrace) := System.claimedTrace_plain e he
  simp only [System.claimedTrace, System.returnedTrace, List.cons_append, List.nil_append, List.mem_cons, Prod.mk.injEq,
    List.not_mem_nil, or_false] at h
  rcases h with ⟨rfl, rfl⟩ | ⟨rfl, rfl⟩ | ⟨rfl, rfl⟩ | ⟨rfl, rfl⟩ | ⟨rfl, rfl⟩ | ⟨rfl, rfl⟩ | ⟨rfl, rfl⟩ | ⟨rfl, rfl⟩ | ⟨rfl, rfl⟩
  · exact hplain (.head _)
  · exact ⟨hplain (.tail _ (.head _)), fun task ht => absurd ht List.not_mem_nil⟩
  · trivial
  · trivial
  · trivial
  · trivial
  · have haccepted : System.reading.hba.history.accepted.length ≤ 2 ^ 32 - 1 := by decide
    exact fun sub _ => Hba.current_of_le haccepted sub.seq
  · trivial
  · trivial

/-- The write of one block is answered. -/
theorem answers_belong_one_block : ∃ (w : Watched (silent Unit)) (sub : Held), w.system = System.returned ∧
    w.held () = some sub ∧ sub.Calls System.startedCall ∧ ∃ addr ∈ w.system.hba.queue, w.system.hba.held addr = sub ∧
      Answered w.system.hba addr 0 System.startedCall.data (w.system.afterComplete ()).hba := by
  obtain ⟨trace, held, hrun, hmap⟩ := watched_run (System.claimed_run.append System.returned_run) fun _ => none
  have haccepted : System.returned.hba.history.accepted.length ≤ 2 ^ 32 - 1 := by decide
  obtain ⟨sub, hsub, hcalls, hanswer⟩ := answers_belong System.alone_attached hrun
    (fun e he => one_block_proper (by rw [← hmap]; exact List.mem_map_of_mem he)) System.returned_phase
    fun sub _ => Hba.current_of_le haccepted sub.seq
  refine ⟨_, sub, rfl, hsub, hcalls, hanswer.resolve_right fun hgone => ?_⟩
  -- otherwise the completion would leave the command in the queue
  have hanswers := System.detour_transparent System.alone_attached (System.claimed_run.append System.returned_run)
    (List.forall_mem_append.mpr ⟨System.claimedTrace_plain, System.returnedTrace_plain⟩)
  obtain ⟨addr, -, -, -, hcompleted⟩ := hanswers.2.2 _ _ _ System.returned_phase
  have hsame := hcompleted.queue
  rw [show (System.returned.afterComplete ()).hba = System.returned.hba from hgone.2] at hsame
  exact absurd (congrArg List.length hsame) (by simp)

end Watched

end vscsi
