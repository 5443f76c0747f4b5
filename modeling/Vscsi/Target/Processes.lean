import Vscsi.Lib.Run
import Vscsi.Scsi.Interleaved
import Vscsi.Target.MainLoop

open lib

namespace vscsi

open scsi scsi_target

/-- Bytes that a call of `run_scsi_command` has put into a file. -/
structure Put (Pid : Type) where
  pid : Pid
  call : Invocation
  inode : Nat
  store : Store

/-- The files, and what each process has of its own: streams and a target. -/
structure Storage (Pid : Type) where
  fs : FileSystem
  streams : Pid → Nat → Option Stream
  next : Pid → Nat
  td : Pid → TargetData
  /-- what has been put into files so far, the oldest first; no code reads it -/
  journal : List (Put Pid)

/-- A call of `run_scsi_command`: made, on its way, or returned. -/
inductive Running where
  | called (call : Invocation)
  | executing (call : Invocation) (code : Code (UInt8 × TargetData)) (data : Mem)
  | returned (status : UInt8) (data : Mem)

namespace Storage

variable {Pid : Type} (x : Storage Pid) (pid : Pid)

/-- What a process sees. -/
def world : World where
  fs := x.fs
  streams := x.streams pid
  next := x.next pid

/-- What it works on with some data. -/
def space (data : Mem) : Space := { world := x.world pid, data }

variable [DecidableEq Pid]

/-- The storage once a process has made a call to the C library. -/
def after (call : Invocation) (w : World) (p : Option (Nat × Store)) : Storage Pid where
  fs := w.fs
  streams := Function.update x.streams pid w.streams
  next := Function.update x.next pid w.next
  td := x.td
  journal := x.journal ++ (p.map fun p => { pid, call, inode := p.1, store := p.2 }).toList

/-- A killed process loses what is pending on its streams. -/
def kill : Storage Pid := { x with streams := Function.update x.streams pid fun _ => none }

/-- The exit of a process passes on what is pending on a stream and closes it. The
journal is of calls and leaves this out. -/
def flush (n : Nat) (s : Stream) : Storage Pid := { x with
  fs := ((x.world pid).fclose n s).fs
  streams := Function.update x.streams pid ((x.world pid).fclose n s).streams }

variable {x pid}

theorem kill_streams {other : Pid} (h : other ≠ pid) : (x.kill pid).streams other = x.streams other :=
  Function.update_of_ne h _ _

theorem flush_streams {other : Pid} (h : other ≠ pid) (n : Nat) (s : Stream) :
    (x.flush pid n s).streams other = x.streams other :=
  Function.update_of_ne h _ _

theorem flush_world (n : Nat) (s : Stream) : (x.flush pid n s).world pid = (x.world pid).fclose n s := by
  simp only [world, flush, Function.update_self]
  rfl

end Storage

/-- A call of `run_scsi_command` takes a step for each call to the C library. -/
inductive Running.Step {Pid : Type} [DecidableEq Pid] (pid : Pid) : Running → Storage Pid → Running → Storage Pid → Prop where
  | enter (call : Invocation) (fuel : Nat) (x : Storage Pid) : Step pid (.called call) x
      (.executing call (run_scsi_command fuel (x.td pid) call.lun call.cdb call.data_size) call.data) x
  | libc (call : Invocation) (c : lib.Call) (next : Reply c → Code (UInt8 × TargetData)) (data : Mem) (x : Storage Pid)
      (choice : Choice) (r : Reply c) (y : Space) (h : lib.libc c choice (x.space pid data) = .ok (r, y)) :
      Step pid (.executing call (.call c next) data) x (.executing call (next r) y.data)
        (x.after pid call y.world (c.passes choice (x.space pid data)))
  | leave (call : Invocation) (status : UInt8) (td : TargetData) (data : Mem) (x : Storage Pid) :
      Step pid (.executing call (.ret (status, td)) data) x (.returned status data)
        { x with td := Function.update x.td pid td }

/-- The target processes of a session, on the same files. -/
abbrev targets (Pid : Type) [DecidableEq Pid] : Engine Pid where
  Shared := Storage Pid
  Local := Running
  start lun cdb data data_size := .called { lun, cdb, data, data_size }
  Step := Running.Step
  result
    | .returned status data => some (status, data)
    | _ => none
  kill pid x := x.kill pid
  Flush pid x x' := ∃ n s, x.streams pid n = some s ∧ s.pending ≠ [] ∧ x' = x.flush pid n s

variable {Pid : Type} [DecidableEq Pid]

/-- A step of a call changes nothing that another process has of its own. -/
theorem Running.Step.others {pid p : Pid} {loc loc' : Running} {x x' : Storage Pid} (h : Running.Step pid loc x loc' x')
    (hp : p ≠ pid) : x'.streams p = x.streams p ∧ x'.td p = x.td p := by
  cases h with
  | enter => exact ⟨rfl, rfl⟩
  | libc => exact ⟨Function.update_of_ne hp _ _, rfl⟩
  | leave => exact ⟨rfl, Function.update_of_ne hp _ _⟩

/-- The process has come to its end. -/
def Phase.Over {Local : Type} : Phase Local → Prop
  | .exited => True
  | .killed => True
  | _ => False

namespace System

/-- What a step of the session does to one process. -/
inductive Progress (s : System (targets Pid)) (act : Act Pid) (s' : System (targets Pid)) (p : Pid) : Prop where
  | other (hproc : s'.procs p = s.procs p) (hstreams : s'.shared.streams p = s.shared.streams p)
      (htd : s'.shared.td p = s.shared.td p) (hact : act ≠ .start p)
  | idle (hbefore : ∀ call loc, (s.procs p).phase ≠ .running call loc) (halive : ¬ (s.procs p).phase.Over)
      (hlast : ∀ call status data, (s.procs p).phase = .completing call status data → act = .complete p)
      (hafter : ∀ call loc, (s'.procs p).phase ≠ .running call loc)
      (hcompleting : ∀ call status data, (s'.procs p).phase ≠ .completing call status data)
      (hshared : s'.shared = s.shared) (hact : act ≠ .start p)
  | started (hact : act = .start p) (hphase : (s.procs p).phase = .loaded)
      (hphase' : (s'.procs p).phase = .running (s.procs p).task.invocation (.called (s.procs p).task.invocation))
      (hshared : s'.shared = s.shared)
  | ran (call : Invocation) (loc loc' : Running) (hact : act = .run p) (hphase : (s.procs p).phase = .running call loc)
      (hphase' : (s'.procs p).phase = .running call loc') (hstep : Running.Step p loc s.shared loc' s'.shared)
  | finished (call : Invocation) (status : UInt8) (data : Mem) (hact : act = .finish p)
      (hphase : (s.procs p).phase = .running call (.returned status data))
      (hphase' : (s'.procs p).phase = .completing call status data) (hshared : s'.shared = s.shared)
  | killed (hact : act = .kill p) (hphase' : (s'.procs p).phase = .killed) (hshared : s'.shared = s.shared.kill p)
  | flushed (n : Nat) (stream : Stream) (hact : act = .flush p) (hphase : (s.procs p).phase = .exited)
      (hproc : s'.procs p = s.procs p) (hstream : s.shared.streams p n = some stream) (hpending : stream.pending ≠ [])
      (hshared : s'.shared = s.shared.flush p n stream)

variable {s s' : System (targets Pid)} {act : Act Pid}

section SetProc

variable {E : Engine Pid} (t : System E)

theorem setProc_other {p pid : Pid} (h : p ≠ pid) (phase : Phase E.Local) (task : UserScsitapTask) :
    (t.setProc pid phase task).procs p = t.procs p := Function.update_of_ne h _ _

theorem setProc_self (pid : Pid) (phase : Phase E.Local) (task : UserScsitapTask) :
    (t.setProc pid phase task).procs pid = { phase, task } := Function.update_self _ _ _

end SetProc

theorem afterStart_called (t : System (targets Pid)) (pid : Pid) : ((t.afterStart pid).procs pid).phase =
    .running (t.procs pid).task.invocation (.called (t.procs pid).task.invocation) := by
  rw [afterStart, setProc_self]

theorem afterReceive_task (t : System (targets Pid)) (pid : Pid) :
    ((t.afterReceive pid).procs pid).task = (api.receive_scsi_data t.hba (t.procs pid).task).2 := by
  rw [afterReceive, setProc_self]

theorem check_quiet (x : Int) {next : Phase Running} (hnext : (∀ call loc, next ≠ .running call loc) ∧
      ∀ call status data, next ≠ .completing call status data) :
    (∀ call loc, check (E := targets Pid) x next ≠ .running call loc) ∧
      ∀ call status data, check (E := targets Pid) x next ≠ .completing call status data := by
  unfold check
  split
  · exact ⟨fun _ _ => by simp, fun _ _ _ => by simp⟩
  · exact hnext

/-- A process that is not in a call goes on without one. -/
theorem progress_idle {t : System (targets Pid)} {pid : Pid} {phase : Phase Running} {task : UserScsitapTask}
    (hbefore : (∀ call loc, (s.procs pid).phase ≠ .running call loc) ∧ ¬ (s.procs pid).phase.Over)
    (hlast : ∀ call status data, (s.procs pid).phase = .completing call status data → act = .complete pid)
    (hafter : (∀ call loc, phase ≠ .running call loc) ∧ ∀ call status data, phase ≠ .completing call status data)
    (hprocs : t.procs = s.procs) (hshared : t.shared = s.shared) (hact : ∀ p, act ≠ .start p) (p : Pid) :
    Progress s act (t.setProc pid phase task) p := by
  by_cases hp : p = pid
  · subst hp
    exact .idle hbefore.1 hbefore.2 hlast (by rw [setProc_self]; exact hafter.1) (by rw [setProc_self]; exact hafter.2)
      hshared (hact p)
  · exact .other ((setProc_other t hp phase task).trans (by rw [hprocs])) (congrArg (·.streams p) hshared)
      (congrArg (·.td p) hshared) (hact p)

theorem step_progress (hstep : s.Step act s') (p : Pid) : Progress s act s' p := by
  cases act with
  | kernel op =>
    obtain ⟨hba, -, rfl⟩ := hstep
    exact .other rfl rfl rfl (by simp)
  | wake pid =>
    obtain ⟨-, hreads, -, rfl⟩ := hstep
    by_cases hp : p = pid
    · subst hp
      have hbefore : (∀ call loc, (s.procs p).phase ≠ .running call loc) ∧
          (∀ call status data, (s.procs p).phase ≠ .completing call status data) ∧ ¬ (s.procs p).phase.Over := by
        rcases hreads with hphase | hphase <;> simp [hphase, Phase.Over]
      refine .idle hbefore.1 hbefore.2.2 (fun call status data hphase => absurd hphase (hbefore.2.1 call status data))
        ?_ ?_ rfl (by simp)
      · rw [afterWake_phase]
        exact hbefore.1
      · rw [afterWake_phase]
        exact hbefore.2.1
    · exact .other (Function.update_of_ne hp _ _) rfl rfl (by simp)
  | header pid =>
    obtain ⟨-, hphase, hheader⟩ := hstep
    have hbefore : (∀ call loc, (s.procs pid).phase ≠ .running call loc) ∧ ¬ (s.procs pid).phase.Over := by
      simp [hphase, Phase.Over]
    cases hresult : api.get_scsi_task_header s.hba 0 (s.procs pid).task with
    | returned x =>
      rw [hresult] at hheader
      rw [show s' = _ from hheader]
      exact progress_idle hbefore (by simp [hphase]) (check_quiet x ⟨by simp, by simp⟩) rfl rfl (fun q h => by cases h) p
    | offered task =>
      rw [hresult] at hheader
      rw [show s' = _ from hheader]
      exact progress_idle hbefore (by simp [hphase]) ⟨by simp, by simp⟩ rfl rfl (fun q h => by cases h) p
    | overrun =>
      rw [hresult] at hheader
      exact hheader.elim
  | claim pid =>
    obtain ⟨-, hphase, rfl⟩ := hstep
    have hdispatch : (∀ call loc, dispatch (E := targets Pid) (s.procs pid).task ≠ .running call loc) ∧
        ∀ call status data, dispatch (E := targets Pid) (s.procs pid).task ≠ .completing call status data := by
      unfold dispatch
      split
      · simp
      · split <;> simp
    have hbefore : (∀ call loc, (s.procs pid).phase ≠ .running call loc) ∧ ¬ (s.procs pid).phase.Over := by
      simp [hphase, Phase.Over]
    exact progress_idle (t := { s with hba := (api.get_scsi_task_claim s.hba (s.procs pid).task).2 }) hbefore (by simp [hphase])
      (check_quiet _ hdispatch) rfl rfl (fun q h => by cases h) p
  | receive pid =>
    obtain ⟨-, hphase, rfl⟩ := hstep
    have hbefore : (∀ call loc, (s.procs pid).phase ≠ .running call loc) ∧ ¬ (s.procs pid).phase.Over := by
      simp [hphase, Phase.Over]
    exact progress_idle hbefore (by simp [hphase]) (check_quiet _ ⟨by simp, by simp⟩) rfl rfl (fun q h => by cases h) p
  | start pid =>
    obtain ⟨hphase, rfl⟩ := hstep
    by_cases hp : p = pid
    · subst hp
      exact .started rfl hphase (afterStart_called s p) rfl
    · exact .other (setProc_other _ hp _ _) rfl rfl (by simpa using Ne.symm hp)
  | run pid =>
    obtain ⟨call, loc, loc', shared, hphase, hrun, rfl⟩ := hstep
    by_cases hp : p = pid
    · subst hp
      exact .ran call loc loc' rfl hphase (by rw [setProc_self]) hrun
    · exact .other (setProc_other _ hp _ _) (hrun.others hp).1 (hrun.others hp).2 (by simp)
  | finish pid =>
    obtain ⟨call, loc, status, data, hphase, hresult, rfl⟩ := hstep
    by_cases hp : p = pid
    · subst hp
      cases loc with
      | returned status' data' =>
        obtain ⟨rfl, rfl⟩ := Prod.mk.inj (Option.some.inj hresult)
        exact .finished call status' data' rfl hphase (by rw [setProc_self]) rfl
      | called call' => cases hresult
      | executing call' code data' => cases hresult
    · exact .other (setProc_other _ hp _ _) rfl rfl (by simp)
  | complete pid =>
    obtain ⟨-, ⟨call, status, data, hphase⟩, rfl⟩ := hstep
    have hbefore : (∀ call loc, (s.procs pid).phase ≠ .running call loc) ∧ ¬ (s.procs pid).phase.Over := by
      simp [hphase, Phase.Over]
    exact progress_idle (t := { s with hba := (api.complete_scsi_task s.hba (s.procs pid).task).2.1 }) hbefore
      (fun _ _ _ _ => rfl) (check_quiet _ ⟨by simp, by simp⟩) rfl rfl (fun q h => by cases h) p
  | kill pid =>
    obtain ⟨-, -, rfl⟩ := hstep
    by_cases hp : p = pid
    · subst hp
      exact .killed rfl (by rw [setProc_self]) rfl
    · exact .other (setProc_other _ hp _ _) (Storage.kill_streams hp) rfl (by simp)
  | flush pid =>
    obtain ⟨shared, hphase, ⟨n, stream, hstream, hpending, rfl⟩, rfl⟩ := hstep
    by_cases hp : p = pid
    · subst hp
      exact .flushed n stream rfl hphase rfl hstream hpending rfl
    · exact .other rfl (Storage.flush_streams hp n stream) rfl (by simp)

/-- Only the steps of a call and the flush of an exit change files, and a kill changes
streams. -/
theorem step_storage (hstep : s.Step act s') :
    s'.shared = s.shared ∨ (∃ pid, act = .kill pid ∧ s'.shared = s.shared.kill pid) ∨
      (∃ pid call loc loc', act = .run pid ∧ (s.procs pid).phase = .running call loc ∧
        Running.Step pid loc s.shared loc' s'.shared) ∨
      ∃ pid n stream, act = .flush pid ∧ (s.procs pid).phase = .exited ∧ s.shared.streams pid n = some stream ∧
        stream.pending ≠ [] ∧ s'.shared = s.shared.flush pid n stream := by
  cases act with
  | kernel op =>
    obtain ⟨hba, -, rfl⟩ := hstep
    exact .inl rfl
  | wake pid =>
    obtain ⟨-, -, -, rfl⟩ := hstep
    exact .inl rfl
  | header pid =>
    obtain ⟨-, -, hheader⟩ := hstep
    cases hresult : api.get_scsi_task_header s.hba 0 (s.procs pid).task with
    | returned x =>
      rw [hresult] at hheader
      exact .inl (congrArg (·.shared) hheader)
    | offered task =>
      rw [hresult] at hheader
      exact .inl (congrArg (·.shared) hheader)
    | overrun =>
      rw [hresult] at hheader
      exact hheader.elim
  | claim pid =>
    obtain ⟨-, -, rfl⟩ := hstep
    exact .inl rfl
  | receive pid =>
    obtain ⟨-, -, rfl⟩ := hstep
    exact .inl rfl
  | start pid =>
    obtain ⟨-, rfl⟩ := hstep
    exact .inl rfl
  | run pid =>
    obtain ⟨call, loc, loc', shared, hphase, hrun, rfl⟩ := hstep
    exact .inr (.inr (.inl ⟨pid, call, loc, loc', rfl, hphase, hrun⟩))
  | finish pid =>
    obtain ⟨call, loc, status, data, -, -, rfl⟩ := hstep
    exact .inl rfl
  | complete pid =>
    obtain ⟨-, -, rfl⟩ := hstep
    exact .inl rfl
  | kill pid =>
    obtain ⟨-, -, rfl⟩ := hstep
    exact .inr (.inl ⟨pid, rfl, rfl⟩)
  | flush pid =>
    obtain ⟨shared, hphase, ⟨n, stream, hstream, hpending, rfl⟩, rfl⟩ := hstep
    exact .inr (.inr (.inr ⟨pid, n, stream, rfl, hphase, hstream, hpending, rfl⟩))

end System

end vscsi
