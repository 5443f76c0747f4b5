import Vscsi.Target.Api
import Vscsi.Kernel.Service
import Vscsi.Kernel.Wakeup

open lib

namespace vscsi

open api

/-- What a process runs its commands on: `run_scsi_command` as a computation
that takes steps, on memory and files the processes may share. -/
structure Engine (Pid : Type) where
  /-- files and the streams of every process -/
  Shared : Type
  /-- a call of `run_scsi_command` under way -/
  Local : Type
  start : (lun : UInt8) → (cdb : Vector UInt8 16) → (data : Mem) → (data_size : Int) → Local
  Step : Pid → Local → Shared → Local → Shared → Prop
  /-- the status returned and the data memory left behind -/
  result : Local → Option (UInt8 × Mem)
  /-- what a killed process takes with it -/
  kill : Pid → Shared → Shared
  /-- what the exit of a process does, a stream at a time -/
  Flush : Pid → Shared → Shared → Prop

/-- The arguments of a call of `run_scsi_command`. -/
structure Invocation where
  lun : UInt8
  cdb : Vector UInt8 16
  data : Mem
  data_size : Int

/-- Where a process is in the main loop. The call of `run_scsi_command`, the
status it returned and the data it left are kept up to the completion; no code
reads them. -/
inductive Phase (Local : Type) where
  | polling
  | claiming
  | receiving
  | loaded
  | running (call : Invocation) (loc : Local)
  | completing (call : Invocation) (status : UInt8) (data : Mem)
  | exited
  | killed

structure Process (Local : Type) where
  phase : Phase Local
  task : UserScsitapTask
  /-- the read it is in has found a task in the queue -/
  awake : Bool := false

/-- One session with its target processes. -/
structure System {Pid : Type} (E : Engine Pid) where
  hba : Hba
  shared : E.Shared
  procs : Pid → Process E.Local

/-- A step of the session, of a process, or its death. The steps of a process
are the kernel calls of the main loop, the call of `run_scsi_command` and the
steps this takes. Both reads first wait for a task in the queue, and an exit
flushes the streams. -/
inductive Act (Pid : Type) where
  | kernel (op : Op)
  | wake (pid : Pid)
  | header (pid : Pid)
  | claim (pid : Pid)
  | receive (pid : Pid)
  | start (pid : Pid)
  | run (pid : Pid)
  | finish (pid : Pid)
  | complete (pid : Pid)
  | kill (pid : Pid)
  | flush (pid : Pid)

/-- The memory a pointer into a buffer gives access to. -/
def fromPointer (buffer : Mem) (offset : Nat) : Mem := fun i => buffer (offset + i)

/-- The buffer after the memory behind a pointer into it has changed. -/
def toPointer (buffer : Mem) (offset : Nat) (data : Mem) : Mem := fun i =>
  if i < offset then buffer i else data (i - offset)

namespace UserScsitapTask

/-- Where `data` points in the request buffer. -/
def dataOffset (task : UserScsitapTask) : Nat := if task.direction = 79 then 31 else 6

/-- The call of `run_scsi_command` for a task. -/
def invocation (task : UserScsitapTask) : Invocation where
  lun := UInt8.ofNat task.lun.toNat
  cdb := task.cdb
  data := fromPointer task.request_buffer task.dataOffset
  data_size := task.request_bufflen

/-- The task once `run_scsi_command` has returned. -/
def finished (task : UserScsitapTask) (status : UInt8) (data : Mem) : UserScsitapTask := { task with
  status := status.toNat
  request_buffer := toPointer task.request_buffer task.dataOffset data
  request_bufflen := if task.direction = 79 then 0 else task.request_bufflen }

end UserScsitapTask

namespace Hba

/-- A call that takes the queue lock can go on. -/
def Answers (k : Hba) : Prop :=
  k.session.listed = true ∧ k.session.scsitap_queue_lock = false

end Hba

namespace System

variable {Pid : Type} [DecidableEq Pid] {E : Engine Pid}

def setProc (s : System E) (pid : Pid) (phase : Phase E.Local) (task : UserScsitapTask) : System E :=
  { s with procs := Function.update s.procs pid { phase, task } }

/-- The process is in one of its reads. -/
def Reads (s : System E) (pid : Pid) : Prop :=
  (s.procs pid).phase = .polling ∨ (s.procs pid).phase = .receiving

/-- A read that has passed its wait can go on. The queue is looked at without the
lock, so it may be empty by now. -/
def Passes (s : System E) (pid : Pid) : Prop := s.hba.Answers ∧ (s.procs pid).awake = true

/-- The state once a read has passed its wait. -/
def afterWake (s : System E) (pid : Pid) : System E :=
  { s with procs := Function.update s.procs pid { s.procs pid with awake := true } }

/-- What the main loop does with the result of a library call: exit, or go on. -/
def check (x : Int) (next : Phase E.Local) : Phase E.Local := if x < 0 then .exited else next

/-- Where the main loop goes with a task it has got. -/
def dispatch (task : UserScsitapTask) : Phase E.Local :=
  if task.direction = 73 then .loaded else if task.direction = 79 then .receiving else .polling

/-- The state after the ioctl of `get_scsi_task`. -/
def afterClaim (s : System E) (pid : Pid) : System E :=
  let claim := get_scsi_task_claim s.hba (s.procs pid).task
  { s with hba := claim.2 }.setProc pid (check claim.1 (dispatch (s.procs pid).task)) (s.procs pid).task

/-- The state after `receive_scsi_data`. -/
def afterReceive (s : System E) (pid : Pid) : System E :=
  let receive := receive_scsi_data s.hba (s.procs pid).task
  s.setProc pid (check receive.1 .loaded) receive.2

/-- The state after the call of `run_scsi_command` has been made. -/
def afterStart (s : System E) (pid : Pid) : System E :=
  let call := (s.procs pid).task.invocation
  s.setProc pid (.running call (E.start call.lun call.cdb call.data call.data_size)) (s.procs pid).task

/-- The state after `complete_scsi_task`. -/
def afterComplete (s : System E) (pid : Pid) : System E :=
  let complete := complete_scsi_task s.hba (s.procs pid).task
  { s with hba := complete.2.1 }.setProc pid (check complete.1 .polling) complete.2.2

def Step (s : System E) : Act Pid → System E → Prop
  | .kernel op, s' => ∃ hba, s.hba.Step op hba ∧ s' = { s with hba }
  | .wake pid, s' =>
    s.hba.queued = true ∧ s.Reads pid ∧ (s.procs pid).awake = false ∧ s' = s.afterWake pid
  | .header pid, s' =>
    s.Passes pid ∧ (s.procs pid).phase = .polling ∧
      match get_scsi_task_header s.hba 0 (s.procs pid).task with
      | .returned x => s' = s.setProc pid (check x .polling) (s.procs pid).task
      | .offered task => s' = s.setProc pid .claiming task
      | .overrun => False
  | .claim pid, s' =>
    s.hba.Answers ∧ (s.procs pid).phase = .claiming ∧ s' = s.afterClaim pid
  | .receive pid, s' =>
    s.Passes pid ∧ (s.procs pid).phase = .receiving ∧ s' = s.afterReceive pid
  | .start pid, s' => (s.procs pid).phase = .loaded ∧ s' = s.afterStart pid
  | .run pid, s' =>
    ∃ call loc loc' shared, (s.procs pid).phase = .running call loc ∧ E.Step pid loc s.shared loc' shared ∧
      s' = { s with shared }.setProc pid (.running call loc') (s.procs pid).task
  | .finish pid, s' =>
    ∃ call loc status data, (s.procs pid).phase = .running call loc ∧ E.result loc = some (status, data) ∧
      s' = s.setProc pid (.completing call status data) ((s.procs pid).task.finished status data)
  | .complete pid, s' =>
    s.hba.Answers ∧ (∃ call status data, (s.procs pid).phase = .completing call status data) ∧ s' = s.afterComplete pid
  | .kill pid, s' =>
    (s.procs pid).phase ≠ .exited ∧ (s.procs pid).phase ≠ .killed ∧
      s' = { s with shared := E.kill pid s.shared }.setProc pid .killed (s.procs pid).task
  | .flush pid, s' =>
    ∃ shared, (s.procs pid).phase = .exited ∧ E.Flush pid s.shared shared ∧ s' = { s with shared }

section Wake

variable {s : System E} {pid : Pid}

theorem afterWake_phase (s : System E) (pid other : Pid) :
    ((s.afterWake pid).procs other).phase = (s.procs other).phase := by
  by_cases h : other = pid
  · subst h
    simp [afterWake]
  · simp [afterWake, h]

theorem afterWake_task (s : System E) (pid other : Pid) :
    ((s.afterWake pid).procs other).task = (s.procs other).task := by
  by_cases h : other = pid
  · subst h
    simp [afterWake]
  · simp [afterWake, h]

/-- A read that waits while a task is queued can pass the wait. -/
theorem Reads.wakes (hreads : s.Reads pid) (hqueued : s.hba.queued = true) :
    ∃ s₁, (s₁ = s ∨ s.Step (.wake pid) s₁) ∧ (s₁.procs pid).awake = true ∧ s₁.hba = s.hba ∧
      (s₁.procs pid).phase = (s.procs pid).phase := by
  by_cases hawake : (s.procs pid).awake = true
  · exact ⟨s, .inl rfl, hawake, rfl, rfl⟩
  · have hstep : s.Step (.wake pid) (s.afterWake pid) := ⟨hqueued, hreads, by simpa using hawake, rfl⟩
    exact ⟨_, .inr hstep, by simp [afterWake], rfl, afterWake_phase s pid pid⟩

end Wake

/-- Targets that have registered with a session on which nothing is queued yet. -/
structure Attached (s : System E) : Prop where
  reachable : s.hba.Reachable
  serving : s.hba.Serving
  empty : s.hba.queue = []
  polling : ∀ pid, s.procs pid = { phase := .polling, task := register_scsi_host }

end System

end vscsi
