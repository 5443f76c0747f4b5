import Vscsi.Kernel.Types

namespace vscsi

/-- One accepted submission of a command, as the mid layer sees it. -/
structure Submission where
  sc : Addr
  cmd_number : UInt32
  /-- how often `scsi_done` was called for it -/
  done_calls : Nat
  /-- removed by `scsitap_eh_abort` or `scsitap_eh_host_reset` -/
  aborted : Bool

/-- Which submission a call of `scsi_done` on a command belongs to: the latest. -/
inductive Origin where
  | unsubmitted
  | accepted (seq : Nat)
  | refused (index : Nat)
  deriving DecidableEq

/-- What the mid layer has seen of a session. It records the calls across the
interface; no function of the driver reads it. -/
structure History where
  accepted : List Submission
  /-- `scsi_done` calls of each submission answered in the NOT_READY branch -/
  refused : List Nat
  /-- `scsi_done` calls on a command that has no submission -/
  stray : Nat
  origin : Addr → Origin

namespace History

def initial : History := { accepted := [], refused := [], stray := 0, origin := fun _ => .unsubmitted }

/-- The commands of the accepted submissions. -/
def commands (h : History) : List Addr := h.accepted.map (·.sc)

def accept (h : History) (sc : Addr) (cmd_number : UInt32) : History :=
  { h with
    accepted := h.accepted ++ [{ sc, cmd_number, done_calls := 0, aborted := false }]
    origin := Function.update h.origin sc (.accepted h.accepted.length) }

def refuse (h : History) (sc : Addr) : History :=
  { h with
    refused := h.refused ++ [0]
    origin := Function.update h.origin sc (.refused h.refused.length) }

def busy (h : History) (sc : Addr) : History :=
  { h with origin := Function.update h.origin sc .unsubmitted }

def abort (h : History) (seq : Nat) : History :=
  { h with accepted := h.accepted.modify seq fun s => { s with aborted := true } }

def scsi_done (h : History) (sc : Addr) : History :=
  match h.origin sc with
  | .accepted seq =>
    { h with accepted := h.accepted.modify seq fun s => { s with done_calls := s.done_calls + 1 } }
  | .refused index => { h with refused := h.refused.modify index (· + 1) }
  | .unsubmitted => { h with stray := h.stray + 1 }

end History

/-- One session of the driver with the memory it works on: the task slots, the
commands of the mid layer and the data buffers. -/
structure Hba where
  session : ScsitapSession
  tasks : Addr → ScsitapTask
  cmnds : Addr → ScsiCmnd
  mem : lib.Mem
  history : History

namespace Hba

def modifyCmnd (k : Hba) (sc : Addr) (f : ScsiCmnd → ScsiCmnd) : Hba :=
  { k with cmnds := Function.update k.cmnds sc (f (k.cmnds sc)) }

def setFlags (k : Hba) (task : Addr) (flags : TaskFlags) : Hba :=
  let task' : ScsitapTask := { k.tasks task with flags }
  { k with tasks := Function.update k.tasks task task' }

/-- Calls the completion function of a command. -/
def scsi_done (k : Hba) (sc : Addr) : Hba := { k with history := k.history.scsi_done sc }

variable (k : Hba) (sc task : Addr) (f : ScsiCmnd → ScsiCmnd) (flags : TaskFlags)

@[simp] theorem modifyCmnd_session : (k.modifyCmnd sc f).session = k.session := rfl
@[simp] theorem modifyCmnd_tasks : (k.modifyCmnd sc f).tasks = k.tasks := rfl
@[simp] theorem modifyCmnd_mem : (k.modifyCmnd sc f).mem = k.mem := rfl
@[simp] theorem modifyCmnd_history : (k.modifyCmnd sc f).history = k.history := rfl
@[simp] theorem modifyCmnd_cmnds :
    (k.modifyCmnd sc f).cmnds = Function.update k.cmnds sc (f (k.cmnds sc)) := rfl

@[simp] theorem setFlags_session : (k.setFlags task flags).session = k.session := rfl
@[simp] theorem setFlags_cmnds : (k.setFlags task flags).cmnds = k.cmnds := rfl
@[simp] theorem setFlags_mem : (k.setFlags task flags).mem = k.mem := rfl
@[simp] theorem setFlags_history : (k.setFlags task flags).history = k.history := rfl
@[simp] theorem setFlags_self :
    (k.setFlags task flags).tasks task = { k.tasks task with flags } := by simp [setFlags]
theorem setFlags_of_ne {t : Addr} (h : t ≠ task) : (k.setFlags task flags).tasks t = k.tasks t := by
  simp [setFlags, h]

@[simp] theorem scsi_done_session : (k.scsi_done sc).session = k.session := rfl
@[simp] theorem scsi_done_tasks : (k.scsi_done sc).tasks = k.tasks := rfl
@[simp] theorem scsi_done_cmnds : (k.scsi_done sc).cmnds = k.cmnds := rfl
@[simp] theorem scsi_done_mem : (k.scsi_done sc).mem = k.mem := rfl
@[simp] theorem scsi_done_history : (k.scsi_done sc).history = k.history.scsi_done sc := rfl

end Hba

end vscsi
