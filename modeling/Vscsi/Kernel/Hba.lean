import Vscsi.Kernel.History

open lib

namespace vscsi.hba

/-- The sense buffer of a command without an error. -/
def set_sensedata (sc : ScsiCmnd) : ScsiCmnd := { sc with sense_buffer := fun _ => 0 }

def set_sensedata_illegal (sc : ScsiCmnd) : ScsiCmnd :=
  { sc with sense_buffer := fun i => if i = 0 then 0x70 else if i = 7 then 0x6 else 0 }

/-- Unlike its siblings this one does not clear the rest of the buffer. -/
def set_sensedata_commfailure (sc : ScsiCmnd) : ScsiCmnd :=
  { sc with sense_buffer := fun i =>
      if i = 0 then 0x70 else if i = 2 then NOT_READY else if i = 7 then 0x6
      else if i = 12 then 0x08 else if i = 13 then 0x00 else sc.sense_buffer i }

def task_of_cmd (k : Hba) (cmd_number : UInt32) : Option Addr :=
  k.session.scsitap_queue.find? fun task => (k.tasks task).cmd_number = cmd_number

/-- Removes a task and calls `scsi_done` unless it is marked aborted. The flags
are read after `kmem_cache_free`, from a slot that still holds its contents. -/
def scsitap_complete_task (k : Hba) (task : Addr) : Hba :=
  let sc := (k.tasks task).sc
  let k := { k with session := { k.session with
    cmd_numbers := k.session.cmd_numbers - 1
    scsitap_queue := k.session.scsitap_queue.erase task } }
  let k := k.modifyCmnd sc fun c => { c with SCp_ptr := none }
  if (k.tasks task).flags ≠ .aborted then k.scsi_done sc else k

/-- The loop body of the reset and the tail of the abort. -/
def abortTask (k : Hba) (task : Addr) : Hba :=
  let k := { k.setFlags task .aborted with history := k.history.abort (k.tasks task).seq }
  scsitap_complete_task k task

/-- `list_for_each_entry_safe` visits the tasks queued when it starts. -/
def scsitap_eh_host_reset (k : Hba) : Int × Hba :=
  (SUCCESS, k.session.scsitap_queue.foldl abortTask k)

def scsitap_eh_abort (k : Hba) (sc : Addr) : Int × Hba :=
  match (k.cmnds sc).SCp_ptr with
  | none => (SUCCESS, k)
  | some task => (SUCCESS, abortTask k task)

/-- `slot` is what `kmem_cache_alloc` returns. -/
def scsitap_alloc_task (k : Hba) (slot : Option Addr) : Option (Addr × Hba) :=
  slot.map fun task =>
    (task, { k with tasks := Function.update k.tasks task (.empty k.history.accepted.length) })

def scsitap_queuecommand (k : Hba) (sc : Addr) (slot : Option Addr) : Int × Hba :=
  if k.session.flags ≠ .ready then
    let k := k.modifyCmnd sc fun c =>
      set_sensedata_commfailure { c with result := DID_NO_CONNECT <<< 16, resid := c.request_bufflen }
    (0, ({ k with history := k.history.refuse sc } : Hba).scsi_done sc)
  else
    let k := k.modifyCmnd sc fun c => { c with result := 0, SCp_ptr := none }
    match scsitap_alloc_task k slot with
    | none => (SCSI_MLQUEUE_HOST_BUSY, { k with history := k.history.busy sc })
    | some (task, k) =>
      let number := if k.session.next_cmdnumber ≠ 0 then k.session.next_cmdnumber else 1
      let filled : ScsitapTask := { k.tasks task with
        lun := (k.cmnds sc).lun, flags := .submitted, sc, cmd_number := number, type := 67 }
      let k := { k with
        tasks := Function.update k.tasks task filled
        session := { k.session with
          cmd_numbers := k.session.cmd_numbers + 1
          next_cmdnumber := number + 1
          scsitap_queue := k.session.scsitap_queue ++ [task] } }
      let k := k.modifyCmnd sc fun c => { c with SCp_ptr := some task }
      (0, { k with history := k.history.accept sc number })

/-- The loop body of `scsitap_destroy_session`. -/
def failTask (k : Hba) (task : Addr) : Hba :=
  let k := k.modifyCmnd (k.tasks task).sc fun c =>
    set_sensedata_commfailure { c with result := DID_NO_CONNECT <<< 16, resid := c.request_bufflen }
  scsitap_complete_task k task

def scsitap_destroy_session (k : Hba) : Int × Hba :=
  if k.session.Device_Open ≠ 0 then (1, k)
  else
    let k := k.session.scsitap_queue.foldl failTask k
    (0, { k with session := { k.session with listed := false } })

/-- The session as `scsitap_create_session` leaves it in kernel memory whose
other contents are given. -/
def scsitap_create_session (id : UInt32) (tasks : Addr → ScsitapTask) (cmnds : Addr → ScsiCmnd)
    (mem : Mem) : Hba where
  session :=
    { listed := true, dev_id := id, pid := 0, flags := .not_ready, Device_Open := 0,
      scsitap_queue_lock := false, cmd_numbers := 0, next_cmdnumber := 1, scsitap_queue := [] }
  tasks := tasks
  cmnds := cmnds
  mem := mem
  history := .initial

end vscsi.hba
