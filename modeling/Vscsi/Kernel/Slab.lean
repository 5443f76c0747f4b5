import Vscsi.Kernel.Step

open lib

namespace vscsi.slab

open hba device

/-- `scsitap_complete_task` when its slot holds `freed task` by the time the
flags are read: `kmem_cache_free` has returned the slot before, so whoever gets
it next may have stored anything there. -/
def scsitap_complete_task (freed : Addr → ScsitapTask) (k : Hba) (task : Addr) : Hba :=
  let sc := (k.tasks task).sc
  let k := { k with session := { k.session with
    cmd_numbers := k.session.cmd_numbers - 1
    scsitap_queue := k.session.scsitap_queue.erase task } }
  let k := { k with tasks := Function.update k.tasks task (freed task) }
  let k := k.modifyCmnd sc fun c => { c with SCp_ptr := none }
  if (k.tasks task).flags ≠ .aborted then k.scsi_done sc else k

section Callers

/- The callers of `scsitap_complete_task`, whatever that does. -/
variable (complete : Hba → Addr → Hba)

def abortTask (k : Hba) (task : Addr) : Hba :=
  let k := { k.setFlags task .aborted with history := k.history.abort (k.tasks task).seq }
  complete k task

def scsitap_eh_host_reset (k : Hba) : Int × Hba :=
  (SUCCESS, k.session.scsitap_queue.foldl (abortTask complete) k)

def scsitap_eh_abort (k : Hba) (sc : Addr) : Int × Hba :=
  match (k.cmnds sc).SCp_ptr with
  | none => (SUCCESS, k)
  | some task => (SUCCESS, abortTask complete k task)

def failTask (k : Hba) (task : Addr) : Hba :=
  let k := k.modifyCmnd (k.tasks task).sc fun c =>
    set_sensedata_commfailure { c with result := DID_NO_CONNECT <<< 16, resid := c.request_bufflen }
  complete k task

def scsitap_destroy_session (k : Hba) : Int × Hba :=
  if k.session.Device_Open ≠ 0 then (1, k)
  else
    let k := k.session.scsitap_queue.foldl (failTask complete) k
    (0, { k with session := { k.session with listed := false } })

def scsitap_ioctl_unregister_client (k : Hba) : Int × Hba :=
  match scsitap_destroy_session complete k with
  | (0, k) => (SUCCESS, k)
  | (_, k) => (-1, k)

def scsitap_ctl_write (k : Hba) (user : UserMem) (count : Nat) : Int × Hba :=
  if k.session.flags ≠ .ready then (-EINVAL, k)
  else if get_user user 0 = 68 then
    let bytes := copy_from_user user 1 4
    if bytes.length ≠ 4 then (-EFAULT, k)
    else
      match task_of_cmd k (unle32 bytes) with
      | none => (int32 count, k)
      | some task =>
        let sc := (k.tasks task).sc
        match receivePayload k sc user count (get_user user 5) with
        | (none, k) => (-EFAULT, k)
        | (some scsi_status, k) =>
          let k := k.modifyCmnd sc fun c => { c with result := scsi_status.toUInt32 }
          (int32 count, complete k task)
  else (0, k)

def apply (k : Hba) : Op → Hba
  | .eh_abort sc => (scsitap_eh_abort complete k sc).2
  | .eh_host_reset => (scsitap_eh_host_reset complete k).2
  | .write user count => (scsitap_ctl_write complete k user count).2
  | .unregister_client => (scsitap_ioctl_unregister_client complete k).2
  | op => k.apply op

end Callers

/-- With slots that keep their contents until the function is over, this is the
session as it stands. -/
theorem apply_kept (k : Hba) (op : Op) : apply hba.scsitap_complete_task k op = k.apply op := by
  cases op <;> rfl

/-- The write gets as far as completing the task. -/
def Completes (k : Hba) (user : UserMem) (count : Nat) (task : Addr) : Prop :=
  k.session.flags = .ready ∧ get_user user 0 = 68 ∧ (copy_from_user user 1 4).length = 4 ∧
    task_of_cmd k (unle32 (copy_from_user user 1 4)) = some task ∧
    (receivePayload k (k.tasks task).sc user count (get_user user 5)).1 ≠ none

/-- The slots that a call frees. -/
def Frees (k : Hba) : Op → Addr → Prop
  | .eh_abort sc, task => (k.cmnds sc).SCp_ptr = some task
  | .eh_host_reset, task => task ∈ k.session.scsitap_queue
  | .write user count, task => Completes k user count task
  | .unregister_client, task => k.session.Device_Open = 0 ∧ task ∈ k.session.scsitap_queue
  | _, _ => False

end vscsi.slab

namespace vscsi

/-- The calls that give commands up without `scsi_done`. -/
def Op.Aborts : Op → Prop
  | .eh_abort _ => True
  | .eh_host_reset => True
  | _ => False

/-- Several sessions, whose tasks are slots of the one `scsitap_task_cache`. -/
structure Hosts where
  slots : Addr → ScsitapTask
  hosts : Nat → Hba

/-- A call into one of the sessions; `freed` is what the slots it frees hold
when it looks at them again. -/
structure HostCall where
  host : Nat
  op : Op
  freed : Addr → ScsitapTask

namespace Hosts

/-- A session together with the slots. -/
def view (h : Hosts) (host : Nat) : Hba := { h.hosts host with tasks := h.slots }

def apply (h : Hosts) (c : HostCall) : Hosts :=
  let k := slab.apply (slab.scsitap_complete_task c.freed) (h.view c.host) c.op
  { slots := k.tasks, hosts := Function.update h.hosts c.host k }

/-- The allocator does not return a slot that some session has in use. -/
def Allocates (h : Hosts) : Op → Prop
  | .queuecommand _ slot => ∀ task, slot = some task → ∀ host, task ∉ (h.view host).session.scsitap_queue
  | _ => True

def Step (h : Hosts) (c : HostCall) (h' : Hosts) : Prop :=
  (h.view c.host).session.listed = true ∧
    ((h.view c.host).Locks c.op = true → (h.view c.host).session.scsitap_queue_lock = false) ∧
    (h.view c.host).Allowed c.op ∧ h.Allocates c.op ∧ h' = h.apply c

/-- Sessions just created. -/
def Initial (h : Hosts) : Prop := ∀ host, Hba.Initial (h.view host)

end Hosts

end vscsi
