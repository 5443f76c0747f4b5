import Vscsi.Kernel.Step

open lib

namespace vscsi

open hba device

/-- `struct file` of a control device. -/
structure ControlFile where
  minor : UInt32
  private_data : Option Nat
  f_pos : Nat

/-- The memory that `scsi_host_alloc` provides for a new host, with the commands
the mid layer has for it. -/
structure HostMemory where
  tasks : Addr → ScsitapTask
  cmnds : Addr → ScsiCmnd
  mem : Mem

/-- `scsitap_work`, with the executions of it that `schedule_work` has been
asked for and the sessions that scans under way work on. `awaited` is a ghost:
the sessions that have become ready and whose scan has not begun since. -/
structure ScsitapWork where
  session : Option Nat
  pending : Nat
  scanning : List Nat
  awaited : List Nat

/-- A claim of a queued command through a file, which no code reads. -/
structure Claim where
  session : Nat
  seq : Nat
  file : Nat
  deriving DecidableEq

/-- The whole driver: the sessions in the order of their creation, the list of
those that have not been destroyed, and the files of the control devices in the
order in which they were opened. -/
structure Driver where
  hbas : Nat → Hba
  created : Nat
  session_queue : List Nat
  last_id : UInt32
  files : Nat → ControlFile
  opens : Nat
  opened : List Nat
  scsitap_work : ScsitapWork
  claims : List Claim

/-- The requests of `scsitap_ctl_ioctl`; any other number is refused. -/
inductive Ioctl where
  | register_client (pid : UInt32)
  | receive_task (arg : Nat)
  | set_task (arg : Nat)
  | unregister_client
  | unknown

/-- `SCSITAP_INIT_WORK` and `schedule_work` for a session. -/
def ScsitapWork.schedule (w : ScsitapWork) (session : Nat) : ScsitapWork :=
  { w with session := some session, pending := w.pending + 1, awaited := session :: w.awaited }

namespace Driver

/-- A call into one session. -/
def callSession (d : Driver) (session : Nat) (op : Op) : Driver :=
  { d with hbas := Function.update d.hbas session ((d.hbas session).apply op) }

def setFile (d : Driver) (file : Nat) (f : ControlFile) : Driver :=
  { d with files := Function.update d.files file f }

/-- A file that has just been opened. -/
def addFile (d : Driver) (minor : UInt32) : Driver :=
  { d.setFile d.opens { minor, private_data := none, f_pos := 0 } with
    opens := d.opens + 1
    opened := d.opened ++ [d.opens] }

def closeFile (d : Driver) (file : Nat) : Driver := { d with opened := d.opened.erase file }

/-- A session that has just been created. -/
def addSession (d : Driver) (id : UInt32) (host : HostMemory) : Driver :=
  { d with
    hbas := Function.update d.hbas d.created (hba.scsitap_create_session id host.tasks host.cmnds host.mem)
    created := d.created + 1
    session_queue := d.session_queue ++ [d.created]
    last_id := d.last_id + 1 }

def removeSession (d : Driver) (session : Nat) : Driver :=
  { d.callSession session .unregister_client with
    session_queue := d.session_queue.erase session
    last_id := d.last_id - 1 }

/-- The registration of a file with a session that exists. -/
def attach (d : Driver) (file session : Nat) (pid : UInt32) : Driver :=
  { (d.setFile file { d.files file with private_data := some session }).callSession session (.register_client pid) with
    scsitap_work :=
      if (d.hbas session).session.flags = .not_ready then d.scsitap_work.schedule session else d.scsitap_work }

/-- The claim that `SCSITAP_IOCTL_RECEIVE_TASK` makes, if it finds a task. -/
def claimOf (d : Driver) (session file arg : Nat) : List Claim :=
  if (d.hbas session).session.flags = .ready then
    ((task_of_cmd (d.hbas session) (UInt32.ofNat arg)).map fun task =>
      { session, seq := ((d.hbas session).tasks task).seq, file }).toList
  else []

def recordClaim (d : Driver) (session file arg : Nat) : Driver :=
  { d.callSession session (.receive_task arg) with claims := d.claims ++ d.claimOf session file arg }

variable (d : Driver) (file session : Nat) (op : Op) (id : UInt32) (host : HostMemory) (pid : UInt32) (f : ControlFile)

@[simp] theorem callSession_hbas : (d.callSession session op).hbas =
    Function.update d.hbas session ((d.hbas session).apply op) := rfl
@[simp] theorem callSession_session_queue : (d.callSession session op).session_queue = d.session_queue := rfl
@[simp] theorem callSession_files : (d.callSession session op).files = d.files := rfl
@[simp] theorem callSession_opened : (d.callSession session op).opened = d.opened := rfl
@[simp] theorem callSession_work : (d.callSession session op).scsitap_work = d.scsitap_work := rfl
@[simp] theorem callSession_claims : (d.callSession session op).claims = d.claims := rfl

@[simp] theorem setFile_hbas : (d.setFile file f).hbas = d.hbas := rfl
@[simp] theorem setFile_session_queue : (d.setFile file f).session_queue = d.session_queue := rfl
@[simp] theorem setFile_files : (d.setFile file f).files = Function.update d.files file f := rfl
@[simp] theorem setFile_opened : (d.setFile file f).opened = d.opened := rfl
@[simp] theorem setFile_work : (d.setFile file f).scsitap_work = d.scsitap_work := rfl
@[simp] theorem setFile_claims : (d.setFile file f).claims = d.claims := rfl

@[simp] theorem addFile_hbas : (d.addFile id).hbas = d.hbas := rfl
@[simp] theorem addFile_session_queue : (d.addFile id).session_queue = d.session_queue := rfl
@[simp] theorem addFile_files : (d.addFile id).files =
    Function.update d.files d.opens { minor := id, private_data := none, f_pos := 0 } := rfl
@[simp] theorem addFile_opened : (d.addFile id).opened = d.opened ++ [d.opens] := rfl
@[simp] theorem addFile_work : (d.addFile id).scsitap_work = d.scsitap_work := rfl
@[simp] theorem addFile_claims : (d.addFile id).claims = d.claims := rfl

@[simp] theorem closeFile_hbas : (d.closeFile file).hbas = d.hbas := rfl
@[simp] theorem closeFile_session_queue : (d.closeFile file).session_queue = d.session_queue := rfl
@[simp] theorem closeFile_files : (d.closeFile file).files = d.files := rfl
@[simp] theorem closeFile_opened : (d.closeFile file).opened = d.opened.erase file := rfl
@[simp] theorem closeFile_work : (d.closeFile file).scsitap_work = d.scsitap_work := rfl
@[simp] theorem closeFile_claims : (d.closeFile file).claims = d.claims := rfl

@[simp] theorem addSession_hbas : (d.addSession id host).hbas = Function.update d.hbas d.created
    (hba.scsitap_create_session id host.tasks host.cmnds host.mem) := rfl
@[simp] theorem addSession_session_queue : (d.addSession id host).session_queue = d.session_queue ++ [d.created] := rfl
@[simp] theorem addSession_files : (d.addSession id host).files = d.files := rfl
@[simp] theorem addSession_opened : (d.addSession id host).opened = d.opened := rfl
@[simp] theorem addSession_work : (d.addSession id host).scsitap_work = d.scsitap_work := rfl
@[simp] theorem addSession_claims : (d.addSession id host).claims = d.claims := rfl

@[simp] theorem removeSession_hbas : (d.removeSession session).hbas =
    Function.update d.hbas session ((d.hbas session).apply .unregister_client) := rfl
@[simp] theorem removeSession_session_queue :
    (d.removeSession session).session_queue = d.session_queue.erase session := rfl
@[simp] theorem removeSession_files : (d.removeSession session).files = d.files := rfl
@[simp] theorem removeSession_opened : (d.removeSession session).opened = d.opened := rfl
@[simp] theorem removeSession_work : (d.removeSession session).scsitap_work = d.scsitap_work := rfl
@[simp] theorem removeSession_claims : (d.removeSession session).claims = d.claims := rfl

@[simp] theorem attach_hbas : (d.attach file session pid).hbas =
    Function.update d.hbas session ((d.hbas session).apply (.register_client pid)) := rfl
@[simp] theorem attach_session_queue : (d.attach file session pid).session_queue = d.session_queue := rfl
@[simp] theorem attach_files : (d.attach file session pid).files =
    Function.update d.files file { d.files file with private_data := some session } := rfl
@[simp] theorem attach_opened : (d.attach file session pid).opened = d.opened := rfl
@[simp] theorem attach_claims : (d.attach file session pid).claims = d.claims := rfl
theorem attach_work : (d.attach file session pid).scsitap_work =
    if (d.hbas session).session.flags = .not_ready then d.scsitap_work.schedule session else d.scsitap_work := rfl

@[simp] theorem recordClaim_hbas (arg : Nat) : (d.recordClaim session file arg).hbas =
    Function.update d.hbas session ((d.hbas session).apply (.receive_task arg)) := rfl
@[simp] theorem recordClaim_session_queue (arg : Nat) :
    (d.recordClaim session file arg).session_queue = d.session_queue := rfl
@[simp] theorem recordClaim_files (arg : Nat) : (d.recordClaim session file arg).files = d.files := rfl
@[simp] theorem recordClaim_opened (arg : Nat) : (d.recordClaim session file arg).opened = d.opened := rfl
@[simp] theorem recordClaim_work (arg : Nat) : (d.recordClaim session file arg).scsitap_work = d.scsitap_work := rfl
@[simp] theorem recordClaim_claims (arg : Nat) :
    (d.recordClaim session file arg).claims = d.claims ++ d.claimOf session file arg := rfl

end Driver

namespace driver

def scsitap_get_session (d : Driver) (id : UInt32) : Option Nat :=
  d.session_queue.find? fun session => (d.hbas session).session.dev_id = id

/-- `host` is what `scsi_host_alloc` returns, none also when `scsi_add_host`
fails. -/
def scsitap_create_session (d : Driver) (id : UInt32) (host : Option HostMemory) : Option (Nat × Driver) :=
  host.map fun host => (d.created, d.addSession id host)

def scsitap_destroy_session (d : Driver) (session : Nat) : Int × Driver :=
  if (d.hbas session).session.Device_Open ≠ 0 then (1, d) else (0, d.removeSession session)

/-- The work item begins to run: it reads `scsitap_work.session`. -/
def scsitap_scan_hba (d : Driver) : Driver :=
  { d with scsitap_work := { d.scsitap_work with
    pending := d.scsitap_work.pending - 1
    scanning := d.scsitap_work.scanning ++ d.scsitap_work.session.toList
    awaited := d.scsitap_work.awaited.filter fun session => some session ≠ d.scsitap_work.session } }

def scsitap_ctl_open (d : Driver) (minor : UInt32) : Int × Driver := (0, d.addFile minor)

def scsitap_ctl_ioctl (d : Driver) (file : Nat) (host : Option HostMemory) : Ioctl → Int × Driver
  | .register_client pid =>
    match scsitap_get_session d (d.files file).minor with
    | some session => (SUCCESS, d.attach file session pid)
    | none =>
      match scsitap_create_session d (d.files file).minor host with
      | some (session, d) => (SUCCESS, d.attach file session pid)
      | none => (-1, d)
  | .receive_task arg =>
    match (d.files file).private_data with
    | some session =>
      ((scsitap_ioctl_receive_task (d.hbas session) arg).1, d.recordClaim session file arg)
    | none => (-1, d)
  | .set_task arg => (SUCCESS, d.setFile file { d.files file with f_pos := arg })
  | .unregister_client =>
    match scsitap_get_session d (d.files file).minor with
    | some session =>
      match scsitap_destroy_session d session with
      | (0, d) => (SUCCESS, d)
      | (_, d) => (-1, d)
    | none => (-1, d)
  | .unknown => (-1, d)

def scsitap_ctl_read (d : Driver) (file : Nat) (user : UserMem) (count : Nat) : Int × UserMem :=
  match (d.files file).private_data with
  | some session => device.scsitap_ctl_read (d.hbas session) (d.files file).f_pos user count
  | none => (-EFAULT, user)

def scsitap_ctl_write (d : Driver) (file : Nat) (user : UserMem) (count : Nat) : Int × Driver :=
  match (d.files file).private_data with
  | some session =>
    ((device.scsitap_ctl_write (d.hbas session) user count).1, d.callSession session (.write user count))
  | none => (-EFAULT, d)

def scsitap_ctl_release (d : Driver) (file : Nat) : Int × Driver :=
  match (d.files file).private_data with
  | some session => (0, (d.callSession session .release).closeFile file)
  | none => (0, d.closeFile file)

end driver

/-- A system call on a control device, a call of the mid layer into a host, or
the work queue beginning or ending an execution of the work item. -/
inductive DriverOp where
  | ctl_open (minor : UInt32)
  | ctl_ioctl (file : Nat) (host : Option HostMemory) (request : Ioctl)
  | ctl_read (file : Nat) (user : UserMem) (count : Nat)
  | ctl_write (file : Nat) (user : UserMem) (count : Nat)
  | ctl_release (file : Nat)
  | midlayer (session : Nat) (op : Op)
  | scan_begin
  | scan_end (session : Nat)

namespace Driver

open driver

def apply (d : Driver) : DriverOp → Driver
  | .ctl_open minor => (scsitap_ctl_open d minor).2
  | .ctl_ioctl file host request => (scsitap_ctl_ioctl d file host request).2
  | .ctl_read _ _ _ => d
  | .ctl_write file user count => (scsitap_ctl_write d file user count).2
  | .ctl_release file => (scsitap_ctl_release d file).2
  | .midlayer session op => d.callSession session op
  | .scan_begin => scsitap_scan_hba d
  | .scan_end session =>
    { d with scsitap_work := { d.scsitap_work with scanning := d.scsitap_work.scanning.erase session } }

/-- A call into a session can be made: the session has not been destroyed, a
lock it takes is free, and its caller keeps its promises. -/
def Callable (d : Driver) (session : Nat) (op : Op) : Prop :=
  session ∈ d.session_queue ∧
    ((d.hbas session).Locks op = true → (d.hbas session).session.scsitap_queue_lock = false) ∧
    (d.hbas session).Allowed op

/-- A call on an open file can be made. -/
def OnFile (d : Driver) (file : Nat) (op : Op) : Prop :=
  file ∈ d.opened ∧ ∀ session, (d.files file).private_data = some session → d.Callable session op

/-- The calls that can be made and go on; what a call on a destroyed session
does is not defined. -/
def Allowed (d : Driver) : DriverOp → Prop
  | .ctl_open _ => True
  | .ctl_ioctl file host request =>
    match request with
    | .register_client _ => file ∈ d.opened ∧ ∀ memory, host = some memory → ∀ sc, (memory.cmnds sc).SCp_ptr = none
    | .receive_task arg => d.OnFile file (.receive_task arg)
    | .unregister_client => file ∈ d.opened ∧
        ∀ session, scsitap_get_session d (d.files file).minor = some session → d.Callable session .unregister_client
    | _ => file ∈ d.opened
  | .ctl_read file user count => d.OnFile file (.read (d.files file).f_pos user count)
  | .ctl_write file user count => d.OnFile file (.write user count)
  | .ctl_release file => d.OnFile file .release
  | .midlayer session op => op.MidLayer ∧ d.Callable session op
  | .scan_begin => 0 < d.scsitap_work.pending
  | .scan_end session => session ∈ d.scsitap_work.scanning

def Step (d : Driver) (op : DriverOp) (d' : Driver) : Prop := d.Allowed op ∧ d' = d.apply op

/-- The driver once it is loaded. -/
def Initial (d : Driver) : Prop :=
  d.created = 0 ∧ d.session_queue = [] ∧ d.last_id = 0 ∧ d.opens = 0 ∧ d.opened = [] ∧
    d.scsitap_work = { session := none, pending := 0, scanning := [], awaited := [] } ∧ d.claims = []

/-- A loaded driver in cleared memory. -/
def loaded : Driver where
  hbas _ := .fresh
  created := 0
  session_queue := []
  last_id := 0
  files _ := { minor := 0, private_data := none, f_pos := 0 }
  opens := 0
  opened := []
  scsitap_work := { session := none, pending := 0, scanning := [], awaited := [] }
  claims := []

theorem loaded_initial : Initial loaded := ⟨rfl, rfl, rfl, rfl, rfl, rfl, rfl⟩

/-- What a step can do. -/
inductive Change (d : Driver) : DriverOp → Driver → Prop where
  | nothing (op : DriverOp)
      (hregister : ∀ file host pid, op = .ctl_ioctl file host (.register_client pid) →
        scsitap_get_session d (d.files file).minor = none ∧ host = none)
      (hunregister : ∀ file host session, op = .ctl_ioctl file host .unregister_client →
        scsitap_get_session d (d.files file).minor = some session → (d.hbas session).session.Device_Open ≠ 0)
      (hrelease : ∀ file, op ≠ .ctl_release file) : Change d op d
  | opened (minor : UInt32) : Change d (.ctl_open minor) (d.addFile minor)
  | attached (file session : Nat) (pid : UInt32) (host : Option HostMemory) (hfile : file ∈ d.opened)
      (hfound : scsitap_get_session d (d.files file).minor = some session) :
      Change d (.ctl_ioctl file host (.register_client pid)) (d.attach file session pid)
  | created (file : Nat) (pid : UInt32) (host : HostMemory) (hfile : file ∈ d.opened)
      (hnone : scsitap_get_session d (d.files file).minor = none)
      (hfresh : ∀ sc, (host.cmnds sc).SCp_ptr = none) :
      Change d (.ctl_ioctl file (some host) (.register_client pid))
        ((d.addSession (d.files file).minor host).attach file d.created pid)
  | claimed (file session arg : Nat) (host : Option HostMemory) (hfile : file ∈ d.opened)
      (hsession : (d.files file).private_data = some session) (hcall : d.Callable session (.receive_task arg)) :
      Change d (.ctl_ioctl file host (.receive_task arg)) (d.recordClaim session file arg)
  | positioned (file arg : Nat) (host : Option HostMemory) (hfile : file ∈ d.opened) :
      Change d (.ctl_ioctl file host (.set_task arg)) (d.setFile file { d.files file with f_pos := arg })
  | destroyed (file session : Nat) (host : Option HostMemory) (hfile : file ∈ d.opened)
      (hfound : scsitap_get_session d (d.files file).minor = some session)
      (hclosed : (d.hbas session).session.Device_Open = 0) (hcall : d.Callable session .unregister_client) :
      Change d (.ctl_ioctl file host .unregister_client) (d.removeSession session)
  | written (file session : Nat) (user : UserMem) (count : Nat) (hfile : file ∈ d.opened)
      (hsession : (d.files file).private_data = some session) (hcall : d.Callable session (.write user count)) :
      Change d (.ctl_write file user count) (d.callSession session (.write user count))
  | midlayer (session : Nat) (op : Op) (hop : op.MidLayer) (hcall : d.Callable session op) :
      Change d (.midlayer session op) (d.callSession session op)
  | closed (file session : Nat) (hfile : file ∈ d.opened) (hsession : (d.files file).private_data = some session)
      (hcall : d.Callable session .release) :
      Change d (.ctl_release file) ((d.callSession session .release).closeFile file)
  | closedBogus (file : Nat) (hfile : file ∈ d.opened) (hsession : (d.files file).private_data = none) :
      Change d (.ctl_release file) (d.closeFile file)
  | scanBegun (hpending : 0 < d.scsitap_work.pending) : Change d .scan_begin (scsitap_scan_hba d)
  | scanEnded (session : Nat) (hscanning : session ∈ d.scsitap_work.scanning) :
      Change d (.scan_end session)
        { d with scsitap_work := { d.scsitap_work with scanning := d.scsitap_work.scanning.erase session } }

theorem Step.change {d d' : Driver} {op : DriverOp} (h : d.Step op d') : Change d op d' := by
  obtain ⟨hallowed, rfl⟩ := h
  cases op with
  | ctl_open minor => exact .opened minor
  | ctl_ioctl file host request =>
    cases request with
    | register_client pid =>
      obtain ⟨hfile, hmemory⟩ := hallowed
      simp only [apply, scsitap_ctl_ioctl]
      cases hfound : scsitap_get_session d (d.files file).minor with
      | some session => exact .attached file session pid host hfile hfound
      | none =>
        cases host with
        | some memory => exact .created file pid memory hfile hfound (hmemory memory rfl)
        | none =>
          refine .nothing _ ?_ (nofun) (nofun)
          rintro file' host' pid' heq
          obtain ⟨rfl, rfl, -⟩ := DriverOp.ctl_ioctl.inj heq
          exact ⟨hfound, rfl⟩
    | receive_task arg =>
      obtain ⟨hfile, hcallable⟩ := hallowed
      simp only [apply, scsitap_ctl_ioctl]
      cases hsession : (d.files file).private_data with
      | some session => exact .claimed file session arg host hfile hsession (hcallable session hsession)
      | none => exact .nothing _ (nofun) (nofun) (nofun)
    | set_task arg => exact .positioned file arg host hallowed
    | unregister_client =>
      obtain ⟨hfile, hcallable⟩ := hallowed
      simp only [apply, scsitap_ctl_ioctl]
      cases hfound : scsitap_get_session d (d.files file).minor with
      | some session =>
        by_cases hclosed : (d.hbas session).session.Device_Open = 0
        · simp only [driver.scsitap_destroy_session, hclosed, ne_eq, not_true_eq_false, if_false]
          exact .destroyed file session host hfile hfound hclosed (hcallable session hfound)
        · simp only [driver.scsitap_destroy_session, ne_eq, hclosed, not_false_eq_true, if_true]
          refine .nothing _ (nofun) ?_ (nofun)
          rintro file' host' session' heq hfound'
          obtain ⟨rfl, -⟩ := DriverOp.ctl_ioctl.inj heq
          rw [hfound] at hfound'
          cases hfound'
          exact hclosed
      | none =>
        refine .nothing _ (nofun) ?_ (nofun)
        rintro file' host' session' heq hfound'
        obtain ⟨rfl, -⟩ := DriverOp.ctl_ioctl.inj heq
        rw [hfound] at hfound'
        cases hfound'
    | unknown => exact .nothing _ (nofun) (nofun) (nofun)
  | ctl_read file user count => exact .nothing _ (nofun) (nofun) (nofun)
  | ctl_write file user count =>
    obtain ⟨hfile, hcallable⟩ := hallowed
    simp only [apply, driver.scsitap_ctl_write]
    cases hsession : (d.files file).private_data with
    | some session => exact .written file session user count hfile hsession (hcallable session hsession)
    | none => exact .nothing _ (nofun) (nofun) (nofun)
  | ctl_release file =>
    obtain ⟨hfile, hcallable⟩ := hallowed
    simp only [apply, driver.scsitap_ctl_release]
    cases hsession : (d.files file).private_data with
    | some session => exact .closed file session hfile hsession (hcallable session hsession)
    | none => exact .closedBogus file hfile hsession
  | midlayer session op => exact .midlayer session op hallowed.1 hallowed.2
  | scan_begin => exact .scanBegun hallowed
  | scan_end session => exact .scanEnded session hallowed

theorem get_session_mem {d : Driver} {id : UInt32} {session : Nat} (h : scsitap_get_session d id = some session) :
    session ∈ d.session_queue ∧ (d.hbas session).session.dev_id = id :=
  ⟨List.mem_of_find?_eq_some h, by simpa using List.find?_some h⟩

/-- The memory of a host with nothing in it. -/
def clearedHost : HostMemory := { tasks := fun _ => .empty 0, cmnds := fun _ => .zero, mem := fun _ => 0 }

/-- The state after a registration for which there is memory. -/
def afterRegister (d : Driver) (file : Nat) : Driver :=
  d.apply (.ctl_ioctl file (some clearedHost) (.register_client 1))

theorem open_step (d : Driver) (minor : UInt32) : d.Step (.ctl_open minor) (d.addFile minor) := ⟨trivial, rfl⟩

theorem register_step {d : Driver} (file : Nat) (hfile : file ∈ d.opened) :
    d.Step (.ctl_ioctl file (some clearedHost) (.register_client 1)) (d.afterRegister file) := by
  refine ⟨⟨hfile, ?_⟩, rfl⟩
  rintro memory hmemory sc
  obtain rfl := Option.some.inj hmemory
  rfl

/-- Where the session is there, a registration is the registration with it. -/
theorem afterRegister_found {d : Driver} {file session : Nat}
    (hfound : scsitap_get_session d (d.files file).minor = some session) :
    d.afterRegister file = d.attach file session 1 := by
  simp only [afterRegister, apply, scsitap_ctl_ioctl, hfound]

theorem release_step {d : Driver} {file session : Nat} (hfile : file ∈ d.opened)
    (hdata : (d.files file).private_data = some session) (hmem : session ∈ d.session_queue) :
    d.Step (.ctl_release file) ((d.callSession session .release).closeFile file) := by
  refine ⟨⟨hfile, fun other hother => ?_⟩, by simp only [apply, driver.scsitap_ctl_release, hdata]⟩
  rw [hdata] at hother
  obtain rfl := Option.some.inj hother
  exact ⟨hmem, by simp [Hba.Locks], trivial⟩

theorem unregister_step {d : Driver} {file session : Nat} (hfile : file ∈ d.opened)
    (hfound : scsitap_get_session d (d.files file).minor = some session)
    (hclosed : (d.hbas session).session.Device_Open = 0)
    (hlock : (d.hbas session).session.scsitap_queue_lock = false) :
    d.Step (.ctl_ioctl file none .unregister_client) (d.removeSession session) := by
  refine ⟨⟨hfile, fun other hother => ?_⟩, ?_⟩
  · rw [hfound] at hother
    obtain rfl := Option.some.inj hother
    exact ⟨(get_session_mem hfound).1, fun _ => hlock, trivial⟩
  · simp only [apply, scsitap_ctl_ioctl, hfound, driver.scsitap_destroy_session, hclosed, ne_eq, not_true_eq_false,
      if_false]

end Driver

end vscsi
