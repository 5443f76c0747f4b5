import Vscsi.Kernel.Sessions

open lib

namespace vscsi

open hba device driver

/-- How far `scsitap_init` and `scsitap_cleanup` have got. While it unloads, the
module still has to visit the sessions in `rest`. -/
inductive Stage where
  | loading
  | cached
  | registered
  | listed
  | locked
  | loaded
  | unloading (rest : List Nat)
  | unloaded
  | failed

namespace Stage

/-- `scsitap_task_cache` exists: `scsitap_cleanup` destroys it first. -/
def HasCache : Stage → Prop
  | .cached | .registered | .listed | .locked | .loaded => True
  | _ => False

/-- Control devices can be opened, which the kernel refuses as soon as the
module goes away. -/
def HasDevice : Stage → Prop
  | .registered | .listed | .locked | .loaded => True
  | _ => False

/-- `INIT_LIST_HEAD` has run for the list of sessions and `spin_lock_init` for
its lock. -/
def HasSessions : Stage → Prop
  | .locked | .loaded | .unloading _ | .unloaded => True
  | _ => False

end Stage

/-- The kernel module. -/
structure DriverModule where
  stage : Stage
  driver : Driver

/-- A step of `scsitap_init`, whose first two calls may fail, a call into the
driver, the begin of `scsitap_cleanup`, or a step of the loop in it and of what
follows the loop. -/
inductive ModuleOp where
  | init (succeeds : Bool)
  | driver (op : DriverOp)
  | cleanup
  | cleanup_next

namespace Hba

/-- The call gets a slot from `scsitap_task_cache` or gives one back. -/
def UsesCache (k : Hba) (op : Op) : Prop :=
  (∃ sc slot, op = .queuecommand sc slot ∧ k.session.flags = .ready) ∨ ∃ task, slab.Frees k op task

end Hba

namespace DriverModule

/-- The next step of `scsitap_init`. When the device cannot be registered, the
cache goes again. -/
def scsitap_init (m : DriverModule) (succeeds : Bool) : DriverModule :=
  match m.stage with
  | .loading => { m with stage := if succeeds then .cached else .failed }
  | .cached => { m with stage := if succeeds then .registered else .failed }
  | .registered => { stage := .listed, driver := { m.driver with session_queue := [] } }
  | .listed => { m with stage := .locked }
  | .locked => { stage := .loaded, driver := { m.driver with last_id := 0 } }
  | _ => m

/-- `kmem_cache_destroy`; then the lock is taken and the loop begins. -/
def scsitap_cleanup (m : DriverModule) : DriverModule := { m with stage := .unloading m.driver.session_queue }

/-- The loop body of `scsitap_cleanup`, which ignores what
`scsitap_destroy_session` returns, and after the last session the end of it. -/
def scsitap_cleanup_next (m : DriverModule) : DriverModule :=
  match m.stage with
  | .unloading (session :: rest) =>
    { stage := .unloading rest, driver := (scsitap_destroy_session m.driver session).2 }
  | .unloading [] => { m with stage := .unloaded }
  | _ => m

def apply (m : DriverModule) : ModuleOp → DriverModule
  | .init succeeds => m.scsitap_init succeeds
  | .driver op => { m with driver := m.driver.apply op }
  | .cleanup => m.scsitap_cleanup
  | .cleanup_next => m.scsitap_cleanup_next

/-- `scsitap_cleanup` runs when no control file is open, and a session is
destroyed only while its queue lock is free. -/
def Allowed (m : DriverModule) : ModuleOp → Prop
  | .init _ => m.stage ∈ [Stage.loading, .cached, .registered, .listed, .locked]
  | .driver op => m.driver.Allowed op ∧ (∀ minor, op = .ctl_open minor → m.stage.HasDevice) ∧ m.stage ≠ .unloaded
  | .cleanup => m.stage = .loaded ∧ m.driver.opened = []
  | .cleanup_next => m.stage = .unloading [] ∨ ∃ session rest, m.stage = .unloading (session :: rest) ∧
      ((m.driver.hbas session).Locks .unregister_client = true →
        (m.driver.hbas session).session.scsitap_queue_lock = false)

def Step (m : DriverModule) (op : ModuleOp) (m' : DriverModule) : Prop := m.Allowed op ∧ m' = m.apply op

/-- The module before `scsitap_init`. -/
def Initial (m : DriverModule) : Prop := m.stage = .loading ∧ m.driver.Initial

/-- The step works on the list of sessions or takes its lock. -/
def UsesSessions (m : DriverModule) : ModuleOp → Prop
  | .driver (.ctl_ioctl _ _ (.register_client _)) => True
  | .driver (.ctl_ioctl _ _ .unregister_client) => True
  | .driver (.ctl_release file) => (m.driver.files file).private_data ≠ none
  | .cleanup => True
  | .cleanup_next => True
  | _ => False

/-- The step gets a slot from `scsitap_task_cache` or gives one back. -/
def UsesCache (m : DriverModule) : ModuleOp → Prop
  | .driver (.midlayer session op) => (m.driver.hbas session).UsesCache op
  | .driver (.ctl_write file user count) =>
    ∃ session, (m.driver.files file).private_data = some session ∧ (m.driver.hbas session).UsesCache (.write user count)
  | .driver (.ctl_ioctl file _ .unregister_client) =>
    ∃ session, scsitap_get_session m.driver (m.driver.files file).minor = some session ∧
      (m.driver.hbas session).UsesCache .unregister_client
  | .cleanup_next =>
    ∃ session rest, m.stage = .unloading (session :: rest) ∧ (m.driver.hbas session).UsesCache .unregister_client
  | _ => False

/-- What the step uses is there. -/
def Orderly (m : DriverModule) (op : ModuleOp) : Prop :=
  (m.UsesSessions op → m.stage.HasSessions) ∧ (m.UsesCache op → m.stage.HasCache)

/-- Nobody registers or unregisters before the module is there, and it goes only
when nobody counts as a user of a session and nothing is queued. -/
def Careful (m : DriverModule) : ModuleOp → Prop
  | .driver (.ctl_ioctl _ _ (.register_client _)) => m.stage.HasSessions
  | .driver (.ctl_ioctl _ _ .unregister_client) => m.stage.HasSessions
  | .cleanup => ∀ session ∈ m.driver.session_queue,
      (m.driver.hbas session).session.Device_Open = 0 ∧ (m.driver.hbas session).queue = []
  | _ => True

end DriverModule

end vscsi
