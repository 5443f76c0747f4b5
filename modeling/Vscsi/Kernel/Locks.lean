import Vscsi.Lib.Locks
import Vscsi.Kernel.Driver

open lib lib.Locking

namespace vscsi

open hba device

/-- `sessions.session_lock`, and the locks of a session and of its host. -/
inductive Lock where
  | session_lock
  | scsitap_queue_lock (session : Nat)
  | host_lock (session : Nat)
  deriving DecidableEq

namespace Driver

/-- The commands pending in a session are finished. -/
def failTasks (d : Driver) (session : Nat) : Driver :=
  { d with
    hbas := Function.update d.hbas session ((d.hbas session).session.scsitap_queue.foldl failTask (d.hbas session)) }

/-- The session is taken off the list. -/
def unlist (d : Driver) (session : Nat) : Driver :=
  { d with
    hbas := Function.update d.hbas session
      { d.hbas session with session := { (d.hbas session).session with listed := false } }
    session_queue := d.session_queue.erase session
    last_id := d.last_id - 1 }

theorem unlist_failTasks {d : Driver} {session : Nat} (h : (d.hbas session).session.Device_Open = 0) :
    (d.failTasks session).unlist session = d.removeSession session := by
  simp [failTasks, unlist, removeSession, callSession, Hba.apply, scsitap_ioctl_unregister_client,
    hba.scsitap_destroy_session, h]

end Driver

namespace locks

/-- The driver as it is. The calls in this namespace are those of the driver with
the locks they take and release; between these they do what the others do. -/
def current : Locking Lock Driver Driver := perform fun d => (d, d)

/-- A call into a session of the driver. -/
def inSession (session : Nat) (op : Op) (ret : Hba → Int) : Locking Lock Driver Int :=
  perform fun d => (ret (d.hbas session), d.callSession session op)

/-- All ways out of the body end at the one release. -/
def scsitap_ctl_read (file : Nat) (user : UserMem) (count : Nat) : Locking Lock Driver (Int × UserMem) := do
  let d ← current
  match (d.files file).private_data with
  | none => return (-EFAULT, user)
  | some session =>
    spin_lock (.scsitap_queue_lock session)
    let ret ← perform fun d => (driver.scsitap_ctl_read d file user count, d)
    spin_unlock (.scsitap_queue_lock session)
    return ret

def scsitap_ctl_write (file : Nat) (user : UserMem) (count : Nat) : Locking Lock Driver Int := do
  let d ← current
  match (d.files file).private_data with
  | none => return -EFAULT
  | some session =>
    spin_lock (.scsitap_queue_lock session)
    let ret ← inSession session (.write user count) fun k => (device.scsitap_ctl_write k user count).1
    spin_unlock (.scsitap_queue_lock session)
    return ret

def scsitap_destroy_session (session : Nat) : Locking Lock Driver Int := do
  let d ← current
  if (d.hbas session).session.Device_Open ≠ 0 then return 1
  else
    spin_lock (.scsitap_queue_lock session)
    perform fun d => ((), d.failTasks session)
    spin_unlock (.scsitap_queue_lock session)
    perform fun d => (0, d.unlist session)

def scsitap_ctl_ioctl (file : Nat) (host : Option HostMemory) : Ioctl → Locking Lock Driver Int
  | .register_client pid => do
    spin_lock .session_lock
    let d ← current
    match driver.scsitap_get_session d (d.files file).minor with
    | some session =>
      perform fun d => ((), d.attach file session pid)
      spin_unlock .session_lock
      return SUCCESS
    | none =>
      match driver.scsitap_create_session d (d.files file).minor host with
      | none =>
        spin_unlock .session_lock
        return -1
      | some (session, created) =>
        perform fun _ => ((), created.attach file session pid)
        spin_unlock .session_lock
        return SUCCESS
  | .receive_task arg => do
    let d ← current
    match (d.files file).private_data with
    | none => return -1
    | some session =>
      spin_lock (.scsitap_queue_lock session)
      if (d.hbas session).session.flags ≠ .ready then
        -- no release on this way out; the session has it on record
        perform fun d => (-1, d.recordClaim session file arg)
      else
        match task_of_cmd (d.hbas session) (UInt32.ofNat arg) with
        | some _ =>
          perform fun d => ((), d.recordClaim session file arg)
          spin_unlock (.scsitap_queue_lock session)
          return SUCCESS
        | none =>
          spin_unlock (.scsitap_queue_lock session)
          return 0
  | .set_task arg => perform fun d => (SUCCESS, d.setFile file { d.files file with f_pos := arg })
  | .unregister_client => do
    spin_lock .session_lock
    let d ← current
    match driver.scsitap_get_session d (d.files file).minor with
    | none =>
      spin_unlock .session_lock
      return -1
    | some session =>
      let failed ← scsitap_destroy_session session
      if failed ≠ 0 then
        spin_unlock .session_lock
        return -1
      else
        spin_unlock .session_lock
        return SUCCESS
  | .unknown => return -1

def scsitap_ctl_release (file : Nat) : Locking Lock Driver Int := do
  let d ← current
  match (d.files file).private_data with
  | none => perform fun d => (0, d.closeFile file)
  | some session =>
    spin_lock .session_lock
    perform fun d => ((), (d.callSession session .release).closeFile file)
    spin_unlock .session_lock
    return 0

/-- The mid layer's lock is given back while the queue is changed. -/
def scsitap_queuecommand (session : Nat) (sc : Addr) (slot : Option Addr) : Locking Lock Driver Int := do
  spin_unlock (.host_lock session)
  spin_lock (.scsitap_queue_lock session)
  let d ← current
  if (d.hbas session).session.flags ≠ .ready then
    spin_unlock (.scsitap_queue_lock session)
    spin_lock (.host_lock session)
    inSession session (.queuecommand sc slot) fun k => (hba.scsitap_queuecommand k sc slot).1
  else
    let ret ← inSession session (.queuecommand sc slot) fun k => (hba.scsitap_queuecommand k sc slot).1
    match slot with
    | none =>
      spin_unlock (.scsitap_queue_lock session)
      spin_lock (.host_lock session)
      return ret
    | some _ =>
      spin_unlock (.scsitap_queue_lock session)
      spin_lock (.host_lock session)
      return ret

def scsitap_eh_abort (session : Nat) (sc : Addr) : Locking Lock Driver Int := do
  spin_unlock (.host_lock session)
  spin_lock (.scsitap_queue_lock session)
  let ret ← inSession session (.eh_abort sc) fun k => (hba.scsitap_eh_abort k sc).1
  spin_unlock (.scsitap_queue_lock session)
  spin_lock (.host_lock session)
  return ret

def scsitap_eh_host_reset (session : Nat) : Locking Lock Driver Int := do
  spin_lock (.scsitap_queue_lock session)
  let ret ← inSession session .eh_host_reset fun k => (hba.scsitap_eh_host_reset k).1
  spin_unlock (.scsitap_queue_lock session)
  return ret

end locks

/-- The calls that use locks. -/
inductive LockedCall where
  | ctl_read (file : Nat) (user : UserMem) (count : Nat)
  | ctl_write (file : Nat) (user : UserMem) (count : Nat)
  | ctl_ioctl (file : Nat) (host : Option HostMemory) (request : Ioctl)
  | ctl_release (file : Nat)
  | queuecommand (session : Nat) (sc : Addr) (slot : Option Addr)
  | eh_abort (session : Nat) (sc : Addr)
  | eh_host_reset (session : Nat)
  | destroy_session (session : Nat)

namespace LockedCall

def run : LockedCall → Locking Lock Driver Int
  | ctl_read file user count => Prod.fst <$> locks.scsitap_ctl_read file user count
  | ctl_write file user count => locks.scsitap_ctl_write file user count
  | ctl_ioctl file host request => locks.scsitap_ctl_ioctl file host request
  | ctl_release file => locks.scsitap_ctl_release file
  | queuecommand session sc slot => locks.scsitap_queuecommand session sc slot
  | eh_abort session sc => locks.scsitap_eh_abort session sc
  | eh_host_reset session => locks.scsitap_eh_host_reset session
  | destroy_session session => locks.scsitap_destroy_session session

/-- What the call does without regard to locks. -/
def body (d : Driver) : LockedCall → Int × Driver
  | ctl_read file user count => ((driver.scsitap_ctl_read d file user count).1, d)
  | ctl_write file user count => driver.scsitap_ctl_write d file user count
  | ctl_ioctl file host request => driver.scsitap_ctl_ioctl d file host request
  | ctl_release file => driver.scsitap_ctl_release d file
  | queuecommand session sc slot =>
    ((scsitap_queuecommand (d.hbas session) sc slot).1, d.callSession session (.queuecommand sc slot))
  | eh_abort session sc => ((scsitap_eh_abort (d.hbas session) sc).1, d.callSession session (.eh_abort sc))
  | eh_host_reset session => ((scsitap_eh_host_reset (d.hbas session)).1, d.callSession session .eh_host_reset)
  | destroy_session session => driver.scsitap_destroy_session d session

/-- The mid layer's lock that the caller of a call holds. -/
def host? : LockedCall → Option Nat
  | queuecommand session _ _ => some session
  | eh_abort session _ => some session
  | _ => none

/-- The locks that may be held when the call is made: none of the driver's, but
`session_lock` around the destruction of a session. -/
structure Starts (c : LockedCall) (held : Lock → Bool) : Prop where
  queue : ∀ session, held (.scsitap_queue_lock session) = false
  sessions : held .session_lock = true ↔ ∃ session, c = .destroy_session session
  host : ∀ session, c.host? = some session → held (.host_lock session) = true

/-- The call takes no lock that is held, releases none that is not, and returns
with the locks it was made with. -/
def Balanced (c : LockedCall) (held : Lock → Bool) (d : Driver) : Prop :=
  ∃ ret d', c.run { held, state := d } = .ok (ret, { held, state := d' })

/-- The call asks for a task of a session that is not ready. -/
def Unready (c : LockedCall) (d : Driver) : Prop :=
  ∃ file host arg session, c = .ctl_ioctl file host (.receive_task arg) ∧ (d.files file).private_data = some session ∧
    (d.hbas session).session.flags ≠ .ready

end LockedCall

section Calls

variable {held : Lock → Bool} {d : Driver} {file session : Nat}

/-- The mid layer's lock around the queue lock. -/
theorem host_section {α : Type} (hqueue : held (.scsitap_queue_lock session) = false)
    (hhost : held (.host_lock session) = true) (f : Driver → α × Driver) (next : α → Locking Lock Driver Int) :
    (do
      spin_unlock (.host_lock session)
      spin_lock (.scsitap_queue_lock session)
      let a ← perform f
      spin_unlock (.scsitap_queue_lock session)
      spin_lock (.host_lock session)
      next a : Locking Lock Driver Int) { held, state := d } = next (f d).1 { held, state := (f d).2 } := by
  have hfree : Function.update held (.host_lock session) false (.scsitap_queue_lock session) = false := by
    have hne : Lock.scsitap_queue_lock session ≠ .host_lock session := nofun
    rw [Function.update_of_ne hne, hqueue]
  rw [spin_unlock_bind hhost, section_bind hfree, spin_lock_bind (Function.update_self ..), update_unlock_lock hhost]

section Queue

variable (hqueue : ∀ session, held (.scsitap_queue_lock session) = false)

include hqueue

theorem ctl_read_run (user : UserMem) (count : Nat) :
    locks.scsitap_ctl_read file user count { held, state := d } =
      .ok (driver.scsitap_ctl_read d file user count, { held, state := d }) := by
  simp only [locks.scsitap_ctl_read, locks.current, perform_bind]
  cases hfile : (d.files file).private_data with
  | none => simp only [driver.scsitap_ctl_read, hfile, pure_run]
  | some session => exact section_bind (hqueue session) _ _ _

theorem ctl_write_run (user : UserMem) (count : Nat) :
    locks.scsitap_ctl_write file user count { held, state := d } =
      .ok ((driver.scsitap_ctl_write d file user count).1,
        { held, state := (driver.scsitap_ctl_write d file user count).2 }) := by
  simp only [locks.scsitap_ctl_write, locks.current, locks.inSession, perform_bind]
  cases hfile : (d.files file).private_data with
  | none => simp only [driver.scsitap_ctl_write, hfile, pure_run]
  | some session =>
    simp only [driver.scsitap_ctl_write, hfile]
    exact section_bind (hqueue session) _ _ _

theorem destroy_session_run :
    locks.scsitap_destroy_session session { held, state := d } =
      .ok ((driver.scsitap_destroy_session d session).1,
        { held, state := (driver.scsitap_destroy_session d session).2 }) := by
  simp only [locks.scsitap_destroy_session, locks.current, perform_bind, driver.scsitap_destroy_session]
  by_cases hopen : (d.hbas session).session.Device_Open ≠ 0
  · simp only [if_pos hopen, pure_run]
  · simp only [if_neg hopen]
    rw [section_bind (hqueue session), perform_run, Driver.unlist_failTasks (not_not.mp hopen)]

theorem eh_host_reset_run :
    locks.scsitap_eh_host_reset session { held, state := d } =
      .ok ((scsitap_eh_host_reset (d.hbas session)).1, { held, state := d.callSession session .eh_host_reset }) :=
  section_bind (hqueue session) _ _ _

theorem eh_abort_run (hhost : held (.host_lock session) = true) (sc : Addr) :
    locks.scsitap_eh_abort session sc { held, state := d } =
      .ok ((scsitap_eh_abort (d.hbas session) sc).1, { held, state := d.callSession session (.eh_abort sc) }) :=
  host_section (hqueue session) hhost _ _

theorem queuecommand_run (hhost : held (.host_lock session) = true) (sc : Addr) (slot : Option Addr) :
    locks.scsitap_queuecommand session sc slot { held, state := d } =
      .ok ((scsitap_queuecommand (d.hbas session) sc slot).1,
        { held, state := d.callSession session (.queuecommand sc slot) }) := by
  have hfree : Function.update held (.host_lock session) false (.scsitap_queue_lock session) = false := by
    have hne : Lock.scsitap_queue_lock session ≠ .host_lock session := nofun
    rw [Function.update_of_ne hne, hqueue]
  simp only [locks.scsitap_queuecommand, locks.current, locks.inSession]
  rw [spin_unlock_bind hhost, spin_lock_bind hfree, perform_bind]
  by_cases hready : (d.hbas session).session.flags ≠ .ready
  · rw [if_pos hready, spin_unlock_bind (Function.update_self ..), update_lock_unlock hfree,
      spin_lock_bind (Function.update_self ..), update_unlock_lock hhost, perform_run]
  · rw [if_neg hready, perform_bind]
    cases slot with
    | none =>
      simp only
      rw [spin_unlock_bind (Function.update_self ..), update_lock_unlock hfree,
        spin_lock_bind (Function.update_self ..), update_unlock_lock hhost, pure_run]
    | some task =>
      simp only
      rw [spin_unlock_bind (Function.update_self ..), update_lock_unlock hfree,
        spin_lock_bind (Function.update_self ..), update_unlock_lock hhost, pure_run]

section Sessions

variable (hsessions : held .session_lock = false)

include hsessions

omit hqueue in
theorem ctl_release_run : locks.scsitap_ctl_release file { held, state := d } =
    .ok ((driver.scsitap_ctl_release d file).1, { held, state := (driver.scsitap_ctl_release d file).2 }) := by
  simp only [locks.scsitap_ctl_release, locks.current, perform_bind]
  cases hfile : (d.files file).private_data with
  | none => simp only [driver.scsitap_ctl_release, hfile, perform_run]
  | some session =>
    simp only [driver.scsitap_ctl_release, hfile]
    rw [section_bind hsessions, pure_run]

omit hqueue in
theorem register_client_run (host : Option HostMemory) (pid : UInt32) :
    locks.scsitap_ctl_ioctl file host (.register_client pid) { held, state := d } =
      .ok ((driver.scsitap_ctl_ioctl d file host (.register_client pid)).1,
        { held, state := (driver.scsitap_ctl_ioctl d file host (.register_client pid)).2 }) := by
  simp only [locks.scsitap_ctl_ioctl, locks.current, driver.scsitap_ctl_ioctl]
  rw [spin_lock_bind hsessions, perform_bind]
  cases hfound : driver.scsitap_get_session d (d.files file).minor with
  | some session =>
    simp only
    rw [perform_bind, spin_unlock_bind (Function.update_self ..), update_lock_unlock hsessions, pure_run]
  | none =>
    cases hcreated : driver.scsitap_create_session d (d.files file).minor host with
    | none =>
      simp only
      rw [spin_unlock_bind (Function.update_self ..), update_lock_unlock hsessions, pure_run]
    | some created =>
      simp only
      rw [perform_bind, spin_unlock_bind (Function.update_self ..), update_lock_unlock hsessions, pure_run]

theorem unregister_client_run (host : Option HostMemory) :
    locks.scsitap_ctl_ioctl file host .unregister_client { held, state := d } =
      .ok ((driver.scsitap_ctl_ioctl d file host .unregister_client).1,
        { held, state := (driver.scsitap_ctl_ioctl d file host .unregister_client).2 }) := by
  simp only [locks.scsitap_ctl_ioctl, locks.current, driver.scsitap_ctl_ioctl]
  rw [spin_lock_bind hsessions, perform_bind]
  cases hfound : driver.scsitap_get_session d (d.files file).minor with
  | none =>
    simp only
    rw [spin_unlock_bind (Function.update_self ..), update_lock_unlock hsessions, pure_run]
  | some session =>
    have hfree (session : Nat) : Function.update held .session_lock true (.scsitap_queue_lock session) = false := by
      have hne : Lock.scsitap_queue_lock session ≠ .session_lock := by simp
      rw [Function.update_of_ne hne, hqueue]
    simp only
    rw [bind_run (destroy_session_run hfree), driver.scsitap_destroy_session]
    by_cases hopen : (d.hbas session).session.Device_Open ≠ 0
    · simp only [if_pos hopen, ne_eq, Int.one_ne_zero, not_false_eq_true, if_true]
      rw [spin_unlock_bind (Function.update_self ..), update_lock_unlock hsessions, pure_run]
    · simp only [if_neg hopen, ne_eq, not_true_eq_false, if_false]
      rw [spin_unlock_bind (Function.update_self ..), update_lock_unlock hsessions, pure_run]

end Sessions

/-- The task of a session that is ready is received and the lock given back. -/
theorem receive_task_run (host : Option HostMemory) (arg : Nat)
    (hready : ∀ session, (d.files file).private_data = some session → (d.hbas session).session.flags = .ready) :
    locks.scsitap_ctl_ioctl file host (.receive_task arg) { held, state := d } =
      .ok ((driver.scsitap_ctl_ioctl d file host (.receive_task arg)).1,
        { held, state := (driver.scsitap_ctl_ioctl d file host (.receive_task arg)).2 }) := by
  simp only [locks.scsitap_ctl_ioctl, locks.current, driver.scsitap_ctl_ioctl]
  rw [perform_bind]
  cases hfile : (d.files file).private_data with
  | none => simp only [pure_run]
  | some session =>
    have hflags := hready session hfile
    simp only
    rw [spin_lock_bind (hqueue session), if_neg (not_not_intro hflags)]
    cases htask : task_of_cmd (d.hbas session) (UInt32.ofNat arg) with
    | some task =>
      simp only
      rw [perform_bind, spin_unlock_bind (Function.update_self ..), update_lock_unlock (hqueue session), pure_run]
      simp [scsitap_ioctl_receive_task, hflags, htask]
    | none =>
      simp only
      rw [spin_unlock_bind (Function.update_self ..), update_lock_unlock (hqueue session), pure_run]
      simp [scsitap_ioctl_receive_task, hflags, htask, Driver.recordClaim, Driver.claimOf, Driver.callSession, Hba.apply]

/-- That of another is not, and the lock is kept. -/
theorem receive_task_keeps (host : Option HostMemory) (arg : Nat) {session : Nat}
    (hfile : (d.files file).private_data = some session) (hunready : (d.hbas session).session.flags ≠ .ready) :
    locks.scsitap_ctl_ioctl file host (.receive_task arg) { held, state := d } =
      .ok ((driver.scsitap_ctl_ioctl d file host (.receive_task arg)).1,
        { held := Function.update held (.scsitap_queue_lock session) true
          state := (driver.scsitap_ctl_ioctl d file host (.receive_task arg)).2 }) := by
  simp only [locks.scsitap_ctl_ioctl, locks.current, driver.scsitap_ctl_ioctl]
  rw [perform_bind]
  simp only [hfile]
  rw [spin_lock_bind (hqueue session), if_pos hunready, perform_run]
  simp [scsitap_ioctl_receive_task, hunready]

end Queue

end Calls

namespace LockedCall

variable {c : LockedCall} {held : Lock → Bool} {d : Driver}

theorem Starts.session_lock (h : c.Starts held) (hc : ∀ session, c ≠ .destroy_session session) :
    held .session_lock = false := by
  rw [← Bool.not_eq_true, h.sessions]
  rintro ⟨session, rfl⟩
  exact hc session rfl

/-- But for the tasks of a session that is not ready, a call does what it does
without locks and gives back those it takes. -/
theorem run_balanced (h : c.Starts held) (hready : ¬ c.Unready d) :
    c.run { held, state := d } = .ok ((c.body d).1, { held, state := (c.body d).2 }) := by
  cases c with
  | ctl_read file user count =>
    simp only [run, map_eq_pure_bind]
    rw [bind_run (ctl_read_run h.queue user count), pure_run, body]
  | ctl_write file user count => exact ctl_write_run h.queue user count
  | ctl_ioctl file host request =>
    have hsessions := h.session_lock (nofun)
    cases request with
    | register_client pid => exact register_client_run hsessions host pid
    | receive_task arg =>
      refine receive_task_run h.queue host arg fun session hfile => ?_
      by_contra hflags
      exact hready ⟨file, host, arg, session, rfl, hfile, hflags⟩
    | set_task arg => rfl
    | unregister_client => exact unregister_client_run h.queue hsessions host
    | unknown => rfl
  | ctl_release file => exact ctl_release_run (h.session_lock (nofun))
  | queuecommand session sc slot => exact queuecommand_run h.queue (h.host session rfl) sc slot
  | eh_abort session sc => exact eh_abort_run h.queue (h.host session rfl) sc
  | eh_host_reset session => exact eh_host_reset_run h.queue
  | destroy_session session => exact destroy_session_run h.queue

/-- A request for a task of a session that is not ready keeps the queue lock. -/
theorem not_balanced (h : c.Starts held) (hunready : c.Unready d) : ¬ c.Balanced held d := by
  rintro ⟨ret, d', hrun⟩
  obtain ⟨file, host, arg, session, rfl, hfile, hflags⟩ := hunready
  have hkeeps := receive_task_keeps h.queue host arg hfile hflags
  obtain ⟨-, hholding⟩ := Prod.mk.inj (Except.ok.inj (hkeeps.symm.trans hrun))
  have hlock := congrFun (congrArg Holding.held hholding) (.scsitap_queue_lock session)
  simp [h.queue] at hlock

/-- A call gives back the locks it takes exactly when it does not ask for a task
of a session that is not ready. -/
theorem balanced_iff (h : c.Starts held) : c.Balanced held d ↔ ¬ c.Unready d := by
  constructor
  · exact fun hbalanced hunready => not_balanced h hunready hbalanced
  · exact fun hready => ⟨_, _, run_balanced h hready⟩

/-- The locks of a caller that holds at most the mid layer's lock of a host. -/
def midlayerLocks (host : Option Nat) : Lock → Bool
  | .host_lock session => host = some session
  | _ => false

theorem queuecommand_balanced :
    (queuecommand 0 0 (some 8)).Balanced (midlayerLocks (some 0)) .loaded := by
  have hstarts : (queuecommand 0 0 (some 8)).Starts (midlayerLocks (some 0)) := by
    refine ⟨fun _ => rfl, ⟨nofun, ?_⟩, fun session hhost => decide_eq_true hhost⟩
    rintro ⟨session, hc⟩
    cases hc
  refine (balanced_iff hstarts).mpr ?_
  · rintro ⟨file, host, arg, session, hc, -⟩
    cases hc

end LockedCall

namespace Driver

variable {d : Driver} {n : Nat}

/-- The driver after two files have been opened, of which the first has registered
once and the second `n` times. -/
def sharedTimes : Nat → Driver
  | 0 => ((loaded.addFile 0).addFile 0).afterRegister 0
  | n + 1 => (sharedTimes n).afterRegister 1

/-- Two files are open, and registered with a single session that has counted
`n + 1` registrations. -/
structure Shared (d : Driver) (n : Nat) : Prop where
  opened : d.opened = [0, 1]
  first : d.files 0 = { minor := 0, private_data := some 0, f_pos := 0 }
  second : (d.files 1).minor = 0
  session_queue : d.session_queue = [0]
  dev_id : (d.hbas 0).session.dev_id = 0
  Device_Open : (d.hbas 0).session.Device_Open = UInt8.ofNat (n + 1)

theorem Shared.register (h : d.Shared n) : (d.afterRegister 1).Shared (n + 1) ∧
    ((d.afterRegister 1).files 1).private_data = some 0 := by
  have hfound : driver.scsitap_get_session d (d.files 1).minor = some 0 := by
    simp [driver.scsitap_get_session, h.session_queue, h.second, h.dev_id]
  rw [afterRegister_found hfound]
  refine ⟨⟨h.opened, ?_, ?_, h.session_queue, h.dev_id, ?_⟩, ?_⟩
  · simp [h.first]
  · simp [h.second]
  · simp [Hba.apply, scsitap_ioctl_register_client, h.Device_Open]
  · simp

theorem sharedTimes_shared (n : Nat) : (sharedTimes n).Shared n := by
  induction n with
  | zero => constructor <;> rfl
  | succ n ih => exact ih.register.1

theorem sharedTimes_second (n : Nat) : ((sharedTimes (n + 1)).files 1).private_data = some 0 :=
  (sharedTimes_shared n).register.2

theorem sharedTimes_run (n : Nat) : ∃ trace, Run Step loaded trace (sharedTimes n) := by
  induction n with
  | zero => exact ⟨_, ((Run.nil.snoc (open_step _ 0)).snoc (open_step _ 0)).snoc (register_step 0 (by decide))⟩
  | succ n ih =>
    obtain ⟨trace, hrun⟩ := ih
    exact ⟨_, hrun.snoc (register_step 1 (by simp [(sharedTimes_shared n).opened]))⟩

/-- The second file has registered one more time than `n` and is closed. -/
def halfClosed (n : Nat) : Driver := ((sharedTimes (n + 1)).callSession 0 .release).closeFile 1

theorem halfClosed_run (n : Nat) : ∃ trace, Run Step loaded trace (halfClosed n) := by
  obtain ⟨trace, hrun⟩ := sharedTimes_run (n + 1)
  have hshared := sharedTimes_shared (n + 1)
  have hfile : 1 ∈ (sharedTimes (n + 1)).opened := by simp [hshared.opened]
  have hmem : 0 ∈ (sharedTimes (n + 1)).session_queue := by simp [hshared.session_queue]
  exact ⟨_, hrun.snoc (release_step hfile (sharedTimes_second n) hmem)⟩

/-- After 256 registrations the session counts as closed while the first file is open. -/
theorem halfClosed_unready : ((halfClosed 255).files 0).private_data = some 0 ∧
    ((halfClosed 255).hbas 0).session.flags ≠ .ready := by
  have hshared := sharedTimes_shared (255 + 1)
  refine ⟨by simp [halfClosed, hshared.first], ?_⟩
  simp [halfClosed, Hba.apply, device.scsitap_ctl_release, hshared.Device_Open]

end Driver

namespace LockedCall

/-- The request for a task by the first file keeps the queue lock. -/
theorem receive_task_unbalanced : ¬ ∀ start d trace (c : LockedCall) (held : Lock → Bool), Driver.Initial start →
    Run Driver.Step start trace d → c.Starts held → c.Balanced held d := by
  intro hall
  obtain ⟨trace, hrun⟩ := Driver.halfClosed_run 255
  obtain ⟨hfile, hflags⟩ := Driver.halfClosed_unready
  have hstarts : (ctl_ioctl 0 none (.receive_task 1)).Starts (midlayerLocks none) := by
    refine ⟨fun _ => rfl, ⟨nofun, ?_⟩, nofun⟩
    rintro ⟨session, hc⟩
    cases hc
  exact not_balanced hstarts ⟨0, none, 1, 0, rfl, hfile, hflags⟩ (hall _ _ _ _ _ Driver.loaded_initial hrun hstarts)

end LockedCall

end vscsi
