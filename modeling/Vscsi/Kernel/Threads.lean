import Vscsi.Lib.Threads
import Vscsi.Kernel.Locks
import Vscsi.Kernel.Sessions

open lib lib.Thread

namespace vscsi

open hba device

/-- The session with other flags. -/
def Hba.withFlags (k : Hba) (flags : Connection) : Hba := { k with session := { k.session with flags } }

namespace Driver

def withFlags (d : Driver) (session : Nat) (flags : Connection) : Driver :=
  { d with hbas := Function.update d.hbas session ((d.hbas session).withFlags flags) }

/-- What a call does that has read the flags of its session before, while another
may have set them since. -/
def seeing (d : Driver) (session : Nat) (flags : Connection) (f : Driver → Driver) : Driver :=
  (f (d.withFlags session flags)).withFlags session (d.hbas session).session.flags

end Driver

namespace threads

/-- The driver as it is. The calls in this namespace are those of the driver when
others run at the same time: what they do at once are the single accesses. -/
def current : Thread Lock Driver Driver := perform fun d => (d, d)

def readFlags (session : Nat) : Thread Lock Driver Connection := perform fun d => ((d.hbas session).session.flags, d)

/-- A call into a session whose flags have been read. -/
def inSession (session : Nat) (flags : Connection) (op : Op) (ret : Hba → Int) : Thread Lock Driver Int :=
  perform fun d => (ret ((d.hbas session).withFlags flags), d.seeing session flags fun d => d.callSession session op)

def scsitap_ctl_read (file : Nat) (user : UserMem) (count : Nat) : Thread Lock Driver (Int × UserMem) := do
  let d ← current
  match (d.files file).private_data with
  | none => return (-EFAULT, user)
  | some session =>
    spin_lock (.scsitap_queue_lock session)
    let flags ← readFlags session
    let ret ← perform fun d =>
      (device.scsitap_ctl_read ((d.hbas session).withFlags flags) (d.files file).f_pos user count, d)
    spin_unlock (.scsitap_queue_lock session)
    return ret

def scsitap_ctl_write (file : Nat) (user : UserMem) (count : Nat) : Thread Lock Driver Int := do
  let d ← current
  match (d.files file).private_data with
  | none => return -EFAULT
  | some session =>
    spin_lock (.scsitap_queue_lock session)
    let flags ← readFlags session
    let ret ← inSession session flags (.write user count) fun k => (device.scsitap_ctl_write k user count).1
    spin_unlock (.scsitap_queue_lock session)
    return ret

def scsitap_destroy_session (session : Nat) : Thread Lock Driver Int := do
  let d ← current
  if (d.hbas session).session.Device_Open ≠ 0 then return 1
  else
    spin_lock (.scsitap_queue_lock session)
    perform fun d => ((), d.failTasks session)
    spin_unlock (.scsitap_queue_lock session)
    perform fun d => (0, d.unlist session)

/-- The session of a file's minor number, created if there is none. -/
def sessionOf (file : Nat) (host : Option HostMemory) : Thread Lock Driver (Option Nat) := do
  let d ← current
  match driver.scsitap_get_session d (d.files file).minor with
  | some session => return some session
  | none => perform fun d =>
    match driver.scsitap_create_session d (d.files file).minor host with
    | none => (none, d)
    | some (session, created) => (some session, created)

def scsitap_ctl_ioctl (file : Nat) (host : Option HostMemory) : Ioctl → Thread Lock Driver Int
  | .register_client pid => do
    spin_lock .session_lock
    match (← sessionOf file host) with
    | none =>
      spin_unlock .session_lock
      return -1
    | some session =>
      perform fun d => ((), d.attach file session pid)
      spin_unlock .session_lock
      return SUCCESS
  | .receive_task arg => do
    let d ← current
    match (d.files file).private_data with
    | none => return -1
    | some session =>
      spin_lock (.scsitap_queue_lock session)
      let flags ← readFlags session
      let claim := fun d : Driver => d.seeing session flags fun d => d.recordClaim session file arg
      if flags ≠ .ready then
        -- no release on this way out; the session has it on record
        perform fun d => (-1, claim d)
      else
        let task ← perform fun d => (task_of_cmd (d.hbas session) (UInt32.ofNat arg), claim d)
        spin_unlock (.scsitap_queue_lock session)
        return if task.isSome then SUCCESS else 0
  | .set_task arg => perform fun d => (SUCCESS, d.setFile file { d.files file with f_pos := arg })
  | .unregister_client => do
    spin_lock .session_lock
    let d ← current
    match driver.scsitap_get_session d (d.files file).minor with
    | none =>
      spin_unlock .session_lock
      return -1
    | some session =>
      let failed ← scsitap_destroy_session session
      spin_unlock .session_lock
      return if failed ≠ 0 then -1 else SUCCESS
  | .unknown => return -1

def scsitap_ctl_release (file : Nat) : Thread Lock Driver Int := do
  let d ← current
  match (d.files file).private_data with
  | none => perform fun d => (0, d.closeFile file)
  | some session =>
    spin_lock .session_lock
    perform fun d => ((), (d.callSession session .release).closeFile file)
    spin_unlock .session_lock
    return 0

def scsitap_queuecommand (session : Nat) (sc : Addr) (slot : Option Addr) : Thread Lock Driver Int := do
  spin_unlock (.host_lock session)
  spin_lock (.scsitap_queue_lock session)
  let flags ← readFlags session
  let queue := inSession session flags (.queuecommand sc slot) fun k => (hba.scsitap_queuecommand k sc slot).1
  if flags ≠ .ready then
    spin_unlock (.scsitap_queue_lock session)
    spin_lock (.host_lock session)
    queue
  else
    let ret ← queue
    spin_unlock (.scsitap_queue_lock session)
    spin_lock (.host_lock session)
    return ret

def scsitap_eh_abort (session : Nat) (sc : Addr) : Thread Lock Driver Int := do
  spin_unlock (.host_lock session)
  spin_lock (.scsitap_queue_lock session)
  let ret ← perform fun d => ((hba.scsitap_eh_abort (d.hbas session) sc).1, d.callSession session (.eh_abort sc))
  spin_unlock (.scsitap_queue_lock session)
  spin_lock (.host_lock session)
  return ret

def scsitap_eh_host_reset (session : Nat) : Thread Lock Driver Int := do
  spin_lock (.scsitap_queue_lock session)
  let ret ← perform fun d => ((hba.scsitap_eh_host_reset (d.hbas session)).1, d.callSession session .eh_host_reset)
  spin_unlock (.scsitap_queue_lock session)
  return ret

end threads

namespace LockedCall

/-- The call itself. -/
def program : LockedCall → Thread Lock Driver Int
  | ctl_read file user count => do return (← threads.scsitap_ctl_read file user count).1
  | ctl_write file user count => threads.scsitap_ctl_write file user count
  | ctl_ioctl file host request => threads.scsitap_ctl_ioctl file host request
  | ctl_release file => threads.scsitap_ctl_release file
  | queuecommand session sc slot => threads.scsitap_queuecommand session sc slot
  | eh_abort session sc => threads.scsitap_eh_abort session sc
  | eh_host_reset session => threads.scsitap_eh_host_reset session
  | destroy_session session => threads.scsitap_destroy_session session

end LockedCall

theorem Hba.withFlags_self (k : Hba) : k.withFlags k.session.flags = k := rfl

namespace Driver

variable {d : Driver} {session : Nat}

theorem withFlags_self (d : Driver) (session : Nat) : d.withFlags session (d.hbas session).session.flags = d := by
  rw [withFlags, Hba.withFlags_self, Function.update_eq_self]

/-- A call that nobody comes between. -/
theorem seeing_self {f : Driver → Driver} (h : ((f d).hbas session).session.flags = (d.hbas session).session.flags) :
    d.seeing session (d.hbas session).session.flags f = f d := by
  rw [seeing, withFlags_self, ← h, withFlags_self]

end Driver

theorem callSession_flags (d : Driver) {session : Nat} {op : Op}
    (hop : op.MidLayer ∨ (∃ user count, op = .write user count) ∨ ∃ arg, op = .receive_task arg) :
    ((d.callSession session op).hbas session).session.flags = (d.hbas session).session.flags := by
  rw [Driver.callSession_hbas, Function.update_self]
  exact (Hba.SameControl.apply (d.hbas session) hop).flags

section Alone

variable (file session : Nat)

theorem inSession_alone {op : Op} (ret : Hba → Int) (held : Lock → Bool) (d : Driver)
    (hop : op.MidLayer ∨ (∃ user count, op = .write user count) ∨ ∃ arg, op = .receive_task arg) :
    (threads.inSession session (d.hbas session).session.flags op ret).alone { held, state := d } =
      locks.inSession session op ret { held, state := d } := by
  have hseeing := Driver.seeing_self (f := fun d => d.callSession session op) (callSession_flags d hop)
  simp only [threads.inSession, locks.inSession, alone_perform, Locking.perform_run, Hba.withFlags_self, hseeing]

theorem inSession_alone_bind {op : Op} {ret : Hba → Int} {held : Lock → Bool} {d : Driver}
    (hop : op.MidLayer ∨ (∃ user count, op = .write user count) ∨ ∃ arg, op = .receive_task arg)
    (next : Int → Locking Lock Driver Int) :
    ((threads.inSession session (d.hbas session).session.flags op ret).alone >>= next) { held, state := d } =
      (locks.inSession session op ret >>= next) { held, state := d } :=
  Locking.bind_run (inSession_alone session ret held d hop) next

theorem ctl_read_alone (user : UserMem) (count : Nat) :
    (threads.scsitap_ctl_read file user count).alone = locks.scsitap_ctl_read file user count := by
  funext ⟨held, d⟩
  simp only [threads.scsitap_ctl_read, locks.scsitap_ctl_read, threads.current, locks.current, alone_bind, alone_perform,
    Locking.perform_bind]
  cases hfile : (d.files file).private_data with
  | none => rfl
  | some session =>
    simp only [alone_bind, alone_spin_lock, alone_spin_unlock, threads.readFlags, alone_perform]
    refine Locking.spin_lock_congr ?_
    simp only [Locking.perform_bind, driver.scsitap_ctl_read, hfile]
    rfl

theorem ctl_write_alone (user : UserMem) (count : Nat) :
    (threads.scsitap_ctl_write file user count).alone = locks.scsitap_ctl_write file user count := by
  funext ⟨held, d⟩
  simp only [threads.scsitap_ctl_write, locks.scsitap_ctl_write, threads.current, locks.current, alone_bind, alone_perform,
    Locking.perform_bind]
  cases (d.files file).private_data with
  | none => rfl
  | some session =>
    simp only [alone_bind, alone_spin_lock, alone_spin_unlock, threads.readFlags, alone_perform]
    refine Locking.spin_lock_congr ?_
    simp only [Locking.perform_bind]
    exact inSession_alone_bind session (.inr (.inl ⟨user, count, rfl⟩)) _

theorem destroy_session_alone :
    (threads.scsitap_destroy_session session).alone = locks.scsitap_destroy_session session := by
  funext ⟨held, d⟩
  simp only [threads.scsitap_destroy_session, locks.scsitap_destroy_session, threads.current, locks.current, alone_bind,
    alone_perform, Locking.perform_bind]
  split
  · rfl
  · simp only [alone_bind, alone_spin_lock, alone_spin_unlock, alone_perform]

theorem ctl_release_alone : (threads.scsitap_ctl_release file).alone = locks.scsitap_ctl_release file := by
  funext ⟨held, d⟩
  simp only [threads.scsitap_ctl_release, locks.scsitap_ctl_release, threads.current, locks.current, alone_bind,
    alone_perform, Locking.perform_bind]
  cases (d.files file).private_data <;> rfl

theorem eh_abort_alone (sc : Addr) : (threads.scsitap_eh_abort session sc).alone = locks.scsitap_eh_abort session sc := rfl

theorem eh_host_reset_alone : (threads.scsitap_eh_host_reset session).alone = locks.scsitap_eh_host_reset session := rfl

theorem queuecommand_alone (sc : Addr) (slot : Option Addr) :
    (threads.scsitap_queuecommand session sc slot).alone = locks.scsitap_queuecommand session sc slot := by
  funext ⟨held, d⟩
  have hop : (Op.queuecommand sc slot).MidLayer ∨ (∃ user count, Op.queuecommand sc slot = .write user count) ∨
    ∃ arg, Op.queuecommand sc slot = .receive_task arg := .inl trivial
  simp only [threads.scsitap_queuecommand, locks.scsitap_queuecommand, alone_bind, alone_spin_lock, alone_spin_unlock]
  refine Locking.spin_unlock_congr (Locking.spin_lock_congr ?_)
  simp only [threads.readFlags, locks.current, alone_perform, Locking.perform_bind]
  split
  · simp only [alone_bind, alone_spin_lock, alone_spin_unlock]
    exact Locking.spin_unlock_congr (Locking.spin_lock_congr (inSession_alone session _ _ d hop))
  · simp only [alone_bind, alone_spin_lock, alone_spin_unlock]
    refine (inSession_alone_bind session hop _).trans ?_
    cases slot <;> rfl

theorem register_client_alone (host : Option HostMemory) (pid : UInt32) :
    (threads.scsitap_ctl_ioctl file host (.register_client pid)).alone =
      locks.scsitap_ctl_ioctl file host (.register_client pid) := by
  funext ⟨held, d⟩
  simp only [threads.scsitap_ctl_ioctl, locks.scsitap_ctl_ioctl, alone_bind, alone_spin_lock]
  refine Locking.spin_lock_congr ?_
  simp only [threads.sessionOf, threads.current, locks.current, alone_bind, alone_perform, bind_assoc, Locking.perform_bind]
  cases hfound : driver.scsitap_get_session d (d.files file).minor with
  | some session => rfl
  | none =>
    simp only [alone_perform, Locking.perform_bind]
    cases driver.scsitap_create_session d (d.files file).minor host <;> rfl

theorem receive_task_alone (host : Option HostMemory) (arg : Nat) :
    (threads.scsitap_ctl_ioctl file host (.receive_task arg)).alone =
      locks.scsitap_ctl_ioctl file host (.receive_task arg) := by
  funext ⟨held, d⟩
  simp only [threads.scsitap_ctl_ioctl, locks.scsitap_ctl_ioctl, threads.current, locks.current, alone_bind, alone_perform,
    Locking.perform_bind]
  cases (d.files file).private_data with
  | none => rfl
  | some session =>
    simp only [alone_bind, alone_spin_lock, threads.readFlags, alone_perform]
    refine Locking.spin_lock_congr ?_
    have hclaim : d.seeing session (d.hbas session).session.flags (fun d => d.recordClaim session file arg) =
        d.recordClaim session file arg :=
      Driver.seeing_self (callSession_flags d (.inr (.inr ⟨arg, rfl⟩)))
    simp only [Locking.perform_bind]
    split
    · rw [alone_perform, Locking.perform_run, Locking.perform_run, hclaim]
    · next hready =>
      simp only [alone_bind, alone_perform, alone_spin_unlock, Locking.perform_bind, hclaim]
      cases htask : task_of_cmd (d.hbas session) (UInt32.ofNat arg) with
      | some task => rfl
      | none =>
        have hnone : d.recordClaim session file arg = d := by
          simp [Driver.recordClaim, Driver.claimOf, Driver.callSession, Hba.apply, scsitap_ioctl_receive_task,
            not_not.mp hready, htask]
        rw [hnone]
        rfl

theorem unregister_client_alone (host : Option HostMemory) :
    (threads.scsitap_ctl_ioctl file host .unregister_client).alone =
      locks.scsitap_ctl_ioctl file host .unregister_client := by
  funext ⟨held, d⟩
  simp only [threads.scsitap_ctl_ioctl, locks.scsitap_ctl_ioctl, alone_bind, alone_spin_lock]
  refine Locking.spin_lock_congr ?_
  simp only [threads.current, locks.current, alone_perform, Locking.perform_bind]
  cases driver.scsitap_get_session d (d.files file).minor with
  | none => rfl
  | some session =>
    simp only [alone_bind, destroy_session_alone, alone_spin_unlock]
    refine congrFun (bind_congr fun failed => ?_) _
    split <;> rfl

end Alone

/-- With no other call between, each call does what it does with the locks of one thread. -/
theorem LockedCall.program_alone (c : LockedCall) : c.program.alone = c.run := by
  cases c with
  | ctl_read file user count =>
    rw [program, alone_bind, ctl_read_alone, run, map_eq_pure_bind]
    rfl
  | ctl_write file user count => exact ctl_write_alone file user count
  | ctl_ioctl file host request =>
    cases request with
    | register_client pid => exact register_client_alone file host pid
    | receive_task arg => exact receive_task_alone file host arg
    | set_task arg => rfl
    | unregister_client => exact unregister_client_alone file host
    | unknown => rfl
  | ctl_release file => exact ctl_release_alone file
  | queuecommand session sc slot => exact queuecommand_alone session sc slot
  | eh_abort session sc => rfl
  | eh_host_reset session => rfl
  | destroy_session session => exact destroy_session_alone session

end vscsi
