import Vscsi.Kernel.Driver
import Vscsi.Kernel.Preserve

open lib

namespace vscsi

open hba device

namespace Hba

/-- What registering, unregistering and closing work on is the same. -/
structure SameControl (k k' : Hba) : Prop where
  dev_id : k'.session.dev_id = k.session.dev_id
  flags : k'.session.flags = k.session.flags
  Device_Open : k'.session.Device_Open = k.session.Device_Open

theorem SameControl.of_session {k k' : Hba} (h : k'.session = k.session) : SameControl k k' :=
  ⟨by rw [h], by rw [h], by rw [h]⟩

theorem SameControl.trans {k k' k'' : Hba} (h : SameControl k k') (h' : SameControl k' k'') : SameControl k k'' :=
  ⟨h'.dev_id.trans h.dev_id, h'.flags.trans h.flags, h'.Device_Open.trans h.Device_Open⟩

theorem SameControl.complete_task (k : Hba) (task : Addr) : SameControl k (scsitap_complete_task k task) := by
  constructor <;> simp

theorem SameControl.abortTask (k : Hba) (task : Addr) : SameControl k (abortTask k task) := by
  constructor <;> simp [hba.abortTask]

theorem SameControl.foldl {body : Hba → Addr → Hba} (hbody : ∀ k task, SameControl k (body k task))
    (tasks : List Addr) (k : Hba) : SameControl k (tasks.foldl body k) := by
  induction tasks generalizing k with
  | nil => exact .of_session rfl
  | cons task tasks ih => exact (hbody k task).trans (ih _)

/-- The calls of the mid layer and the writes and claims of targets. -/
theorem SameControl.apply (k : Hba) {op : Op}
    (hop : op.MidLayer ∨ (∃ user count, op = .write user count) ∨ ∃ arg, op = .receive_task arg) :
    SameControl k (k.apply op) := by
  cases op with
  | prepare sc cmnd mem => exact .of_session rfl
  | queuecommand sc slot =>
    change SameControl k (scsitap_queuecommand k sc slot).2
    unfold scsitap_queuecommand
    split
    · exact .of_session rfl
    · cases slot with
      | none => exact .of_session rfl
      | some task => exact ⟨rfl, rfl, rfl⟩
  | eh_abort sc =>
    change SameControl k (scsitap_eh_abort k sc).2
    unfold scsitap_eh_abort
    cases (k.cmnds sc).SCp_ptr with
    | none => exact .of_session rfl
    | some task => exact .abortTask k task
  | eh_host_reset => exact .foldl SameControl.abortTask k.session.scsitap_queue k
  | read f_pos user count => exact .of_session rfl
  | write user count =>
    change SameControl k (scsitap_ctl_write k user count).2
    rcases scsitap_ctl_write_cases k user count with hsame | ⟨task, k₁, _, hsame, heq⟩
    · exact .of_session hsame.session
    · rw [heq]
      exact (SameControl.of_session hsame.session).trans (.complete_task k₁ task)
  | receive_task arg =>
    change SameControl k (scsitap_ioctl_receive_task k arg).2
    unfold scsitap_ioctl_receive_task
    split
    · exact ⟨rfl, rfl, rfl⟩
    · split <;> exact .of_session rfl
  | register_client pid => simp [Op.MidLayer] at hop
  | unregister_client => simp [Op.MidLayer] at hop
  | release => simp [Op.MidLayer] at hop

end Hba

namespace Driver

open driver

/-- What holds of the lists of a driver, and of each of its sessions, in any run. -/
structure Wellformed (d : Driver) : Prop where
  created : ∀ session ∈ d.session_queue, session < d.created
  sessions : d.session_queue.Nodup
  opens : ∀ file ∈ d.opened, file < d.opens
  files : d.opened.Nodup
  valid : ∀ session ∈ d.session_queue, (d.hbas session).Valid

variable {d d' : Driver}

theorem Wellformed.initial (h : Initial d) : d.Wellformed := by
  obtain ⟨_, hqueue, _, _, hopened, _⟩ := h
  constructor <;> simp [hqueue, hopened]

/-- A call into a session keeps the driver's lists, and the session valid. -/
theorem Wellformed.callSession (h : d.Wellformed) {session : Nat} {op : Op} (hmem : session ∈ d.session_queue)
    (hallowed : (d.hbas session).Allowed op) : (d.callSession session op).Wellformed where
  created := h.created
  sessions := h.sessions
  opens := h.opens
  files := h.files
  valid other hother := by
    by_cases heq : other = session
    · subst heq
      simpa using (h.valid other hmem).apply op hallowed
    · simpa [heq] using h.valid other hother

theorem Wellformed.addSession (h : d.Wellformed) (id : UInt32) {host : HostMemory}
    (hfresh : ∀ sc, (host.cmnds sc).SCp_ptr = none) : (d.addSession id host).Wellformed where
  created session hsession := by
    rcases List.mem_append.mp hsession with hold | hnew
    · exact Nat.lt_succ_of_lt (h.created session hold)
    · rw [List.mem_singleton.mp hnew]
      exact Nat.lt_succ_self _
  sessions := by
    refine List.nodup_append.mpr ⟨h.sessions, List.nodup_singleton _, ?_⟩
    intro session hold other hnew
    rw [List.mem_singleton.mp hnew]
    exact Nat.ne_of_lt (h.created session hold)
  opens := h.opens
  files := h.files
  valid session hsession := by
    rcases List.mem_append.mp hsession with hold | hnew
    · have hne : session ≠ d.created := Nat.ne_of_lt (h.created session hold)
      simpa [hne] using h.valid session hold
    · rw [List.mem_singleton.mp hnew]
      have hinitial : Hba.Initial (hba.scsitap_create_session id host.tasks host.cmnds host.mem) :=
        ⟨id, _, _, _, hfresh, rfl⟩
      simpa using Hba.Valid.initial hinitial

/-- Nothing here depends on what a file refers to. -/
theorem Wellformed.setFile (h : d.Wellformed) (file : Nat) (f : ControlFile) : (d.setFile file f).Wellformed :=
  ⟨h.created, h.sessions, h.opens, h.files, h.valid⟩

theorem Wellformed.closeFile (h : d.Wellformed) (file : Nat) : (d.closeFile file).Wellformed where
  created := h.created
  sessions := h.sessions
  opens other hother := h.opens other (List.mem_of_mem_erase hother)
  files := h.files.erase file
  valid := h.valid

theorem Wellformed.attach (h : d.Wellformed) (file : Nat) {session : Nat} (pid : UInt32)
    (hmem : session ∈ d.session_queue) : (d.attach file session pid).Wellformed := by
  have hcalled : ((d.setFile file { d.files file with private_data := some session }).callSession session
      (.register_client pid)).Wellformed := (h.setFile file _).callSession hmem trivial
  exact ⟨hcalled.created, hcalled.sessions, hcalled.opens, hcalled.files, hcalled.valid⟩

theorem Wellformed.removeSession (h : d.Wellformed) {session : Nat} (hmem : session ∈ d.session_queue) :
    (d.removeSession session).Wellformed := by
  have hcalled : (d.callSession session .unregister_client).Wellformed := h.callSession hmem trivial
  exact ⟨fun other hother => h.created other (List.mem_of_mem_erase hother), h.sessions.erase session, h.opens,
    h.files, fun other hother => hcalled.valid other (List.mem_of_mem_erase hother)⟩

theorem Wellformed.change (h : d.Wellformed) {op : DriverOp} (hchange : Change d op d') : d'.Wellformed := by
  cases hchange with
  | nothing _ _ _ => exact h
  | opened minor =>
    refine ⟨h.created, h.sessions, ?_, ?_, h.valid⟩
    · intro file hfile
      rcases List.mem_append.mp hfile with hold | hnew
      · exact Nat.lt_succ_of_lt (h.opens file hold)
      · rw [List.mem_singleton.mp hnew]
        exact Nat.lt_succ_self _
    · refine List.nodup_append.mpr ⟨h.files, List.nodup_singleton _, ?_⟩
      intro file hold other hnew
      rw [List.mem_singleton.mp hnew]
      exact Nat.ne_of_lt (h.opens file hold)
  | attached file session pid host hfile hfound => exact h.attach file pid (get_session_mem hfound).1
  | created file pid host hfile hnone hfresh => exact (h.addSession _ hfresh).attach file pid (by simp)
  | claimed file session arg host hfile hsession hcall =>
    have hcalled := h.callSession hcall.1 hcall.2.2
    exact ⟨hcalled.created, hcalled.sessions, hcalled.opens, hcalled.files, hcalled.valid⟩
  | positioned file arg host hfile => exact h.setFile file _
  | destroyed file session host hfile hfound hclosed hcall => exact h.removeSession hcall.1
  | written file session user count hfile hsession hcall => exact h.callSession hcall.1 hcall.2.2
  | midlayer session op hop hcall => exact h.callSession hcall.1 hcall.2.2
  | closed file session hfile hsession hcall => exact (h.callSession hcall.1 hcall.2.2).closeFile file
  | closedBogus file hfile hsession => exact h.closeFile file
  | scanBegun hpending => exact ⟨h.created, h.sessions, h.opens, h.files, h.valid⟩
  | scanEnded session hscanning => exact ⟨h.created, h.sessions, h.opens, h.files, h.valid⟩

end Driver

end vscsi
