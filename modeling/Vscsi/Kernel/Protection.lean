import Vscsi.Kernel.Sessions
import Mathlib.Data.List.Perm.Subperm

open lib

namespace vscsi

open hba device

namespace Driver

open driver

/-- The open files that are registered with a session. -/
def registered (d : Driver) (session : Nat) : List Nat :=
  d.opened.filter fun file => (d.files file).private_data = some session

variable {d d' : Driver} {file session other : Nat}

theorem mem_registered : file ∈ d.registered session ↔ file ∈ d.opened ∧ (d.files file).private_data = some session := by
  simp [registered]

/-- Only the open files and their sessions matter. -/
theorem registered_congr (hopened : d'.opened = d.opened)
    (hdata : ∀ file ∈ d.opened, (d'.files file).private_data = (d.files file).private_data) (session : Nat) :
    d'.registered session = d.registered session := by
  rw [registered, registered, hopened]
  exact List.filter_congr fun file hfile => by rw [hdata file hfile]

/-- Two lists without repetitions compare by their members. -/
theorem length_le_of_subset {l l' : List Nat} (hnodup : l.Nodup) (hsub : l ⊆ l') : l.length ≤ l'.length :=
  (List.subperm_of_subset hnodup hsub).length_le

theorem private_data_setFile {f : ControlFile} (hdata : f.private_data = (d.files file).private_data) (g : Nat) :
    ((d.setFile file f).files g).private_data = (d.files g).private_data := by
  by_cases heq : g = file
  · subst heq
    simpa using hdata
  · simp [heq]

theorem registered_setFile {f : ControlFile} (hdata : f.private_data = (d.files file).private_data) :
    (d.setFile file f).registered session = d.registered session :=
  registered_congr (setFile_opened d file f) (fun g _ => private_data_setFile hdata g) session

/-- A file that registers joins the files of its session. -/
theorem registered_attach_le (h : d.Wellformed) (file session : Nat) (pid : UInt32) :
    ((d.attach file session pid).registered session).length ≤ (d.registered session).length + 1 := by
  have hnodup : ((d.attach file session pid).registered session).Nodup := h.files.filter _
  refine length_le_of_subset hnodup (show _ ⊆ file :: d.registered session from ?_)
  intro f hf
  obtain ⟨hopened, hdata⟩ := mem_registered.mp hf
  by_cases heq : f = file
  · rw [heq]
    exact List.mem_cons_self
  · refine List.mem_cons_of_mem _ (mem_registered.mpr ⟨hopened, ?_⟩)
    simpa [heq] using hdata

/-- No other session gets a file. -/
theorem registered_attach_other (h : d.Wellformed) (file : Nat) (hne : other ≠ session) (pid : UInt32) :
    ((d.attach file session pid).registered other).length ≤ (d.registered other).length := by
  have hnodup : ((d.attach file session pid).registered other).Nodup := h.files.filter _
  refine length_le_of_subset hnodup ?_
  intro f hf
  obtain ⟨hopened, hdata⟩ := mem_registered.mp hf
  by_cases heq : f = file
  · subst heq
    have hsession : session = other := by simpa using hdata
    exact absurd hsession.symm hne
  · exact mem_registered.mpr ⟨hopened, by simpa [heq] using hdata⟩

/-- A file that is closed leaves the files of its session. -/
theorem registered_closeFile (h : d.Wellformed) (hfile : file ∈ d.registered session) :
    ((d.closeFile file).registered session).length + 1 ≤ (d.registered session).length := by
  have hnot : file ∉ (d.closeFile file).registered session := fun hf =>
    (h.files.mem_erase_iff.mp (mem_registered.mp hf).1).1 rfl
  have hnodup : (file :: (d.closeFile file).registered session).Nodup :=
    List.nodup_cons.mpr ⟨hnot, (h.files.erase file).filter _⟩
  refine length_le_of_subset hnodup ?_
  intro f hf
  rcases List.mem_cons.mp hf with rfl | hf
  · exact hfile
  · obtain ⟨hopened, hdata⟩ := mem_registered.mp hf
    exact mem_registered.mpr ⟨List.mem_of_mem_erase hopened, hdata⟩

/-- A file just opened is registered with nothing. -/
theorem registered_addFile (h : d.Wellformed) (minor : UInt32) (session : Nat) :
    (d.addFile minor).registered session = d.registered session := by
  have hold : d.opened.filter (fun f => ((d.addFile minor).files f).private_data = some session) =
      d.registered session := by
    refine List.filter_congr fun f hf => ?_
    have hne : f ≠ d.opens := Nat.ne_of_lt (h.opens f hf)
    simp [hne]
  have hnew : [d.opens].filter (fun f => ((d.addFile minor).files f).private_data = some session) = [] := by
    simp
  rw [registered, addFile_opened, List.filter_append, hold, hnew, List.append_nil]

theorem registered_closeFile_le (h : d.Wellformed) (file session : Nat) :
    ((d.closeFile file).registered session).length ≤ (d.registered session).length := by
  refine length_le_of_subset ((h.files.erase file).filter _) ?_
  intro f hf
  obtain ⟨hopened, hdata⟩ := mem_registered.mp hf
  exact mem_registered.mpr ⟨List.mem_of_mem_erase hopened, hdata⟩

/-- Every session that an open file refers to is there, and counts as open. -/
def Protected (d : Driver) : Prop :=
  ∀ file ∈ d.opened, ∀ session, (d.files file).private_data = some session →
    session ∈ d.session_queue ∧ (d.hbas session).session.Device_Open ≠ 0

/-- A registration with a session finds a count that can still grow. -/
def CountsUp (d : Driver) : DriverOp → Prop
  | .ctl_ioctl file _ (.register_client _) => ∀ session, scsitap_get_session d (d.files file).minor = some session →
      (d.hbas session).session.Device_Open ≠ 255
  | _ => True

/-- A registration that finds no session has none to count. -/
theorem countsUp_of_none {op : DriverOp} (hnone : ∀ file host pid, op = .ctl_ioctl file host (.register_client pid) →
    scsitap_get_session d (d.files file).minor = none) : d.CountsUp op := by
  unfold CountsUp
  split
  · rename_i file host pid
    intro session hsession
    rw [hnone file host pid rfl] at hsession
    cases hsession
  · trivial

/-- No session has more files registered with it than it counts. -/
structure Counted (d : Driver) : Prop where
  wellformed : d.Wellformed
  live : ∀ file ∈ d.opened, ∀ session, (d.files file).private_data = some session → session ∈ d.session_queue
  counted : ∀ session ∈ d.session_queue, (d.registered session).length ≤ (d.hbas session).session.Device_Open.toNat

theorem Counted.initial (h : Initial d) : d.Counted := by
  have hwellformed := Wellformed.initial h
  obtain ⟨_, hqueue, _, _, hopened, _⟩ := h
  constructor <;> simp [hqueue, hopened, hwellformed]

theorem Counted.protected (h : d.Counted) : d.Protected := by
  intro file hfile session hdata
  have hmem := h.live file hfile session hdata
  refine ⟨hmem, fun hzero => ?_⟩
  have hcount := h.counted session hmem
  rw [hzero] at hcount
  have hpos := List.length_pos_of_mem (mem_registered.mpr ⟨hfile, hdata⟩)
  simp only [UInt8.toNat_zero] at hcount
  omega

/-- A session of which nobody has a file open can go. -/
theorem Counted.no_files (h : d.Counted)
    (hclosed : (d.hbas session).session.Device_Open = 0) : ∀ file ∈ d.opened, (d.files file).private_data ≠ some session :=
  fun file hfile hdata => (h.protected file hfile session hdata).2 hclosed

/-- Calls that leave the count alone keep it right. -/
theorem Counted.callSession (h : d.Counted) {op : Op} (hmem : session ∈ d.session_queue)
    (hallowed : (d.hbas session).Allowed op) (hsame : Hba.SameControl (d.hbas session) ((d.hbas session).apply op)) :
    (d.callSession session op).Counted where
  wellformed := h.wellformed.callSession hmem hallowed
  live := h.live
  counted other hother := by
    have hregistered : (d.callSession session op).registered other = d.registered other :=
      registered_congr rfl (fun _ _ => rfl) other
    rw [hregistered]
    by_cases heq : other = session
    · subst heq
      simpa [hsame.Device_Open] using h.counted other hother
    · simpa [heq] using h.counted other hother

theorem Counted.addSession (h : d.Counted) (id : UInt32) {host : HostMemory}
    (hfresh : ∀ sc, (host.cmnds sc).SCp_ptr = none) : (d.addSession id host).Counted where
  wellformed := h.wellformed.addSession id hfresh
  live file hfile other hdata := List.mem_append_left _ (h.live file hfile other hdata)
  counted other hother := by
    have hregistered : (d.addSession id host).registered other = d.registered other :=
      registered_congr rfl (fun _ _ => rfl) other
    rw [hregistered]
    rcases List.mem_append.mp hother with hold | hnew
    · have hne : other ≠ d.created := Nat.ne_of_lt (h.wellformed.created other hold)
      simpa [hne] using h.counted other hold
    · -- no file can refer to a session that was not there
      rw [List.mem_singleton.mp hnew]
      have hnone : d.registered d.created = [] := by
        refine List.filter_eq_nil_iff.mpr fun file hfile hdata => ?_
        have hold := h.live file hfile d.created (by simpa using hdata)
        exact Nat.lt_irrefl _ (h.wellformed.created _ hold)
      simp [hnone]

theorem Counted.attach (h : d.Counted) (hmem : session ∈ d.session_queue) (file : Nat) (pid : UInt32)
    (hcount : (d.hbas session).session.Device_Open ≠ 255) : (d.attach file session pid).Counted where
  wellformed := h.wellformed.attach file pid hmem
  live f hf other hdata := by
    by_cases heq : f = file
    · subst heq
      have hsession : session = other := by simpa using hdata
      rwa [← hsession]
    · exact h.live f hf other (by simpa [heq] using hdata)
  counted other hother := by
    by_cases heq : other = session
    · subst heq
      have hle := registered_attach_le h.wellformed file other pid
      have hbefore := h.counted other hmem
      have hgrown : ((d.attach file other pid).hbas other).session.Device_Open.toNat =
          (d.hbas other).session.Device_Open.toNat + 1 := by
        have hlt : (d.hbas other).session.Device_Open.toNat ≠ 255 := fun heq => hcount (UInt8.toNat_inj.mp heq)
        have hsmall := (d.hbas other).session.Device_Open.toNat_lt
        simp only [attach_hbas, Function.update_self, Hba.apply, scsitap_ioctl_register_client, UInt8.toNat_add,
          UInt8.toNat_one]
        omega
      omega
    · have hle := registered_attach_other h.wellformed file heq pid
      have hsame : (d.attach file session pid).hbas other = d.hbas other := by
        simp [heq]
      rw [hsame]
      exact le_trans hle (h.counted other hother)

/-- A file that goes on referring to its session. -/
theorem Counted.setFile (h : d.Counted) {f : ControlFile}
    (hdata : f.private_data = (d.files file).private_data) : (d.setFile file f).Counted := by
  refine ⟨h.wellformed.setFile file f, fun other hother s hs => h.live other hother s ?_, fun s hs => ?_⟩
  · rwa [private_data_setFile hdata] at hs
  · rw [registered_setFile hdata]
    exact h.counted s hs

theorem Counted.removeSession (h : d.Counted) (hcall : d.Callable session .unregister_client)
    (hclosed : (d.hbas session).session.Device_Open = 0) : (d.removeSession session).Counted where
  wellformed := h.wellformed.removeSession hcall.1
  live file hfile other hdata := by
    refine h.wellformed.sessions.mem_erase_iff.mpr ⟨?_, h.live file hfile other hdata⟩
    rintro rfl
    exact h.no_files hclosed file hfile hdata
  counted other hother := by
    obtain ⟨hne, hold⟩ := h.wellformed.sessions.mem_erase_iff.mp hother
    have hregistered : (d.removeSession session).registered other = d.registered other :=
      registered_congr rfl (fun _ _ => rfl) other
    rw [hregistered]
    simpa [hne] using h.counted other hold

theorem Counted.closed (h : d.Counted) (hfile : file ∈ d.opened) (hdata : (d.files file).private_data = some session) :
    ((d.callSession session .release).closeFile file).Counted where
  wellformed := by
    have hmem := h.live file hfile session hdata
    have hcalled : (d.callSession session .release).Wellformed := h.wellformed.callSession hmem trivial
    exact hcalled.closeFile file
  live f hf other hdata' := h.live f (List.mem_of_mem_erase hf) other hdata'
  counted other hother := by
    have hregistered : ((d.callSession session .release).closeFile file).registered other =
        (d.closeFile file).registered other := registered_congr rfl (fun _ _ => rfl) other
    have hbefore := h.counted other hother
    rw [hregistered]
    by_cases heq : other = session
    · subst heq
      have hless := registered_closeFile h.wellformed (mem_registered.mpr ⟨hfile, hdata⟩)
      have hsmall := (d.hbas other).session.Device_Open.toNat_lt
      have hone : (1 : UInt8).toNat = 1 := rfl
      simp only [closeFile_hbas, callSession_hbas, Function.update_self, Hba.apply, device.scsitap_ctl_release,
        UInt8.toNat_sub, hone]
      omega
    · have hle := registered_closeFile_le h.wellformed file other
      simp only [closeFile_hbas, callSession_hbas, Function.update_of_ne heq]
      exact Nat.le_trans hle hbefore

theorem Counted.closeFile (h : d.Counted) (file : Nat) : (d.closeFile file).Counted where
  wellformed := h.wellformed.closeFile file
  live f hf other hdata := h.live f (List.mem_of_mem_erase hf) other hdata
  counted other hother := le_trans (registered_closeFile_le h.wellformed file other) (h.counted other hother)

theorem Counted.addFile (h : d.Counted) (minor : UInt32) : (d.addFile minor).Counted where
  wellformed := h.wellformed.change (.opened minor)
  live f hf other hdata := by
    rcases List.mem_append.mp hf with hold | hnew
    · have hne : f ≠ d.opens := Nat.ne_of_lt (h.wellformed.opens f hold)
      exact h.live f hold other (by simpa [hne] using hdata)
    · rw [List.mem_singleton.mp hnew] at hdata
      simp at hdata
  counted other hother := by
    rw [registered_addFile h.wellformed]
    exact h.counted other hother

theorem Counted.change (h : d.Counted) {op : DriverOp} (hcount : d.CountsUp op) (hchange : Change d op d') :
    d'.Counted := by
  cases hchange with
  | nothing _ _ _ => exact h
  | opened minor => exact h.addFile minor
  | attached file session pid host hfile hfound => exact h.attach (get_session_mem hfound).1 file pid (hcount session hfound)
  | created file pid host hfile hnone hfresh =>
    refine (h.addSession _ hfresh).attach (by simp) file pid ?_
    simp [hba.scsitap_create_session]
  | claimed file session arg host hfile hsession hcall =>
    have hcalled := h.callSession hcall.1 hcall.2.2 (.apply _ (.inr (.inr ⟨arg, rfl⟩)))
    exact ⟨⟨hcalled.wellformed.created, hcalled.wellformed.sessions, hcalled.wellformed.opens,
      hcalled.wellformed.files, hcalled.wellformed.valid⟩, hcalled.live, hcalled.counted⟩
  | positioned file arg host hfile =>
    exact h.setFile rfl
  | destroyed file session host hfile hfound hclosed hcall => exact h.removeSession hcall hclosed
  | written file session user count hfile hsession hcall =>
    exact h.callSession hcall.1 hcall.2.2 (.apply _ (.inr (.inl ⟨user, count, rfl⟩)))
  | midlayer session op hop hcall => exact h.callSession hcall.1 hcall.2.2 (.apply _ (.inl hop))
  | closed file session hfile hsession hcall => exact h.closed hfile hsession
  | closedBogus file hfile hsession => exact h.closeFile file
  | scanBegun hpending => exact ⟨h.wellformed.change (.scanBegun hpending), h.live, h.counted⟩
  | scanEnded session hscanning => exact ⟨h.wellformed.change (.scanEnded session hscanning), h.live, h.counted⟩

/-- The registration that makes the count wrap leaves its own file with a
session that counts as closed. -/
theorem not_protected_of_wrap {op : DriverOp} (hcount : ¬ d.CountsUp op) (hchange : Change d op d') : ¬ d'.Protected := by
  cases hchange with
  | attached file session pid host hfile hfound =>
    have hwraps : (d.hbas session).session.Device_Open = 255 := by
      by_contra hne
      refine hcount fun other hother => ?_
      rw [hfound] at hother
      obtain rfl := Option.some.inj hother
      exact hne
    intro hprotected
    refine (hprotected file hfile session (by simp)).2 ?_
    simp [Hba.apply, scsitap_ioctl_register_client, hwraps]
  | created file pid host hfile hnone hfresh =>
    refine absurd (countsUp_of_none fun file' host' pid' hop => ?_) hcount
    obtain ⟨rfl, -, -⟩ := DriverOp.ctl_ioctl.inj hop
    exact hnone
  | nothing op hregister hunregister hrelease =>
    exact absurd (countsUp_of_none fun file host pid hop => (hregister file host pid hop).1) hcount
  | _ => exact absurd trivial hcount

/-- In a run every session that an open file refers to is there and counts as
open, exactly if no registration is made with a session that has counted 255. -/
theorem protected_iff {start : Driver} {trace : List (Driver × DriverOp)} (hinit : Initial start)
    (hrun : Run Step start trace d) : Always Protected trace d ↔ ∀ e ∈ trace, e.1.CountsUp e.2 :=
  hrun.always_iff (Counted.initial hinit) (fun _ h => h.protected)
    (fun _ _ _ h hcount hstep => h.change hcount hstep.change)
    fun _ _ _ _ hcount hstep => not_protected_of_wrap hcount hstep.change

/-- The driver after one file has been opened and has registered `n` times. -/
def registeredTimes : Nat → Driver
  | 0 => loaded.addFile 0
  | n + 1 => (registeredTimes n).afterRegister 0

/-- A single file is open, and registered with a single session that has counted
`n` registrations. -/
structure OneFile (d : Driver) (n : Nat) : Prop where
  opened : d.opened = [0]
  file : d.files 0 = { minor := 0, private_data := some 0, f_pos := 0 }
  session_queue : d.session_queue = [0]
  dev_id : (d.hbas 0).session.dev_id = 0
  Device_Open : (d.hbas 0).session.Device_Open = UInt8.ofNat n
  flags : (d.hbas 0).session.flags = .ready
  lock : (d.hbas 0).session.scsitap_queue_lock = false

theorem OneFile.found {n : Nat} (h : d.OneFile n) : scsitap_get_session d (d.files 0).minor = some 0 := by
  simp [scsitap_get_session, h.session_queue, h.file, h.dev_id]

theorem OneFile.register {n : Nat} (h : d.OneFile n) : (d.afterRegister 0).OneFile (n + 1) := by
  rw [afterRegister_found h.found]
  constructor
  · exact h.opened
  · simp [h.file]
  · exact h.session_queue
  · exact h.dev_id
  · simp [Hba.apply, scsitap_ioctl_register_client, h.Device_Open]
  · rfl
  · exact h.lock

theorem oneFile_registeredTimes (n : Nat) : (registeredTimes (n + 1)).OneFile (n + 1) := by
  induction n with
  | zero => constructor <;> rfl
  | succ n ih => exact ih.register

theorem registeredTimes_run (n : Nat) : ∃ trace, Run Step loaded trace (registeredTimes n) := by
  induction n with
  | zero => exact ⟨_, Run.nil.snoc (open_step loaded 0)⟩
  | succ n ih =>
    obtain ⟨trace, hrun⟩ := ih
    refine ⟨_, hrun.snoc (register_step 0 ?_)⟩
    cases n with
    | zero => exact List.mem_singleton.mpr rfl
    | succ n =>
      rw [(oneFile_registeredTimes n).opened]
      exact List.mem_singleton.mpr rfl

/-- A session whose count has wrapped can be destroyed under its file. -/
theorem OneFile.unprotected (h : d.OneFile 256) : d.Step (.ctl_ioctl 0 none .unregister_client) (d.removeSession 0) ∧
    ¬ (d.removeSession 0).Protected := by
  have hfile : 0 ∈ d.opened := by simp [h.opened]
  have hclosed : (d.hbas 0).session.Device_Open = 0 := h.Device_Open
  refine ⟨unregister_step hfile h.found hclosed h.lock, fun hprotected => ?_⟩
  have hmem := (hprotected 0 hfile 0 (by simp [h.file])).1
  simp [h.session_queue] at hmem

/-- After 256 registrations of one file its session counts as closed and can be
destroyed, and the file still refers to it. -/
theorem unprotected_after_256 : ¬ ∀ start d trace, Initial start → Run Step start trace d → Always Protected trace d := by
  intro hall
  obtain ⟨hdestroy, hunprotected⟩ := (oneFile_registeredTimes 255).unprotected
  obtain ⟨trace, hrun⟩ := registeredTimes_run 256
  exact hunprotected (hall _ _ _ loaded_initial (hrun.snoc hdestroy)).2

/-- One registration. -/
theorem protected_one_file : ∃ trace, Run Step loaded trace (registeredTimes 1) ∧
    Always Protected trace (registeredTimes 1) := by
  have hrun := (Run.nil.snoc (open_step loaded 0)).snoc (register_step 0 (List.mem_singleton.mpr rfl))
  refine ⟨_, hrun, (protected_iff loaded_initial hrun).mpr ?_⟩
  intro e he
  simp only [List.nil_append, List.cons_append, List.mem_cons, List.not_mem_nil, or_false] at he
  rcases he with rfl | rfl
  · trivial
  · intro session hsession
    cases hsession

end Driver

end vscsi
