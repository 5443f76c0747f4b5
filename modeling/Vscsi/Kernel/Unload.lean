import Vscsi.Kernel.Lifecycle
import Vscsi.Kernel.Freed
import Vscsi.Kernel.Evolve
import Vscsi.Kernel.Orphans
import Vscsi.Kernel.Protection

open lib

namespace vscsi

open hba device driver

namespace Driver

variable {d d' : Driver} {file session : Nat}

/-- A session that accepts commands counts as open, or an open file refers to
it. -/
structure Held (d : Driver) : Prop where
  wellformed : d.Wellformed
  known : ∀ file ∈ d.opened, ∀ session, (d.files file).private_data = some session → session < d.created
  minor : ∀ file ∈ d.opened, ∀ session ∈ d.session_queue, (d.files file).private_data = some session →
    (d.hbas session).session.dev_id = (d.files file).minor
  distinct : ∀ s ∈ d.session_queue, ∀ t ∈ d.session_queue,
    (d.hbas s).session.dev_id = (d.hbas t).session.dev_id → s = t
  held : ∀ session ∈ d.session_queue, (d.hbas session).session.flags = .ready →
    (d.hbas session).session.Device_Open ≠ 0 ∨ ∃ file ∈ d.opened, (d.files file).private_data = some session

theorem Held.initial (h : Initial d) : d.Held := by
  have hwellformed := Wellformed.initial h
  obtain ⟨_, hqueue, _, _, hopened, _⟩ := h
  constructor <;> simp [hqueue, hopened, hwellformed]

/-- Neither a file nor the control state of a session that is left has changed. -/
theorem Held.of_same (h : d.Held) (hwellformed : d'.Wellformed) (hcreated : d.created ≤ d'.created)
    (hopened : d'.opened = d.opened) (hqueue : d'.session_queue ⊆ d.session_queue)
    (hdata : ∀ file, (d'.files file).private_data = (d.files file).private_data)
    (hminor : ∀ file, (d'.files file).minor = (d.files file).minor)
    (hcontrol : ∀ session ∈ d'.session_queue, Hba.SameControl (d.hbas session) (d'.hbas session)) : d'.Held where
  wellformed := hwellformed
  known file hfile session hsession := by
    rw [hopened] at hfile
    rw [hdata] at hsession
    exact Nat.lt_of_lt_of_le (h.known file hfile session hsession) hcreated
  minor file hfile session hmem hsession := by
    rw [hopened] at hfile
    rw [hdata] at hsession
    rw [(hcontrol session hmem).dev_id, hminor]
    exact h.minor file hfile session (hqueue hmem) hsession
  distinct s hs t ht heq := by
    rw [(hcontrol s hs).dev_id, (hcontrol t ht).dev_id] at heq
    exact h.distinct s (hqueue hs) t (hqueue ht) heq
  held session hmem hready := by
    rw [(hcontrol session hmem).flags] at hready
    rw [(hcontrol session hmem).Device_Open, hopened]
    refine (h.held session (hqueue hmem) hready).imp_right ?_
    rintro ⟨file, hfile, hsession⟩
    exact ⟨file, hfile, by rwa [hdata]⟩

/-- One session has changed, but not what it is controlled by. -/
theorem Held.callSession (h : d.Held) {op : Op} (hcall : d.Callable session op)
    (hsame : Hba.SameControl (d.hbas session) ((d.hbas session).apply op)) : (d.callSession session op).Held := by
  refine h.of_same (h.wellformed.callSession hcall.1 hcall.2.2) (Nat.le_refl _) rfl (List.Subset.refl _)
    (fun _ => rfl) (fun _ => rfl) fun other _ => ?_
  by_cases heq : other = session
  · subst heq
    simpa using hsame
  · rw [callSession_hbas, Function.update_of_ne heq]
    exact .of_session rfl

theorem Held.addFile (h : d.Held) (minor : UInt32) : (d.addFile minor).Held := by
  have hold : ∀ f ∈ (d.addFile minor).opened, ((d.addFile minor).files f).private_data ≠ none → f ∈ d.opened ∧
      (d.addFile minor).files f = d.files f := by
    intro f hf hdata
    have hne : f ≠ d.opens := by
      rintro rfl
      simp at hdata
    refine ⟨?_, by simp [hne]⟩
    simpa [hne] using hf
  constructor
  · exact h.wellformed.change (.opened minor)
  · intro f hf session hdata
    obtain ⟨hfile, hsame⟩ := hold f hf (by rw [hdata]; exact Option.some_ne_none _)
    rw [hsame] at hdata
    exact h.known f hfile session hdata
  · intro f hf session hmem hdata
    obtain ⟨hfile, hsame⟩ := hold f hf (by rw [hdata]; exact Option.some_ne_none _)
    rw [hsame] at hdata ⊢
    exact h.minor f hfile session hmem hdata
  · exact h.distinct
  · intro session hmem hready
    refine (h.held session hmem hready).imp_right ?_
    rintro ⟨f, hf, hdata⟩
    have hne : f ≠ d.opens := Nat.ne_of_lt (h.wellformed.opens f hf)
    exact ⟨f, List.mem_append_left _ hf, by simpa [hne] using hdata⟩

theorem Held.attach (h : d.Held) (hfile : file ∈ d.opened) (hmem : session ∈ d.session_queue)
    (hminor : (d.hbas session).session.dev_id = (d.files file).minor) (pid : UInt32) :
    (d.attach file session pid).Held := by
  have hdev : ∀ s, ((d.attach file session pid).hbas s).session.dev_id = (d.hbas s).session.dev_id := by
    intro s
    by_cases heq : s = session
    · subst heq
      simp [Hba.apply, scsitap_ioctl_register_client]
    · simp [heq]
  constructor
  · exact h.wellformed.attach file pid hmem
  · intro f hf s hdata
    by_cases heq : f = file
    · subst heq
      have hsession : session = s := by simpa using hdata
      exact hsession ▸ h.wellformed.created session hmem
    · exact h.known f hf s (by simpa [heq] using hdata)
  · intro f hf s hs hdata
    rw [hdev]
    by_cases heq : f = file
    · subst heq
      obtain rfl : session = s := by simpa using hdata
      simpa using hminor
    · simpa [heq] using h.minor f hf s hs (by simpa [heq] using hdata)
  · intro s hs t ht heq
    rw [hdev, hdev] at heq
    exact h.distinct s hs t ht heq
  · intro s hs hready
    by_cases heq : s = session
    · exact .inr ⟨file, hfile, by simp [heq]⟩
    · have hsame : (d.attach file session pid).hbas s = d.hbas s := by simp [heq]
      rw [hsame] at hready ⊢
      refine (h.held s hs hready).imp_right ?_
      rintro ⟨f, hf, hdata⟩
      -- a file goes over to another session of its minor number only once its own has gone
      have hne : f ≠ file := by
        rintro rfl
        exact heq (h.distinct s hs session hmem ((h.minor f hf s hs hdata).trans hminor.symm))
      exact ⟨f, hf, by simpa [hne] using hdata⟩

theorem Held.addSession (h : d.Held) {id : UInt32} (hnone : scsitap_get_session d id = none) {host : HostMemory}
    (hfresh : ∀ sc, (host.cmnds sc).SCp_ptr = none) : (d.addSession id host).Held := by
  have hold : ∀ s ∈ d.session_queue, (d.addSession id host).hbas s = d.hbas s := by
    intro s hs
    have hne : s ≠ d.created := Nat.ne_of_lt (h.wellformed.created s hs)
    simp [hne]
  have hnew : ((d.addSession id host).hbas d.created).session.dev_id = id ∧
      ((d.addSession id host).hbas d.created).session.flags = .not_ready := by
    simp [hba.scsitap_create_session]
  have hother : ∀ s ∈ d.session_queue, (d.hbas s).session.dev_id ≠ id := by
    simpa [scsitap_get_session] using hnone
  constructor
  · exact h.wellformed.addSession id hfresh
  · intro file hfile s hdata
    exact Nat.lt_succ_of_lt (h.known file hfile s hdata)
  · intro file hfile s hs hdata
    have hlt := h.known file hfile s hdata
    rcases List.mem_append.mp hs with hs | hs
    · rw [hold s hs]
      exact h.minor file hfile s hs hdata
    · rw [List.mem_singleton.mp hs] at hlt
      exact absurd hlt (Nat.lt_irrefl _)
  · intro s hs t ht heq
    rcases List.mem_append.mp hs with hs | hs <;> rcases List.mem_append.mp ht with ht | ht
    · rw [hold s hs, hold t ht] at heq
      exact h.distinct s hs t ht heq
    · rw [hold s hs, List.mem_singleton.mp ht, hnew.1] at heq
      exact absurd heq (hother s hs)
    · rw [hold t ht, List.mem_singleton.mp hs, hnew.1] at heq
      exact absurd heq.symm (hother t ht)
    · rw [List.mem_singleton.mp hs, List.mem_singleton.mp ht]
  · intro s hs hready
    rcases List.mem_append.mp hs with hs | hs
    · rw [hold s hs] at hready ⊢
      exact h.held s hs hready
    · rw [List.mem_singleton.mp hs, hnew.2] at hready
      cases hready

theorem Held.closed (h : d.Held) (hdata : (d.files file).private_data = some session)
    (hcall : d.Callable session .release) : ((d.callSession session .release).closeFile file).Held := by
  have hdev : ∀ s, (((d.callSession session .release).closeFile file).hbas s).session.dev_id =
      (d.hbas s).session.dev_id := by
    intro s
    by_cases heq : s = session
    · subst heq
      simp [Hba.apply, device.scsitap_ctl_release]
    · simp [heq]
  constructor
  · exact (h.wellformed.callSession hcall.1 hcall.2.2).closeFile file
  · intro f hf s hs
    exact h.known f (List.mem_of_mem_erase hf) s hs
  · intro f hf s hs hsession
    rw [hdev]
    exact h.minor f (List.mem_of_mem_erase hf) s hs hsession
  · intro s hs t ht heq
    rw [hdev, hdev] at heq
    exact h.distinct s hs t ht heq
  · intro s hs hready
    by_cases heq : s = session
    · subst heq
      refine .inl fun hzero => ?_
      simp only [closeFile_hbas, callSession_hbas, Function.update_self, Hba.apply, device.scsitap_ctl_release] at hready hzero
      rw [if_pos hzero] at hready
      cases hready
    · have hsame : ((d.callSession session .release).closeFile file).hbas s = d.hbas s := by simp [heq]
      rw [hsame] at hready ⊢
      refine (h.held s hs hready).imp_right ?_
      rintro ⟨f, hf, hsession⟩
      have hne : f ≠ file := by
        rintro rfl
        rw [hdata] at hsession
        exact heq (Option.some.inj hsession).symm
      exact ⟨f, (h.wellformed.files.mem_erase_iff).mpr ⟨hne, hf⟩, hsession⟩

theorem Held.closeFile (h : d.Held) (hdata : (d.files file).private_data = none) : (d.closeFile file).Held where
  wellformed := h.wellformed.closeFile file
  known f hf s hs := h.known f (List.mem_of_mem_erase hf) s hs
  minor f hf s hs hsession := h.minor f (List.mem_of_mem_erase hf) s hs hsession
  distinct := h.distinct
  held s hs hready := by
    refine (h.held s hs hready).imp_right ?_
    rintro ⟨f, hf, hsession⟩
    have hne : f ≠ file := by
      rintro rfl
      rw [hdata] at hsession
      cases hsession
    exact ⟨f, (h.wellformed.files.mem_erase_iff).mpr ⟨hne, hf⟩, hsession⟩

theorem Held.removeSession (h : d.Held) (hmem : session ∈ d.session_queue) : (d.removeSession session).Held := by
  refine h.of_same (h.wellformed.removeSession hmem) (Nat.le_refl _) rfl List.erase_subset (fun _ => rfl)
    (fun _ => rfl) fun other hother => ?_
  have hne := (h.wellformed.sessions.mem_erase_iff.mp hother).1
  rw [removeSession_hbas, Function.update_of_ne hne]
  exact .of_session rfl

theorem Held.change (h : d.Held) {op : DriverOp} (hchange : Change d op d') : d'.Held := by
  have hwellformed := h.wellformed.change hchange
  cases hchange with
  | nothing _ _ _ => exact h
  | opened minor => exact h.addFile minor
  | attached file session pid host hfile hfound =>
    obtain ⟨hmem, hminor⟩ := get_session_mem hfound
    exact h.attach hfile hmem hminor pid
  | created file pid host hfile hnone hfresh =>
    exact (h.addSession hnone hfresh).attach hfile (by simp) (by simp [hba.scsitap_create_session]) pid
  | claimed file session arg host hfile hsession hcall =>
    have hcalled := h.callSession hcall (.apply _ (.inr (.inr ⟨arg, rfl⟩)))
    exact ⟨hwellformed, hcalled.known, hcalled.minor, hcalled.distinct, hcalled.held⟩
  | positioned file arg host hfile =>
    refine h.of_same hwellformed (Nat.le_refl _) rfl (List.Subset.refl _) (private_data_setFile rfl) (fun f => ?_)
      fun _ _ => .of_session rfl
    by_cases heq : f = file
    · subst heq
      simp
    · simp [heq]
  | destroyed file session host hfile hfound hclosed hcall => exact h.removeSession hcall.1
  | written file session user count hfile hsession hcall =>
    exact h.callSession hcall (.apply _ (.inr (.inl ⟨user, count, rfl⟩)))
  | midlayer session op hop hcall => exact h.callSession hcall (.apply _ (.inl hop))
  | closed file session hfile hsession hcall => exact h.closed hsession hcall
  | closedBogus file hfile hsession => exact h.closeFile hsession
  | scanBegun hpending => exact ⟨hwellformed, h.known, h.minor, h.distinct, h.held⟩
  | scanEnded session hscanning => exact ⟨hwellformed, h.known, h.minor, h.distinct, h.held⟩

/-- What can happen when no file is open: a call of the mid layer, or something
that concerns no session. -/
theorem Change.without_files {op : DriverOp} (hchange : Change d op d') (hopened : d.opened = [])
    (hopen : ∀ minor, op ≠ .ctl_open minor) :
    d'.opened = [] ∧ d'.session_queue = d.session_queue ∧
      (d'.hbas = d.hbas ∨ ∃ session call, op = .midlayer session call ∧ call.MidLayer ∧ d.Callable session call ∧
        d'.hbas = Function.update d.hbas session ((d.hbas session).apply call)) := by
  have hnofile : ∀ file, file ∉ d.opened := by
    intro file
    rw [hopened]
    exact List.not_mem_nil
  cases hchange with
  | nothing _ _ _ => exact ⟨hopened, rfl, .inl rfl⟩
  | opened minor => exact absurd rfl (hopen minor)
  | midlayer session call hop hcall => exact ⟨hopened, rfl, .inr ⟨session, call, rfl, hop, hcall, rfl⟩⟩
  | scanBegun hpending => exact ⟨hopened, rfl, .inl rfl⟩
  | scanEnded session hscanning => exact ⟨hopened, rfl, .inl rfl⟩
  | attached file session pid host hfile hfound => exact absurd hfile (hnofile file)
  | created file pid host hfile hnone hfresh => exact absurd hfile (hnofile file)
  | claimed file session arg host hfile hsession hcall => exact absurd hfile (hnofile file)
  | positioned file arg host hfile => exact absurd hfile (hnofile file)
  | destroyed file session host hfile hfound hclosed hcall => exact absurd hfile (hnofile file)
  | written file session user count hfile hsession hcall => exact absurd hfile (hnofile file)
  | closed file session hfile hsession hcall => exact absurd hfile (hnofile file)
  | closedBogus file hfile hsession => exact absurd hfile (hnofile file)

/-- Without a registration there is neither a session nor a file that refers to
one. -/
theorem Change.without_sessions {op : DriverOp} (hchange : Change d op d') (hempty : d.session_queue = [])
    (hnone : ∀ file ∈ d.opened, (d.files file).private_data = none)
    (hregister : ∀ file host pid, op ≠ .ctl_ioctl file host (.register_client pid)) :
    d'.session_queue = [] ∧ ∀ file ∈ d'.opened, (d'.files file).private_data = none := by
  have hnosession : ∀ {file session}, file ∈ d.opened → (d.files file).private_data ≠ some session := by
    intro file session hfile hsession
    rw [hnone file hfile] at hsession
    cases hsession
  cases hchange with
  | nothing _ _ _ => exact ⟨hempty, hnone⟩
  | opened minor =>
    refine ⟨hempty, fun file hfile => ?_⟩
    by_cases heq : file = d.opens
    · simp [heq]
    · simpa [heq] using hnone file (by simpa [heq] using hfile)
  | attached file session pid host hfile hfound => exact absurd rfl (hregister file host pid)
  | created file pid host hfile hnone hfresh => exact absurd rfl (hregister file (some host) pid)
  | claimed file session arg host hfile hsession hcall => exact absurd hsession (hnosession hfile)
  | positioned file arg host hfile =>
    refine ⟨hempty, fun other hother => ?_⟩
    have hsame : ((d.setFile file { d.files file with f_pos := arg }).files other).private_data =
        (d.files other).private_data := private_data_setFile (by rfl) other
    exact hsame.trans (hnone other hother)
  | destroyed file session host hfile hfound hclosed hcall => exact ⟨by simp [hempty], hnone⟩
  | written file session user count hfile hsession hcall => exact absurd hsession (hnosession hfile)
  | midlayer session call hop hcall => exact ⟨hempty, hnone⟩
  | closed file session hfile hsession hcall => exact absurd hsession (hnosession hfile)
  | closedBogus file hfile hsession => exact ⟨hempty, fun other hother => hnone other (List.mem_of_mem_erase hother)⟩
  | scanBegun hpending => exact ⟨hempty, hnone⟩
  | scanEnded session hscanning => exact ⟨hempty, hnone⟩

end Driver

namespace Hba

/-- Nobody counts as a user of the session, it accepts nothing and has nothing
queued. -/
structure AtRest (k : Hba) : Prop where
  closed : k.session.Device_Open = 0
  flags : k.session.flags = .not_ready
  queue : k.queue = []

theorem AtRest.not_usesCache {k : Hba} (h : k.AtRest) (hvalid : k.Valid) (op : Op) : ¬ k.UsesCache op := by
  rintro (⟨sc, slot, rfl, hready⟩ | ⟨task, hfrees⟩)
  · rw [h.flags] at hready
    cases hready
  · have ht := hfrees.queued hvalid
    rw [h.queue] at ht
    cases ht

/-- The mid layer gets no command into a session at rest. -/
theorem AtRest.apply {k : Hba} (h : k.AtRest) (hvalid : k.Valid) {op : Op} (hop : op.MidLayer) (hallowed : k.Allowed op) :
    (k.apply op).AtRest := by
  have hsame := SameControl.apply k (.inl hop)
  refine ⟨hsame.Device_Open.trans h.closed, hsame.flags.trans h.flags, ?_⟩
  have hready : k.session.flags ≠ .ready := by
    rw [h.flags]
    exact nofun
  cases op with
  | prepare sc cmnd mem => exact h.queue
  | queuecommand sc slot =>
    have ha := (scsitap_queuecommand_refused k sc slot hready (hvalid.idle_ptr hallowed.1)).2
    change (scsitap_queuecommand k sc slot).2.queue = []
    rw [Hba.queue, ha.session]
    exact h.queue
  | eh_abort sc =>
    have hkept := (hvalid.apply_evolves hallowed (by simp)).kept
    refine List.eq_nil_iff_forall_not_mem.mpr fun task ht => ?_
    have hold := (hkept task ht).queued
    rw [h.queue] at hold
    cases hold
  | eh_host_reset => exact hvalid.eh_host_reset.2
  | read f_pos user count => exact hop.elim
  | write user count => exact hop.elim
  | receive_task arg => exact hop.elim
  | register_client pid => exact hop.elim
  | unregister_client => exact hop.elim
  | release => exact hop.elim

/-- A call of the mid layer that gives no slot back leaves what is queued. -/
theorem queue_subset_of_kept {k : Hba} {op : Op} (hop : op.MidLayer) (hcache : ¬ k.UsesCache op) :
    k.queue ⊆ (k.apply op).queue := by
  cases op with
  | prepare sc cmnd mem => exact List.Subset.refl _
  | queuecommand sc slot =>
    have hready : k.session.flags ≠ .ready := fun hready => hcache (.inl ⟨sc, slot, rfl, hready⟩)
    change k.queue ⊆ (scsitap_queuecommand k sc slot).2.queue
    simp [queue, scsitap_queuecommand, hready]
  | eh_abort sc =>
    have hnone : (k.cmnds sc).SCp_ptr = none := by
      by_contra hsome
      obtain ⟨task, htask⟩ := Option.ne_none_iff_exists'.mp hsome
      exact hcache (.inr ⟨task, htask⟩)
    change k.queue ⊆ (scsitap_eh_abort k sc).2.queue
    simp [scsitap_eh_abort, hnone]
  | eh_host_reset =>
    intro task ht
    exact absurd (.inr ⟨task, ht⟩) hcache
  | read f_pos user count => exact hop.elim
  | write user count => exact hop.elim
  | receive_task arg => exact hop.elim
  | register_client pid => exact hop.elim
  | unregister_client => exact hop.elim
  | release => exact hop.elim

end Hba

namespace DriverModule

variable {m m' : DriverModule}

/-- The invariant of a module that is used with care. -/
structure Sound (m : DriverModule) : Prop where
  held : m.driver.Held
  early : ¬ m.stage.HasSessions → m.driver.session_queue = [] ∧
    ∀ file ∈ m.driver.opened, (m.driver.files file).private_data = none
  closed : ¬ m.stage.HasDevice → m.driver.opened = []
  rest : ∀ rest, m.stage = .unloading rest → rest = m.driver.session_queue ∧
    ∀ session ∈ m.driver.session_queue, (m.driver.hbas session).AtRest
  done : m.stage = .unloaded → m.driver.session_queue = []

theorem Sound.initial (h : Initial m) : m.Sound := by
  obtain ⟨hstage, hdriver⟩ := h
  have hheld := Driver.Held.initial hdriver
  obtain ⟨_, hqueue, _, _, hopened, _⟩ := hdriver
  refine ⟨hheld, fun _ => ⟨hqueue, ?_⟩, fun _ => hopened, ?_, ?_⟩
  · rw [hopened]
    exact fun file hfile => absurd hfile List.not_mem_nil
  · intro rest hrest
    rw [hstage] at hrest
    cases hrest
  · intro hrest
    rw [hstage] at hrest
    cases hrest

/-- Without the cache there are no files, and sessions at rest only. -/
theorem Sound.without_cache (h : m.Sound) (hcache : ¬ m.stage.HasCache) :
    m.driver.opened = [] ∧ ∀ session ∈ m.driver.session_queue, (m.driver.hbas session).AtRest := by
  have hnone : m.driver.session_queue = [] → ∀ session ∈ m.driver.session_queue, (m.driver.hbas session).AtRest := by
    intro hempty session hmem
    rw [hempty] at hmem
    cases hmem
  cases hstage : m.stage with
  | loading | failed =>
    refine ⟨h.closed (by rw [hstage]; exact id), hnone (h.early ?_).1⟩
    rw [hstage]
    exact id
  | unloading rest => exact ⟨h.closed (by rw [hstage]; exact id), (h.rest rest hstage).2⟩
  | unloaded => exact ⟨h.closed (by rw [hstage]; exact id), hnone (h.done hstage)⟩
  | cached | registered | listed | locked | loaded =>
    rw [hstage] at hcache
    exact absurd trivial hcache

/-- With care, a step finds what it uses. -/
theorem Sound.orderly (h : m.Sound) {op : ModuleOp} (hcareful : m.Careful op) (hallowed : m.Allowed op) :
    m.Orderly op := by
  constructor
  · intro huses
    cases op with
    | init succeeds => exact huses.elim
    | driver op =>
      cases op with
      | ctl_ioctl file host request =>
        cases request with
        | register_client pid => exact hcareful
        | unregister_client => exact hcareful
        | receive_task arg => exact huses.elim
        | set_task arg => exact huses.elim
        | unknown => exact huses.elim
      | ctl_release file =>
        by_contra hnot
        exact huses ((h.early hnot).2 file hallowed.1.1)
      | ctl_open minor => exact huses.elim
      | ctl_read file user count => exact huses.elim
      | ctl_write file user count => exact huses.elim
      | midlayer session op => exact huses.elim
      | scan_begin => exact huses.elim
      | scan_end session => exact huses.elim
    | cleanup =>
      rw [hallowed.1]
      trivial
    | cleanup_next =>
      rcases hallowed with hstage | ⟨session, rest, hstage, -⟩ <;> rw [hstage] <;> trivial
  · intro huses
    by_contra hcache
    obtain ⟨hopened, hrest⟩ := h.without_cache hcache
    have hnofile : ∀ file, file ∉ m.driver.opened := by
      intro file
      rw [hopened]
      exact List.not_mem_nil
    have hunused : ∀ session ∈ m.driver.session_queue, ∀ op, ¬ (m.driver.hbas session).UsesCache op := fun session hmem =>
      (hrest session hmem).not_usesCache (h.held.wellformed.valid session hmem)
    cases op with
    | init succeeds => exact huses
    | driver op =>
      cases op with
      | midlayer session op => exact hunused session hallowed.1.2.1 op huses
      | ctl_write file user count => exact hnofile file hallowed.1.1
      | ctl_ioctl file host request =>
        cases request with
        | unregister_client => exact hnofile file hallowed.1.1
        | register_client pid => exact huses
        | receive_task arg => exact huses
        | set_task arg => exact huses
        | unknown => exact huses
      | ctl_open minor => exact huses
      | ctl_read file user count => exact huses
      | ctl_release file => exact huses
      | scan_begin => exact huses
      | scan_end session => exact huses
    | cleanup => exact huses
    | cleanup_next =>
      obtain ⟨session, rest, hstage, hcache⟩ := huses
      have hmem : session ∈ m.driver.session_queue := by
        rw [← (h.rest _ hstage).1]
        exact List.mem_cons_self
      exact hunused session hmem _ hcache

theorem Sound.driver (h : m.Sound) {op : DriverOp} (hcareful : m.Careful (.driver op))
    (hallowed : m.Allowed (.driver op)) : (m.apply (.driver op)).Sound := by
  have hchange := Driver.Step.change ⟨hallowed.1, rfl⟩
  change ({ m with driver := m.driver.apply op } : DriverModule).Sound
  generalize m.driver.apply op = d' at hchange ⊢
  have hwithout := fun hdevice : ¬ m.stage.HasDevice =>
    hchange.without_files (h.closed hdevice) fun minor hop => hdevice (hallowed.2.1 minor hop)
  refine ⟨h.held.change hchange, fun hearly => ?_, fun hdevice => (hwithout hdevice).1, fun rest hstage => ?_,
    fun hstage => absurd hstage hallowed.2.2⟩
  · obtain ⟨hempty, hnone⟩ := h.early hearly
    refine hchange.without_sessions hempty hnone ?_
    rintro file host pid rfl
    exact hearly hcareful
  · have hdevice : ¬ m.stage.HasDevice := by
      rw [show m.stage = .unloading rest from hstage]
      exact id
    obtain ⟨hlist, hrest⟩ := h.rest rest hstage
    obtain ⟨_, hqueue, hhbas⟩ := hwithout hdevice
    refine ⟨hlist.trans hqueue.symm, fun session hmem => ?_⟩
    have hold : session ∈ m.driver.session_queue := hqueue ▸ hmem
    rcases hhbas with hsame | ⟨other, call, _, hop, hcall, hupdated⟩
    · exact (congrFun hsame session) ▸ hrest session hold
    · change (d'.hbas session).AtRest
      rw [hupdated]
      by_cases heq : session = other
      · subst heq
        simpa using (hrest session hold).apply (h.held.wellformed.valid session hold) hop hcall.2.2
      · simpa [heq] using hrest session hold

/-- The steps of `scsitap_init` find the list of sessions empty. -/
theorem Sound.init (h : m.Sound) (succeeds : Bool) (hallowed : m.Allowed (.init succeeds)) :
    (m.apply (.init succeeds)).Sound := by
  obtain ⟨stage, d⟩ := m
  have hheld := h.held
  have hearly := h.early
  have hclosed := h.closed
  simp only [Allowed, List.mem_cons, List.not_mem_nil, or_false] at hallowed
  rcases hallowed with rfl | rfl | rfl | rfl | rfl
  · cases succeeds
    · exact ⟨hheld, fun _ => hearly id, fun _ => hclosed id, nofun, nofun⟩
    · exact ⟨hheld, fun _ => hearly id, fun _ => hclosed id, nofun, nofun⟩
  · cases succeeds
    · exact ⟨hheld, fun _ => hearly id, fun _ => hclosed id, nofun, nofun⟩
    · exact ⟨hheld, fun _ => hearly id, fun _ => hclosed id, nofun, nofun⟩
  · obtain ⟨hempty, hnone⟩ := hearly id
    have hsame : ({ d with session_queue := [] } : Driver) = d := by rw [← hempty]
    change DriverModule.Sound { stage := .listed, driver := { d with session_queue := [] } }
    rw [hsame]
    exact ⟨hheld, fun _ => ⟨hempty, hnone⟩, fun hno => absurd trivial hno, nofun, nofun⟩
  · exact ⟨hheld, fun hno => absurd trivial hno, fun hno => absurd trivial hno, nofun, nofun⟩
  · have hwellformed := hheld.wellformed
    have hreset : ({ d with last_id := 0 } : Driver).Held := hheld.of_same
      ⟨hwellformed.created, hwellformed.sessions, hwellformed.opens, hwellformed.files, hwellformed.valid⟩
      (Nat.le_refl _) rfl (List.Subset.refl _) (fun _ => rfl) (fun _ => rfl) fun _ _ => .of_session rfl
    exact ⟨hreset, fun hno => absurd trivial hno, fun hno => absurd trivial hno, nofun, nofun⟩

/-- When no file is open, a session that does not count as open accepts
nothing. -/
theorem Sound.cleanup (h : m.Sound) (hcareful : m.Careful .cleanup) (hallowed : m.Allowed .cleanup) :
    (m.apply .cleanup).Sound := by
  refine ⟨h.held, fun hno => absurd trivial hno, fun _ => hallowed.2, fun rest hstage => ?_, nofun⟩
  refine ⟨(Stage.unloading.inj hstage).symm, fun session hmem => ?_⟩
  obtain ⟨hclosed, hqueue⟩ := hcareful session hmem
  refine ⟨hclosed, ?_, hqueue⟩
  cases hflags : (m.driver.hbas session).session.flags with
  | not_ready => exact hflags
  | ready =>
    rcases h.held.held session hmem hflags with hopen | ⟨file, hfile, _⟩
    · exact absurd hclosed hopen
    · rw [hallowed.2] at hfile
      cases hfile

/-- The loop destroys every session it visits. -/
theorem Sound.cleanup_next (h : m.Sound) (hallowed : m.Allowed .cleanup_next) : (m.apply .cleanup_next).Sound := by
  obtain ⟨stage, d⟩ := m
  have hheld := h.held
  have hclosed := h.closed
  rcases hallowed with rfl | ⟨session, rest, rfl, -⟩
  · exact ⟨hheld, fun hno => absurd trivial hno, fun _ => hclosed id, nofun, fun _ => (h.rest [] rfl).1.symm⟩
  · obtain ⟨hlist, hrest⟩ := h.rest _ rfl
    change session :: rest = d.session_queue at hlist
    have hmem : session ∈ d.session_queue := by
      rw [← hlist]
      exact List.mem_cons_self
    have hnext : (scsitap_destroy_session d session).2 = d.removeSession session := by
      rw [driver.scsitap_destroy_session, if_neg (not_not.mpr (hrest session hmem).closed)]
    change DriverModule.Sound { stage := .unloading rest, driver := (scsitap_destroy_session d session).2 }
    rw [hnext]
    refine ⟨hheld.removeSession hmem, fun hno => absurd trivial hno, fun _ => hclosed id, fun rest' hstage => ?_, fun hstage => by cases hstage⟩
    obtain rfl := Stage.unloading.inj hstage
    refine ⟨?_, fun other hother => ?_⟩
    · simp [← hlist]
    · obtain ⟨hne, hold⟩ := hheld.wellformed.sessions.mem_erase_iff.mp hother
      simpa [hne] using hrest other hold

theorem Sound.step (h : m.Sound) {op : ModuleOp} (hcareful : m.Careful op) (hstep : m.Step op m') : m'.Sound := by
  obtain ⟨hallowed, rfl⟩ := hstep
  cases op with
  | init succeeds => exact h.init succeeds hallowed
  | driver op => exact h.driver hcareful hallowed
  | cleanup => exact h.cleanup hcareful hallowed
  | cleanup_next => exact h.cleanup_next hallowed

/-- The module goes away while a session has a user, or a command queued whose
slot can no longer be given back. -/
structure Stuck (session : Nat) (m : DriverModule) : Prop where
  stage : (∃ rest, m.stage = .unloading rest) ∨ m.stage = .unloaded
  opened : m.driver.opened = []
  mem : session ∈ m.driver.session_queue
  busy : (m.driver.hbas session).session.Device_Open ≠ 0 ∨ (m.driver.hbas session).queue ≠ []

variable {session : Nat}

theorem Stuck.no_cache (h : Stuck session m) : ¬ m.stage.HasCache := by
  rcases h.stage with ⟨rest, hstage⟩ | hstage <;> rw [hstage] <;> exact id

theorem Stuck.driver (h : Stuck session m) {op : DriverOp} (horderly : m.Orderly (.driver op))
    (hallowed : m.Allowed (.driver op)) : Stuck session (m.apply (.driver op)) := by
  have hchange := Driver.Step.change ⟨hallowed.1, rfl⟩
  have hdevice : ¬ m.stage.HasDevice := by
    rcases h.stage with ⟨rest, hstage⟩ | hstage <;> rw [hstage] <;> exact id
  obtain ⟨hopened, hqueue, hhbas⟩ := hchange.without_files h.opened fun minor hop => hdevice (hallowed.2.1 minor hop)
  change Stuck session { m with driver := m.driver.apply op }
  generalize m.driver.apply op = d' at *
  refine ⟨h.stage, hopened, hqueue ▸ h.mem, ?_⟩
  change (d'.hbas session).session.Device_Open ≠ 0 ∨ (d'.hbas session).queue ≠ []
  rcases hhbas with hsame | ⟨other, call, rfl, hop, hcall, hupdated⟩
  · rw [hsame]
    exact h.busy
  · rw [hupdated]
    by_cases heq : session = other
    · subst heq
      rw [Function.update_self, (Hba.SameControl.apply _ (.inl hop)).Device_Open]
      refine h.busy.imp_right fun hne hempty => hne ?_
      have hkept := Hba.queue_subset_of_kept hop fun huses => h.no_cache (horderly.2 huses)
      rw [hempty] at hkept
      exact List.subset_nil.mp hkept
    · rw [Function.update_of_ne heq]
      exact h.busy

theorem Stuck.cleanup_next (h : Stuck session m) (horderly : m.Orderly .cleanup_next) (hallowed : m.Allowed .cleanup_next) :
    Stuck session (m.apply .cleanup_next) := by
  have hcache := h.no_cache
  obtain ⟨stage, d⟩ := m
  rcases hallowed with rfl | ⟨visited, rest, rfl, -⟩
  · exact ⟨.inr rfl, h.opened, h.mem, h.busy⟩
  · change Stuck session { stage := .unloading rest, driver := (scsitap_destroy_session d visited).2 }
    by_cases hclosed : (d.hbas visited).session.Device_Open = 0
    · rw [driver.scsitap_destroy_session, if_neg (not_not.mpr hclosed)]
      have hne : session ≠ visited := by
        rintro rfl
        have hqueue := h.busy.resolve_left (not_not.mpr hclosed)
        obtain ⟨task, ht⟩ := List.exists_mem_of_ne_nil _ hqueue
        exact hcache (horderly.2 ⟨session, rest, rfl, .inr ⟨task, hclosed, ht⟩⟩)
      refine ⟨.inl ⟨rest, rfl⟩, h.opened, (List.mem_erase_of_ne hne).mpr h.mem, ?_⟩
      simpa [hne] using h.busy
    · rw [driver.scsitap_destroy_session, if_pos hclosed]
      exact ⟨.inl ⟨rest, rfl⟩, h.opened, h.mem, h.busy⟩

theorem Stuck.step (h : Stuck session m) {op : ModuleOp} (horderly : m.Orderly op) (hstep : m.Step op m') :
    Stuck session m' := by
  obtain ⟨hallowed, rfl⟩ := hstep
  cases op with
  | init succeeds =>
    simp only [Allowed, List.mem_cons, List.not_mem_nil, or_false] at hallowed
    rcases h.stage with ⟨rest, hstage⟩ | hstage <;> simp [hstage] at hallowed
  | driver op => exact h.driver horderly hallowed
  | cleanup => rcases h.stage with ⟨rest, hstage⟩ | hstage <;> simp [hstage, Allowed] at hallowed
  | cleanup_next => exact h.cleanup_next horderly hallowed

/-- In a run that ends with the module gone, every step finds what it uses and
no session is left, exactly if nobody registers or unregisters too early and
`scsitap_cleanup` finds no session with a user or a queued command. -/
theorem lifecycle_iff {start : DriverModule} {trace : List (DriverModule × ModuleOp)} (hinit : Initial start)
    (hrun : Run Step start trace m) (hend : m.stage = .unloaded) :
    ((∀ e ∈ trace, e.1.Orderly e.2) ∧ m.driver.session_queue = []) ↔ ∀ e ∈ trace, e.1.Careful e.2 := by
  constructor
  · rintro ⟨horderly, hempty⟩ ⟨state, op⟩ he
    cases op with
    | init succeeds => trivial
    | driver op =>
      cases op with
      | ctl_ioctl file host request =>
        cases request with
        | register_client pid => exact (horderly _ he).1 trivial
        | unregister_client => exact (horderly _ he).1 trivial
        | receive_task arg => trivial
        | set_task arg => trivial
        | unknown => trivial
      | _ => trivial
    | cleanup =>
      intro session hmem
      by_contra hnot
      have hbusy := not_and_or.mp hnot
      obtain ⟨before, after, rfl⟩ := List.append_of_mem he
      obtain ⟨_, next, ⟨hallowed, rfl⟩, hrest⟩ := hrun.split
      have hstuck : Stuck session (state.apply .cleanup) := ⟨.inl ⟨_, rfl⟩, hallowed.2, hmem, hbusy⟩
      have hleft := hrest.invariant_of_steps (C := Orderly) (P := Stuck session) hstuck
        (fun _ _ _ hs ho hstep => hs.step ho hstep)
        fun e he => horderly e (List.mem_append_right _ (List.mem_cons_of_mem _ he))
      have hmember := hleft.mem
      rw [hempty] at hmember
      cases hmember
    | cleanup_next => trivial
  · intro hcareful
    have hsound : ∀ {before state}, Run Step start before state → (∀ e ∈ before, e.1.Careful e.2) → state.Sound :=
      fun hrun hsteps => hrun.invariant_of_steps (.initial hinit) (fun _ _ _ hs hc hstep => hs.step hc hstep) hsteps
    refine ⟨fun e he => ?_, (hsound hrun hcareful).done hend⟩
    obtain ⟨before, after, rfl⟩ := List.append_of_mem he
    obtain ⟨hbefore, _, hstep, _⟩ := hrun.split
    have hstate := hsound hbefore fun e' he' => hcareful e' (List.mem_append_left _ he')
    exact hstate.orderly (hcareful e he) hstep.1

/-- The module before `scsitap_init`, with cleared memory. -/
def unborn : DriverModule := { stage := .loading, driver := .loaded }

/-- The module once `scsitap_init` has returned. -/
def atWork (d : Driver) : DriverModule := { stage := .loaded, driver := d }

theorem init_run : ∃ trace, Run Step unborn trace (atWork .loaded) ∧ ∀ e ∈ trace, e.1.Careful e.2 := by
  have hstep : ∀ stage ∈ [Stage.loading, .cached, .registered, .listed, .locked],
      Step { stage, driver := .loaded } (.init true) (apply { stage, driver := .loaded } (.init true)) :=
    fun stage hstage => ⟨hstage, rfl⟩
  have hrun := ((((Run.nil.snoc (hstep .loading (by simp))).snoc (hstep .cached (by simp))).snoc
    (hstep .registered (by simp))).snoc (hstep .listed (by simp))).snoc (hstep .locked (by simp))
  refine ⟨_, hrun, fun e he => ?_⟩
  simp only [List.nil_append, List.cons_append, List.mem_cons, List.not_mem_nil, or_false] at he
  rcases he with rfl | rfl | rfl | rfl | rfl <;> trivial

/-- Once it is loaded, the module runs as its driver does. -/
theorem driver_run {d d' : Driver} {trace : List (Driver × DriverOp)} (hrun : Run Driver.Step d trace d') :
    ∃ trace', Run Step (atWork d) trace' (atWork d') ∧ ∀ e ∈ trace', e.1.Careful e.2 := by
  induction hrun with
  | nil => exact ⟨[], .nil, fun e he => absurd he List.not_mem_nil⟩
  | @snoc trace state next op run hstep ih =>
    obtain ⟨trace', hrun', hcareful⟩ := ih
    have hdriver : Step (atWork state) (.driver op) (atWork next) :=
      ⟨⟨hstep.1, fun _ _ => trivial, nofun⟩, by rw [hstep.2]; rfl⟩
    refine ⟨_, hrun'.snoc hdriver, fun e he => ?_⟩
    rcases List.mem_append.mp he with he | he
    · exact hcareful e he
    · rw [List.mem_singleton.mp he]
      cases op with
      | ctl_ioctl file host request => cases request <;> trivial
      | _ => trivial

/-- The end of a module with one session and no open file. -/
theorem cleanup_run {d : Driver} (hopened : d.opened = []) (hqueue : d.session_queue = [0])
    (hlock : (d.hbas 0).session.scsitap_queue_lock = false) :
    Run Step (atWork d) [(atWork d, .cleanup), ({ stage := .unloading [0], driver := d }, .cleanup_next),
        ({ stage := .unloading [], driver := (scsitap_destroy_session d 0).2 }, .cleanup_next)]
      { stage := .unloaded, driver := (scsitap_destroy_session d 0).2 } := by
  have hcleanup : Step (atWork d) .cleanup { stage := .unloading [0], driver := d } :=
    ⟨⟨rfl, hopened⟩, by rw [← hqueue]; rfl⟩
  have hvisit : Step { stage := .unloading [0], driver := d } .cleanup_next
      { stage := .unloading [], driver := (scsitap_destroy_session d 0).2 } :=
    ⟨.inr ⟨0, [], rfl, fun _ => hlock⟩, rfl⟩
  have hend : Step { stage := .unloading [], driver := (scsitap_destroy_session d 0).2 } .cleanup_next
      { stage := .unloaded, driver := (scsitap_destroy_session d 0).2 } := ⟨.inl rfl, rfl⟩
  exact ((Run.nil.snoc hcleanup).snoc hvisit).snoc hend

/-- The only target dies with a command queued, and the module is unloaded. -/
def abandoned : Driver := (Driver.oneQueued.callSession 0 .release).closeFile 0

theorem freed_after_destroy : ¬ ∀ start m trace, Initial start → Run Step start trace m → m.stage = .unloaded →
    (∀ e ∈ trace, e.1.Orderly e.2) ∧ m.driver.session_queue = [] := by
  intro hall
  obtain ⟨dtrace, hdriver, -⟩ := Driver.oneQueued_run
  have hrelease : Driver.oneQueued.Step (.ctl_release 0) abandoned :=
    Driver.release_step (List.mem_singleton.mpr rfl) rfl (by decide)
  obtain ⟨_, hinit, -⟩ := init_run
  obtain ⟨_, hwork, -⟩ := driver_run (hdriver.snoc hrelease)
  have hend := cleanup_run (d := abandoned) rfl rfl rfl
  obtain ⟨horderly, -⟩ := hall _ _ _ ⟨rfl, Driver.loaded_initial⟩ ((hinit.append hwork).append hend) rfl
  have hvisit := horderly ({ stage := .unloading [0], driver := abandoned }, .cleanup_next) (by simp)
  exact hvisit.2 ⟨0, [], rfl, .inr ⟨8, rfl, by decide⟩⟩

/-- The only target dies with nothing queued. -/
def idle : Driver := ((((Driver.loaded.addFile 0).afterRegister 0).callSession 0 .release).closeFile 0)

/-- Then the module is unloaded. -/
theorem lifecycle_one_session : ∃ trace,
    Run Step unborn trace { stage := .unloaded, driver := (scsitap_destroy_session idle 0).2 } ∧
    (∀ e ∈ trace, e.1.Orderly e.2) ∧ (scsitap_destroy_session idle 0).2.session_queue = [] := by
  have hdriver := (Run.nil.snoc (Driver.open_step .loaded 0)).snoc (Driver.register_step 0 (List.mem_singleton.mpr rfl))
  have hrelease : ((Driver.loaded.addFile 0).afterRegister 0).Step (.ctl_release 0) idle :=
    Driver.release_step (List.mem_singleton.mpr rfl) rfl (by decide)
  obtain ⟨_, hinit, hfirst⟩ := init_run
  obtain ⟨_, hwork, hsecond⟩ := driver_run (hdriver.snoc hrelease)
  have hend := cleanup_run (d := idle) rfl rfl rfl
  have hrun := (hinit.append hwork).append hend
  refine ⟨_, hrun, (lifecycle_iff ⟨rfl, Driver.loaded_initial⟩ hrun rfl).mpr ?_⟩
  intro e he
  rcases List.mem_append.mp he with he | he
  · rcases List.mem_append.mp he with he | he
    · exact hfirst e he
    · exact hsecond e he
  · simp only [List.mem_cons, List.not_mem_nil, or_false] at he
    rcases he with rfl | rfl | rfl
    · intro session hmem
      obtain rfl := List.mem_singleton.mp hmem
      exact ⟨rfl, rfl⟩
    · trivial
    · trivial

end DriverModule

end vscsi
