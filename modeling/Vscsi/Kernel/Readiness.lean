import Vscsi.Kernel.Protection
import Vscsi.Kernel.Queuecommand

open lib

namespace vscsi

open hba device

namespace Driver

open driver

variable {d d' : Driver} {file session other : Nat}

/-- Some open file is registered with the session. -/
def HasTarget (d : Driver) (session : Nat) : Prop :=
  ∃ file ∈ d.opened, (d.files file).private_data = some session

theorem hasTarget_iff : d.HasTarget session ↔ d.registered session ≠ [] := by
  simp [HasTarget, registered, List.filter_eq_nil_iff]

/-- A command for which there is a slot joins the queue. -/
def Accepts (d : Driver) (session : Nat) : Prop :=
  ∀ sc slot, (scsitap_queuecommand (d.hbas session) sc (some slot)).2.queue = (d.hbas session).queue ++ [slot]

theorem accepts_iff_ready : d.Accepts session ↔ (d.hbas session).session.flags = .ready := by
  constructor
  · intro haccepts
    by_contra hready
    have hqueue := haccepts 0 0
    rw [scsitap_queuecommand, if_pos hready] at hqueue
    have hlength := congrArg List.length hqueue
    simp [Hba.queue] at hlength
  · intro hready sc slot
    exact (scsitap_queuecommand_accepted _ sc slot hready).2.queue

/-- Every session is ready, takes commands and cannot be removed exactly while
it has a target. -/
def Truthful (d : Driver) : Prop :=
  ∀ session ∈ d.session_queue,
    ((d.hbas session).session.flags = .ready ↔ d.HasTarget session) ∧
    (d.Accepts session ↔ d.HasTarget session) ∧
    ((driver.scsitap_destroy_session d session).1 = 0 ↔ ¬ d.HasTarget session)

/-- No file registers that is registered already. -/
def RegistersOnce (d : Driver) : DriverOp → Prop
  | .ctl_ioctl file _ (.register_client _) => (d.files file).private_data = none
  | _ => True

/-- At most 255 files are open. -/
def FewFiles (d : Driver) : Prop := d.opened.length ≤ 255

/-- Every session counts just the files registered with it, and is ready as long
as there are any. -/
structure Exact (d : Driver) : Prop where
  counted : d.Counted
  exact : ∀ session ∈ d.session_queue, (d.hbas session).session.Device_Open.toNat ≤ (d.registered session).length
  ready : ∀ session ∈ d.session_queue,
    (d.hbas session).session.flags = .ready ↔ (d.hbas session).session.Device_Open ≠ 0

theorem Exact.initial (h : Initial d) : d.Exact := by
  have hcounted := Counted.initial h
  obtain ⟨_, hqueue, _⟩ := h
  constructor <;> simp [hqueue, hcounted]

/-- The count is zero exactly when nobody is registered. -/
theorem Exact.Device_Open_iff (h : d.Exact) (hmem : session ∈ d.session_queue) :
    (d.hbas session).session.Device_Open = 0 ↔ ¬ d.HasTarget session := by
  have hle := h.counted.counted session hmem
  have hge := h.exact session hmem
  rw [hasTarget_iff, not_not, ← List.length_eq_zero_iff, ← UInt8.toNat_inj, UInt8.toNat_zero]
  omega

theorem Exact.truthful (h : d.Exact) : d.Truthful := by
  intro session hmem
  have htarget := h.Device_Open_iff hmem
  have hready : (d.hbas session).session.flags = .ready ↔ d.HasTarget session := by
    rw [h.ready session hmem, ne_eq, htarget, not_not]
  refine ⟨hready, accepts_iff_ready.trans hready, ?_⟩
  rw [← htarget, driver.scsitap_destroy_session]
  split <;> simp_all

/-- A file that registers for the first time finds room in the count. -/
theorem Exact.not_full (h : d.Exact) (hfile : file ∈ d.opened) (hdata : (d.files file).private_data = none)
    (hfew : d.FewFiles) (hmem : session ∈ d.session_queue) : (d.hbas session).session.Device_Open ≠ 255 := by
  intro hfull
  have hnot : file ∉ d.registered session := fun hmem => by simp [(mem_registered.mp hmem).2] at hdata
  have hnodup : (file :: d.registered session).Nodup :=
    List.nodup_cons.mpr ⟨hnot, h.counted.wellformed.files.filter _⟩
  have hsub : file :: d.registered session ⊆ d.opened := by
    intro f hf
    rcases List.mem_cons.mp hf with rfl | hf
    · exact hfile
    · exact (mem_registered.mp hf).1
  have hle := length_le_of_subset hnodup hsub
  have hcount := h.exact session hmem
  rw [hfull] at hcount
  have hmax : (255 : UInt8).toNat = 255 := rfl
  have hfew' : d.opened.length ≤ 255 := hfew
  rw [List.length_cons] at hle
  omega

/-- The registered files are those there were, and the one that registers. -/
theorem registered_attach_ge (h : d.Wellformed) (hfile : file ∈ d.opened) (hdata : (d.files file).private_data = none)
    (session : Nat) (pid : UInt32) :
    (d.registered session).length + 1 ≤ ((d.attach file session pid).registered session).length := by
  have hnot : file ∉ d.registered session := fun hmem => by simp [(mem_registered.mp hmem).2] at hdata
  have hnodup : (file :: d.registered session).Nodup := List.nodup_cons.mpr ⟨hnot, h.files.filter _⟩
  refine length_le_of_subset hnodup ?_
  intro f hf
  rcases List.mem_cons.mp hf with rfl | hf
  · exact mem_registered.mpr ⟨hfile, by simp⟩
  · obtain ⟨hopened, hdata'⟩ := mem_registered.mp hf
    refine mem_registered.mpr ⟨hopened, ?_⟩
    by_cases heq : f = file
    · simp [heq]
    · simpa [heq] using hdata'

/-- The files of a session all stay registered when a new one registers. -/
theorem registered_attach_other_ge (h : d.Wellformed) (hdata : (d.files file).private_data = none)
    (session other : Nat) (pid : UInt32) :
    (d.registered other).length ≤ ((d.attach file session pid).registered other).length := by
  refine length_le_of_subset (h.files.filter _) ?_
  intro f hf
  obtain ⟨hopened, hdata'⟩ := mem_registered.mp hf
  have hne : f ≠ file := by
    rintro rfl
    simp [hdata] at hdata'
  exact mem_registered.mpr ⟨hopened, by simpa [hne] using hdata'⟩

/-- A file that is closed takes one registration with it, at most. -/
theorem registered_closeFile_ge (h : d.Wellformed) (file session : Nat) :
    (d.registered session).length ≤ ((d.closeFile file).registered session).length + 1 := by
  refine length_le_of_subset (h.files.filter _) (show _ ⊆ file :: (d.closeFile file).registered session from ?_)
  intro f hf
  obtain ⟨hopened, hdata⟩ := mem_registered.mp hf
  by_cases heq : f = file
  · rw [heq]
    exact List.mem_cons_self
  · refine List.mem_cons_of_mem _ (mem_registered.mpr ⟨?_, hdata⟩)
    exact h.files.mem_erase_iff.mpr ⟨heq, hopened⟩

theorem registered_closeFile_other (h : d.Wellformed) (hdata : (d.files file).private_data ≠ some other) :
    (d.registered other).length ≤ ((d.closeFile file).registered other).length := by
  refine length_le_of_subset (h.files.filter _) ?_
  intro f hf
  obtain ⟨hopened, hdata'⟩ := mem_registered.mp hf
  have hne : f ≠ file := by
    rintro rfl
    exact hdata hdata'
  exact mem_registered.mpr ⟨h.files.mem_erase_iff.mpr ⟨hne, hopened⟩, hdata'⟩

/-- Calls that leave the count and the flags alone. -/
theorem Exact.callSession (h : d.Exact) {op : Op} (hcounted : (d.callSession session op).Counted)
    (hsame : Hba.SameControl (d.hbas session) ((d.hbas session).apply op)) : (d.callSession session op).Exact where
  counted := hcounted
  exact s hs := by
    have hregistered : (d.callSession session op).registered s = d.registered s := registered_congr rfl (fun _ _ => rfl) s
    rw [hregistered]
    by_cases heq : s = session
    · subst heq
      simpa [hsame.Device_Open] using h.exact s hs
    · simpa [heq] using h.exact s hs
  ready s hs := by
    by_cases heq : s = session
    · subst heq
      simpa [hsame.Device_Open, hsame.flags] using h.ready s hs
    · simpa [heq] using h.ready s hs

theorem Exact.addSession (h : d.Exact) (id : UInt32) {host : HostMemory}
    (hfresh : ∀ sc, (host.cmnds sc).SCp_ptr = none) : (d.addSession id host).Exact where
  counted := h.counted.addSession id hfresh
  exact s hs := by
    have hregistered : (d.addSession id host).registered s = d.registered s := registered_congr rfl (fun _ _ => rfl) s
    rw [hregistered]
    by_cases heq : s = d.created
    · simp [heq, hba.scsitap_create_session]
    · have hold : s ∈ d.session_queue := by simpa [heq] using hs
      simpa [heq] using h.exact s hold
  ready s hs := by
    by_cases heq : s = d.created
    · simp [heq, hba.scsitap_create_session]
    · have hold : s ∈ d.session_queue := by simpa [heq] using hs
      simpa [heq] using h.ready s hold

theorem Exact.attach (h : d.Exact) (hfile : file ∈ d.opened) (hdata : (d.files file).private_data = none)
    (pid : UInt32) (hcounted : (d.attach file session pid).Counted)
    (hcount : (d.hbas session).session.Device_Open ≠ 255) : (d.attach file session pid).Exact where
  counted := hcounted
  exact s hs := by
    by_cases heq : s = session
    · subst heq
      have hge := registered_attach_ge h.counted.wellformed hfile hdata s pid
      have hbefore := h.exact s hs
      simp only [attach_hbas, Function.update_self, Hba.apply, scsitap_ioctl_register_client, UInt8.toNat_add,
        UInt8.toNat_one]
      omega
    · have hge := registered_attach_other_ge h.counted.wellformed hdata session s pid
      simp only [attach_hbas, Function.update_of_ne heq]
      exact Nat.le_trans (h.exact s hs) hge
  ready s hs := by
    by_cases heq : s = session
    · subst heq
      have hgrown : (d.hbas s).session.Device_Open + 1 ≠ 0 := by
        intro hzero
        have hmax : (d.hbas s).session.Device_Open.toNat ≠ 255 := fun heq => hcount (UInt8.toNat_inj.mp heq)
        have hsmall := (d.hbas s).session.Device_Open.toNat_lt
        have hsum := congrArg UInt8.toNat hzero
        simp only [UInt8.toNat_add, UInt8.toNat_one, UInt8.toNat_zero] at hsum
        omega
      simp [Hba.apply, scsitap_ioctl_register_client, hgrown]
    · simpa [heq] using h.ready s hs

theorem Exact.closed (h : d.Exact) (hfile : file ∈ d.opened) (hdata : (d.files file).private_data = some session) :
    ((d.callSession session .release).closeFile file).Exact where
  counted := h.counted.closed hfile hdata
  exact s hs := by
    have hregistered : ((d.callSession session .release).closeFile file).registered s = (d.closeFile file).registered s :=
      registered_congr rfl (fun _ _ => rfl) s
    rw [hregistered]
    by_cases heq : s = session
    · subst heq
      have hge := registered_closeFile_ge h.counted.wellformed file s
      have hless := registered_closeFile h.counted.wellformed (mem_registered.mpr ⟨hfile, hdata⟩)
      have hbefore := h.exact s hs
      have hcounted := h.counted.counted s hs
      have hone : (1 : UInt8).toNat = 1 := rfl
      have hsmall := (d.hbas s).session.Device_Open.toNat_lt
      simp only [closeFile_hbas, callSession_hbas, Function.update_self, Hba.apply, device.scsitap_ctl_release,
        UInt8.toNat_sub, hone]
      omega
    · have hother : (d.files file).private_data ≠ some s := by
        rw [hdata]
        exact fun hsome => heq (Option.some.inj hsome).symm
      have hge := registered_closeFile_other h.counted.wellformed hother
      simp only [closeFile_hbas, callSession_hbas, Function.update_of_ne heq]
      exact Nat.le_trans (h.exact s hs) hge
  ready s hs := by
    by_cases heq : s = session
    · subst heq
      have hopen := (h.counted.protected file hfile s hdata).2
      have hready := (h.ready s hs).mpr hopen
      simp only [closeFile_hbas, callSession_hbas, Function.update_self, Hba.apply, device.scsitap_ctl_release]
      by_cases hlast : (d.hbas s).session.Device_Open - 1 = 0 <;> simp [hlast, hready]
    · simpa [heq] using h.ready s hs

/-- A change of files only that leaves every registration as it is. -/
theorem Exact.files (h : d.Exact) (hcounted : d'.Counted) (hhbas : d'.hbas = d.hbas)
    (hqueue : d'.session_queue = d.session_queue)
    (hregistered : ∀ session, (d.registered session).length ≤ (d'.registered session).length) : d'.Exact where
  counted := hcounted
  exact s hs := by
    rw [hqueue] at hs
    rw [hhbas]
    exact Nat.le_trans (h.exact s hs) (hregistered s)
  ready s hs := by
    rw [hqueue] at hs
    rw [hhbas]
    exact h.ready s hs

theorem Exact.change (h : d.Exact) {op : DriverOp} (honce : d.RegistersOnce op) (hfew : d.FewFiles)
    (hchange : Change d op d') : d'.Exact := by
  have hcount : d.CountsUp op := by
    cases hchange with
    | nothing op hregister hunregister hrelease => exact countsUp_of_none fun file host pid hop => (hregister file host pid hop).1
    | attached file session pid host hfile hfound =>
      intro other hother
      exact h.not_full hfile honce hfew (get_session_mem hother).1
    | created file pid host hfile hnone hfresh =>
      refine countsUp_of_none fun file' host' pid' hop => ?_
      obtain ⟨rfl, -, -⟩ := DriverOp.ctl_ioctl.inj hop
      exact hnone
    | _ => trivial
  have hcounted := h.counted.change hcount hchange
  cases hchange with
  | nothing _ _ _ => exact h
  | opened minor =>
    refine h.files hcounted rfl rfl fun s => ?_
    rw [registered_addFile h.counted.wellformed]
  | attached file session pid host hfile hfound =>
    exact h.attach hfile honce pid hcounted (h.not_full hfile honce hfew (get_session_mem hfound).1)
  | created file pid host hfile hnone hfresh =>
    exact (h.addSession _ hfresh).attach hfile honce pid hcounted (by simp [hba.scsitap_create_session])
  | claimed file session arg host hfile hsession hcall =>
    have hcalled := h.callSession (h.counted.callSession hcall.1 hcall.2.2 (.apply _ (.inr (.inr ⟨arg, rfl⟩))))
      (.apply _ (.inr (.inr ⟨arg, rfl⟩)))
    exact ⟨hcounted, hcalled.exact, hcalled.ready⟩
  | positioned file arg host hfile =>
    refine h.files hcounted rfl rfl fun s => Nat.le_of_eq ?_
    exact congrArg List.length (registered_setFile (f := { d.files file with f_pos := arg }) rfl).symm
  | destroyed file session host hfile hfound hclosed hcall =>
    refine ⟨hcounted, fun s hs => ?_, fun s hs => ?_⟩
    all_goals obtain ⟨hne, hold⟩ := h.counted.wellformed.sessions.mem_erase_iff.mp hs
    · have hregistered : (d.removeSession session).registered s = d.registered s :=
        registered_congr rfl (fun _ _ => rfl) s
      rw [hregistered]
      simpa [hne] using h.exact s hold
    · simpa [hne] using h.ready s hold
  | written file session user count hfile hsession hcall =>
    exact h.callSession hcounted (.apply _ (.inr (.inl ⟨user, count, rfl⟩)))
  | midlayer session op hop hcall => exact h.callSession hcounted (.apply _ (.inl hop))
  | closed file session hfile hsession hcall => exact h.closed hfile hsession
  | closedBogus file hfile hsession =>
    refine h.files hcounted rfl rfl fun s => registered_closeFile_other h.counted.wellformed ?_
    rw [hsession]
    exact (Option.some_ne_none s).symm
  | scanBegun hpending => exact h.files hcounted rfl rfl fun s => Nat.le_refl _
  | scanEnded session hscanning => exact h.files hcounted rfl rfl fun s => Nat.le_refl _

/-- While at most 255 files are open and none of them registers twice, every
session is ready, takes commands and cannot be removed exactly while it has a
target. -/
theorem readiness_truthful {start : Driver} {trace : List (Driver × DriverOp)} (hinit : Initial start)
    (hrun : Run Step start trace d) (hfew : Always FewFiles trace d) (hsteps : ∀ e ∈ trace, e.1.RegistersOnce e.2) :
    d.Truthful := by
  have hexact := hrun.invariant_of_steps (C := fun d op => d.RegistersOnce op ∧ d.FewFiles) (P := Exact)
    (.initial hinit) (fun _ _ _ h hc hstep => h.change hc.1 hc.2 hstep.change)
    fun e he => ⟨hsteps e he, hfew.1 e he⟩
  exact hexact.truthful

/-- The file closed after it has registered twice leaves a session that is ready
without a target. -/
theorem OneFile.untruthful (h : d.OneFile 2) :
    d.Step (.ctl_release 0) ((d.callSession 0 .release).closeFile 0) ∧
      ((d.callSession 0 .release).closeFile 0).opened = [] ∧ ¬ ((d.callSession 0 .release).closeFile 0).Truthful := by
  have hfile : 0 ∈ d.opened := by simp [h.opened]
  have hclosed : ((d.callSession 0 .release).closeFile 0).opened = [] := by simp [h.opened]
  refine ⟨release_step hfile (by simp [h.file]) (by simp [h.session_queue]), hclosed, fun htruthful => ?_⟩
  have hready := (htruthful 0 (by simp [h.session_queue])).1
  have hflags : (((d.callSession 0 .release).closeFile 0).hbas 0).session.flags = .ready := by
    simp [Hba.apply, device.scsitap_ctl_release, h.Device_Open, h.flags]
  obtain ⟨file, hmem, -⟩ := hready.mp hflags
  rw [hclosed] at hmem
  cases hmem

theorem registeredTimes_opened_le (n : Nat) : (registeredTimes n).opened.length ≤ 1 := by
  cases n with
  | zero => exact Nat.le_refl _
  | succ n =>
    rw [(oneFile_registeredTimes n).opened]
    exact Nat.le_refl _

/-- One file registers twice and is closed. -/
theorem untruthful_after_two : ¬ ∀ start d trace, Initial start → Run Step start trace d → Always FewFiles trace d →
    d.Truthful := by
  intro hall
  obtain ⟨hrelease, hempty, huntruthful⟩ := (oneFile_registeredTimes 1).untruthful
  have hmem : 0 ∈ (registeredTimes 1).opened := List.mem_singleton.mpr rfl
  have hrun := (((Run.nil.snoc (open_step loaded 0)).snoc (register_step 0 (List.mem_singleton.mpr rfl))).snoc
    (register_step 0 hmem)).snoc hrelease
  refine huntruthful (hall loaded _ _ loaded_initial hrun ⟨?_, ?_⟩)
  · intro e he
    simp only [List.nil_append, List.cons_append, List.mem_cons, List.not_mem_nil, or_false] at he
    rcases he with rfl | rfl | rfl | rfl
    · exact Nat.zero_le _
    · exact Nat.le_trans (registeredTimes_opened_le 0) (by decide)
    · exact Nat.le_trans (registeredTimes_opened_le 1) (by decide)
    · exact Nat.le_trans (registeredTimes_opened_le 2) (by decide)
  · rw [FewFiles, hempty]
    exact Nat.zero_le _

theorem readiness_truthful_one_file : (registeredTimes 1).Truthful := by
  have hrun := (Run.nil.snoc (open_step loaded 0)).snoc (register_step 0 (List.mem_singleton.mpr rfl))
  refine readiness_truthful loaded_initial hrun ⟨?_, Nat.le_trans (registeredTimes_opened_le 1) (by decide)⟩ ?_
  all_goals
    intro e he
    simp only [List.nil_append, List.cons_append, List.mem_cons, List.not_mem_nil, or_false] at he
    rcases he with rfl | rfl
  · exact Nat.zero_le _
  · exact Nat.le_trans (registeredTimes_opened_le 0) (by decide)
  · trivial
  · rfl

end Driver

end vscsi
