import Vscsi.Kernel.Sessions

open lib

namespace vscsi

namespace Driver

open driver

variable {d d' : Driver}

/-- An execution of the work item is to come, and will scan this session. -/
def ScanPending (d : Driver) (session : Nat) : Prop :=
  0 < d.scsitap_work.pending ∧ d.scsitap_work.session = some session

/-- Every session that has become ready has its scan pending until it begins,
and no scan, to come or under way, is of a session that has been destroyed. -/
structure ScansKept (d : Driver) : Prop where
  kept : ∀ session ∈ d.scsitap_work.awaited, d.ScanPending session
  pending : ∀ session, d.ScanPending session → session ∈ d.session_queue
  scanning : ∀ session ∈ d.scsitap_work.scanning, session ∈ d.session_queue

/-- The session that a registration makes ready. -/
def madeReady (d : Driver) (file : Nat) (host : Option HostMemory) : Option Nat :=
  match scsitap_get_session d (d.files file).minor with
  | some session => if (d.hbas session).session.flags = .not_ready then some session else none
  | none => host.map fun _ => d.created

/-- A session becomes ready while no other waits for its scan to begin, and is
destroyed when its scan is neither pending nor under way. -/
def ScanSafe (d : Driver) : DriverOp → Prop
  | .ctl_ioctl file host (.register_client _) =>
    ∀ session, d.madeReady file host = some session → ∀ other ∈ d.scsitap_work.awaited, other = session
  | .ctl_ioctl file _ .unregister_client =>
    ∀ session, scsitap_get_session d (d.files file).minor = some session →
      (d.hbas session).session.Device_Open = 0 → ¬ d.ScanPending session ∧ session ∉ d.scsitap_work.scanning
  | _ => True

theorem ScansKept.initial (h : Initial d) : d.ScansKept := by
  obtain ⟨_, _, _, _, _, hwork, _⟩ := h
  constructor <;> simp [hwork, ScanPending]

/-- Nothing changed for the work queue. -/
theorem ScansKept.same (h : d.ScansKept) (hwork : d'.scsitap_work = d.scsitap_work)
    (hqueue : d.session_queue ⊆ d'.session_queue) : d'.ScansKept where
  kept session hsession := by
    rw [hwork] at hsession
    rw [ScanPending, hwork]
    exact h.kept session hsession
  pending session hsession := by
    rw [ScanPending, hwork] at hsession
    exact hqueue (h.pending session hsession)
  scanning session hsession := by
    rw [hwork] at hsession
    exact hqueue (h.scanning session hsession)

theorem ScansKept.attach (h : d.ScansKept) {session : Nat} (hmem : session ∈ d.session_queue) (file : Nat) (pid : UInt32)
    (hsafe : (d.hbas session).session.flags = .not_ready → ∀ other ∈ d.scsitap_work.awaited, other = session) :
    (d.attach file session pid).ScansKept := by
  by_cases hflags : (d.hbas session).session.flags = .not_ready
  · have hwork : (d.attach file session pid).scsitap_work = d.scsitap_work.schedule session := by
      rw [attach_work, if_pos hflags]
    constructor
    · intro other hother
      rw [hwork] at hother
      rw [ScanPending, hwork]
      rcases List.mem_cons.mp hother with rfl | hold
      · exact ⟨Nat.succ_pos _, rfl⟩
      · rw [hsafe hflags other hold]
        exact ⟨Nat.succ_pos _, rfl⟩
    · rintro other ⟨-, hother⟩
      rw [hwork] at hother
      obtain rfl := Option.some.inj hother
      exact hmem
    · intro other hother
      rw [hwork] at hother
      exact h.scanning other hother
  · have hwork : (d.attach file session pid).scsitap_work = d.scsitap_work := by
      rw [attach_work, if_neg hflags]
    exact h.same hwork (List.Subset.refl _)

theorem ScansKept.removeSession (h : d.ScansKept) (hwellformed : d.Wellformed) {session : Nat}
    (hsafe : ¬ d.ScanPending session ∧ session ∉ d.scsitap_work.scanning) : (d.removeSession session).ScansKept where
  kept := h.kept
  pending other hother := by
    refine hwellformed.sessions.mem_erase_iff.mpr ⟨?_, h.pending other hother⟩
    rintro rfl
    exact hsafe.1 hother
  scanning other hother := by
    refine hwellformed.sessions.mem_erase_iff.mpr ⟨?_, h.scanning other hother⟩
    rintro rfl
    exact hsafe.2 hother

/-- A scan that begins is the one that all the waiting sessions wait for. -/
theorem ScansKept.scan (h : d.ScansKept) (hpending : 0 < d.scsitap_work.pending) : (scsitap_scan_hba d).ScansKept where
  kept session hsession := by
    obtain ⟨hwaiting, hother⟩ := List.mem_filter.mp hsession
    have hsame := (h.kept session hwaiting).2
    exact absurd hsame.symm (by simpa using hother)
  pending session hsession := h.pending session ⟨hpending, hsession.2⟩
  scanning session hsession := by
    rcases List.mem_append.mp hsession with hold | hnew
    · exact h.scanning session hold
    · exact h.pending session ⟨hpending, by simpa using hnew⟩

theorem ScansKept.change (h : d.ScansKept) (hwellformed : d.Wellformed) {op : DriverOp} (hsafe : d.ScanSafe op)
    (hchange : Change d op d') : d'.ScansKept := by
  cases hchange with
  | nothing _ _ _ => exact h
  | attached file session pid host hfile hfound =>
    refine h.attach (get_session_mem hfound).1 file pid fun hflags => hsafe session ?_
    simp [madeReady, hfound, hflags]
  | created file pid host hfile hnone hfresh =>
    have hadded : (d.addSession (d.files file).minor host).ScansKept :=
      h.same rfl (List.subset_append_left d.session_queue [d.created])
    refine hadded.attach (by simp) file pid fun _ => hsafe d.created ?_
    simp [madeReady, hnone]
  | destroyed file session host hfile hfound hclosed hcall =>
    exact h.removeSession hwellformed (hsafe session hfound hclosed)
  | scanBegun hpending => exact h.scan hpending
  | scanEnded session hscanning =>
    exact ⟨h.kept, h.pending, fun other hother => h.scanning other (List.mem_of_mem_erase hother)⟩
  | opened minor => exact h.same rfl (List.Subset.refl _)
  | claimed file session arg host hfile hsession hcall => exact h.same rfl (List.Subset.refl _)
  | positioned file arg host hfile => exact h.same rfl (List.Subset.refl _)
  | written file session user count hfile hsession hcall => exact h.same rfl (List.Subset.refl _)
  | midlayer session op hop hcall => exact h.same rfl (List.Subset.refl _)
  | closed file session hfile hsession hcall => exact h.same rfl (List.Subset.refl _)
  | closedBogus file hfile hsession => exact h.same rfl (List.Subset.refl _)

/-- The second of two sessions that become ready takes the scan of the first. -/
theorem scan_lost {file session other : Nat} {pid : UInt32} (hflags : (d.hbas session).session.flags = .not_ready)
    (hother : other ∈ d.scsitap_work.awaited) (hne : other ≠ session) : ¬ (d.attach file session pid).ScansKept := by
  intro hkept
  have hwork : (d.attach file session pid).scsitap_work = d.scsitap_work.schedule session := by
    rw [attach_work, if_pos hflags]
  have hawaited : other ∈ (d.attach file session pid).scsitap_work.awaited := by
    rw [hwork]
    exact List.mem_cons_of_mem _ hother
  obtain ⟨-, hsession⟩ := hkept.kept other hawaited
  rw [hwork] at hsession
  exact hne (Option.some.inj hsession).symm

theorem not_scansKept_of_losing (hwellformed : d.Wellformed) {op : DriverOp} (hlosing : ¬ d.ScanSafe op)
    (hchange : Change d op d') : ¬ d'.ScansKept := by
  cases hchange with
  | nothing op hregister hunregister hrelease =>
    refine absurd ?_ hlosing
    unfold ScanSafe
    split
    · rename_i file host pid
      obtain ⟨hnone, rfl⟩ := hregister file host pid rfl
      intro session hsession
      simp [madeReady, hnone] at hsession
    · rename_i file host
      intro session hfound hclosed
      exact absurd hclosed (hunregister file host session rfl hfound)
    · trivial
  | attached file session pid host hfile hfound =>
    simp only [ScanSafe, madeReady, hfound] at hlosing
    push Not at hlosing
    obtain ⟨s, hs, other, hother, hne⟩ := hlosing
    by_cases hflags : (d.hbas session).session.flags = .not_ready
    · rw [if_pos hflags] at hs
      obtain rfl := Option.some.inj hs
      exact scan_lost hflags hother hne
    · rw [if_neg hflags] at hs
      cases hs
  | created file pid host hfile hnone hfresh =>
    simp only [ScanSafe, madeReady, hnone, Option.map_some] at hlosing
    push Not at hlosing
    obtain ⟨s, hs, other, hother, hne⟩ := hlosing
    obtain rfl := Option.some.inj hs
    exact scan_lost (by simp [hba.scsitap_create_session]) hother hne
  | destroyed file session host hfile hfound hclosed hcall =>
    intro hkept
    refine hlosing fun other hother _ => ?_
    rw [hfound] at hother
    obtain rfl := Option.some.inj hother
    have hgone : session ∉ (d.removeSession session).session_queue := fun hmem =>
      (hwellformed.sessions.mem_erase_iff.mp hmem).1 rfl
    exact ⟨fun hpending => hgone (hkept.pending session hpending), fun hscanning => hgone (hkept.scanning session hscanning)⟩
  | _ => exact absurd trivial hlosing

/-- In a run every session that becomes ready is scanned, and none that has been
destroyed, exactly if no session becomes ready while another waits for its scan
to begin, and none is destroyed while its scan is pending or under way. -/
theorem scans_kept_iff {start : Driver} {trace : List (Driver × DriverOp)} (hinit : Initial start)
    (hrun : Run Step start trace d) : Always ScansKept trace d ↔ ∀ e ∈ trace, e.1.ScanSafe e.2 := by
  refine hrun.always_iff (I := fun d => d.Wellformed ∧ d.ScansKept) ⟨.initial hinit, .initial hinit⟩ ?_ ?_ ?_
  · rintro state ⟨-, hkept⟩
    exact hkept
  · rintro state label next ⟨hwellformed, hkept⟩ hsafe hstep
    exact ⟨hwellformed.change hstep.change, hkept.change hwellformed hsafe hstep.change⟩
  · rintro state label next ⟨hwellformed, -⟩ hlosing hstep
    exact not_scansKept_of_losing hwellformed hlosing hstep.change

/-- Two files of different devices. -/
def twoFiles : Driver := (loaded.addFile 0).addFile 1

theorem twoFiles_run : Run Step loaded [(loaded, .ctl_open 0), (loaded.addFile 0, .ctl_open 1)] twoFiles :=
  (Run.nil.snoc (open_step loaded 0)).snoc (open_step _ 1)

/-- Two files register one after the other, with no scan in between. -/
theorem scan_lost_of_two : ¬ ∀ start d trace, Initial start → Run Step start trace d → Always ScansKept trace d := by
  intro hall
  have hfirst : 0 ∈ twoFiles.opened := by decide
  have hsecond : 1 ∈ (twoFiles.afterRegister 0).opened := by decide
  have hrun := (twoFiles_run.snoc (register_step 0 hfirst)).snoc (register_step 1 hsecond)
  have hpending := (hall _ _ _ loaded_initial hrun).2.kept 0 (by decide)
  exact absurd hpending.2 (by decide)

/-- One of the files registers, and its scan begins. -/
theorem scans_kept_one_file : ∃ trace, Run Step loaded trace ((twoFiles.afterRegister 0).apply .scan_begin) ∧
    Always ScansKept trace ((twoFiles.afterRegister 0).apply .scan_begin) := by
  have hbegin : (twoFiles.afterRegister 0).Step .scan_begin ((twoFiles.afterRegister 0).apply .scan_begin) :=
    ⟨show 0 < (twoFiles.afterRegister 0).scsitap_work.pending by decide, rfl⟩
  have hrun := (twoFiles_run.snoc (register_step 0 (by decide))).snoc hbegin
  refine ⟨_, hrun, (scans_kept_iff loaded_initial hrun).mpr ?_⟩
  intro e he
  simp only [List.cons_append, List.nil_append, List.mem_cons, List.not_mem_nil, or_false] at he
  rcases he with rfl | rfl | rfl | rfl
  · trivial
  · trivial
  · intro session _ other hother
    cases hother
  · trivial

end Driver

end vscsi
