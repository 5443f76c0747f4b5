import Vscsi.Scsi.Origins
import Vscsi.Target.Durability

open lib

namespace vscsi

open scsi scsi_target

variable {Pid : Type} {may : Nat → Nat → UInt8 → Prop} {start x x' : Storage Pid} {pid : Pid} {call : Invocation}
  {loc loc' : Running}

/-- What a call leaves behind that keeps its target. -/
def Storage.Accounts (may : Nat → Nat → UInt8 → Prop) (start : Storage Pid) (pid : Pid) (call : Invocation)
    (r : UInt8 × TargetData) (y : Space) : Prop :=
  r.2 = start.td pid ∧ Settled may (start.td pid) (start.world pid) call.lun call.cdb r.1 y

/-- A call whose bytes may be where it puts them, and that starts no new image. -/
structure Storage.Allows (may : Nat → Nat → UInt8 → Prop) (start : Storage Pid) (pid : Pid) (call : Invocation) : Prop where
  restarts : ¬ Restarts (start.td pid) call.lun call.cdb
  vouched : Vouched may (start.td pid) (start.world pid) call.lun call.cdb call.data

/-- A call on its way, with bytes on the streams of its process that may be in their
files. -/
def Brings (may : Nat → Nat → UInt8 → Prop) (start x : Storage Pid) (pid : Pid) (call : Invocation) : Running → Prop
  | .called call' => call' = call ∧ (x.world pid).StreamsAdmitted may
  | .executing call' code data => call' = call ∧
      Interleaved (Finding may) (lunStream (start.td pid) call.lun) may code (x.space pid data) (start.Accounts may pid call)
  | .returned status data => ∃ td, start.Accounts may pid call (status, td) (x.space pid data)

/-- The same for a process wherever it is. -/
def Bears (may : Nat → Nat → UInt8 → Prop) (start x : Storage Pid) (pid : Pid) : Phase Running → Prop
  | .running call loc => start.Allows may pid call ∧ Brings may start x pid call loc
  | .completing call status data => ∃ td, start.Accounts may pid call (status, td) (x.space pid data)
  | _ => (x.world pid).StreamsAdmitted may

theorem Storage.Accounts.stable {r : UInt8 × TargetData} {y y' : Space} (h : start.Accounts may pid call r y)
    (hsame : SameOwn y y') : start.Accounts may pid call r y' := ⟨h.1, h.2.stable hsame⟩

/-- Others do not change what is on the streams of a process. -/
theorem Bears.stable {phase : Phase Running} (h : Bears may start x pid phase) (hstreams : x'.streams pid = x.streams pid) :
    Bears may start x' pid phase := by
  have hidle (hadmitted : (x.world pid).StreamsAdmitted may) : (x'.world pid).StreamsAdmitted may :=
    (Storage.sameOwn hstreams fun _ => 0).streams_admitted hadmitted
  cases phase with
  | running call loc =>
    refine ⟨h.1, ?_⟩
    cases loc with
    | called call' => exact ⟨h.2.1, hidle h.2.2⟩
    | executing call' code data => exact ⟨h.2.1, h.2.2.stable .trans (Storage.sameOwn hstreams data)⟩
    | returned status data =>
      obtain ⟨td, haccounts⟩ := h.2
      exact ⟨td, haccounts.stable (Storage.sameOwn hstreams data)⟩
  | completing call status data =>
    obtain ⟨td, haccounts⟩ := h
    exact ⟨td, haccounts.stable (Storage.sameOwn hstreams data)⟩
  | _ => exact hidle h

/-- Between calls there is nothing else on them either. -/
theorem Bears.idle {phase : Phase Running} (h : Bears may start x pid phase) (hrunning : ∀ call loc, phase ≠ .running call loc) :
    (x.world pid).StreamsAdmitted may := by
  cases phase with
  | running call loc => exact absurd rfl (hrunning call loc)
  | completing call status data =>
    obtain ⟨td, haccounts⟩ := h
    exact haccounts.2.streams
  | _ => exact h

theorem Bears.of_idle {phase : Phase Running} (h : (x.world pid).StreamsAdmitted may)
    (hrunning : ∀ call loc, phase ≠ .running call loc) (hcompleting : ∀ call status data, phase ≠ .completing call status data) :
    Bears may start x pid phase := by
  cases phase with
  | running call loc => exact absurd rfl (hrunning call loc)
  | completing call status data => exact absurd rfl (hcompleting call status data)
  | _ => exact h

variable [DecidableEq Pid]

/-- A step of a call puts such bytes into files and leaves such streams. -/
theorem Brings.step (h : Brings may start x pid call loc) (htd : x.td = start.td)
    (hfiles : ∀ inode a, may inode a ((x.fs.files inode).bytes a)) (hon : (x.world pid).inode? = (start.world pid).inode?)
    (hemulates : Emulates (start.td pid) (x.world pid)) (hallows : start.Allows may pid call)
    (hstep : Running.Step pid loc x loc' x') :
    Brings may start x' pid call loc' ∧ x'.td = start.td ∧ (∀ inode a, may inode a ((x'.fs.files inode).bytes a)) ∧
      (x'.world pid).inode? = (start.world pid).inode? := by
  cases hstep with
  | enter call' fuel =>
    obtain ⟨rfl, hstreams⟩ := h
    refine ⟨⟨rfl, ?_⟩, htd, hfiles, hon⟩
    have hvouched : Vouched may (start.td pid) (x.world pid) call'.lun call'.cdb call'.data :=
      fun hputs inode a k hcarries => hallows.vouched hputs inode a k (hcarries.on hon.symm)
    rw [htd]
    refine (run_admitted (x := x.space pid call'.data) hemulates hallows.restarts hstreams hvouched fuel
      call'.data_size).mono ?_
    exact fun r y hr => ⟨hr.1, hr.2.streams, fun hstatus hread inode a k hcarries =>
      hr.2.read hstatus hread inode a k (hcarries.on hon)⟩
  | libc call' c next data _ choice r y hcall =>
    obtain ⟨rfl, hexecuting⟩ := h
    obtain ⟨hputs, hnext⟩ := hexecuting _ (.refl _) choice r y hfiles hcall
    refine ⟨⟨rfl, ?_⟩, htd, fun inode a => ?_, ?_⟩
    · rw [Storage.space, Storage.after_world]
      exact hnext
    · change may inode a ((y.world.fs.files inode).bytes a)
      rw [libc_passes hputs.on hcall]
      refine passedOn_admitted hfiles (fun q hq i byte hi => ?_) inode a
      exact hputs.bytes q hq (q.2.start + i) byte (by rw [Store.byte?, if_pos (Nat.le_add_right _ _), Nat.add_sub_cancel_left, hi])
    · rw [Storage.after_world, ← hon]
      funext n
      exact (libc_elsewhere hputs.on hcall).inode?_eq n
  | leave call' status td data =>
    obtain ⟨rfl, hexecuting⟩ := h
    have haccounts := hexecuting _ (.refl _)
    obtain rfl : td = start.td pid := haccounts.1
    refine ⟨⟨_, haccounts⟩, ?_, hfiles, hon⟩
    simp only [htd, Function.update_eq_self]

namespace System

variable {start s s' : System (targets Pid)} {act : Act Pid} {trace : List (System (targets Pid) × Act Pid)}

/-- The calls that are made bring bytes that may be where they put them. -/
def Vouches (may : Nat → Nat → UInt8 → Prop) (start s : System (targets Pid)) : Act Pid → Prop
  | .start pid => start.shared.Allows may pid (s.procs pid).task.invocation
  | _ => True

/-- All bytes are where they may be: those of the files, those on the streams, and those
that calls have in hand. -/
structure Accounted (may : Nat → Nat → UInt8 → Prop) (start s : System (targets Pid)) : Prop where
  td : s.shared.td = start.shared.td
  on : ∀ pid, ¬ (s.procs pid).phase.Over → (s.shared.world pid).inode? = (start.shared.world pid).inode?
  files : ∀ inode a, may inode a ((s.shared.fs.files inode).bytes a)
  bears : ∀ pid, Bears may start.shared s.shared pid (s.procs pid).phase

/-- Targets whose streams have in their buffers what the files have, and that start the
main loop. -/
structure Synced (start : System (targets Pid)) : Prop where
  attached : start.Attached
  emulates : ∀ pid, Emulates (start.shared.td pid) (start.shared.world pid)
  streams : ∀ pid, (start.shared.world pid).StreamsAdmitted fun inode a byte => byte = (start.shared.fs.files inode).bytes a

theorem Accounted.emulates (h : Accounted may start s) (hsynced : start.Synced) (halive : ¬ (s.procs pid).phase.Over) :
    Emulates (start.shared.td pid) (s.shared.world pid) where
  type := (hsynced.emulates pid).type
  luns ld hld := by
    obtain ⟨lun, lunfile, luntype, lunsizeinmb, time, fh, inode, hnew, hinode⟩ := (hsynced.emulates pid).luns ld hld
    exact ⟨lun, lunfile, luntype, lunsizeinmb, time, fh, inode, hnew, (congrFun (h.on pid halive) fh).trans hinode⟩

theorem Synced.accounted (h : start.Synced) (hstart : ∀ inode a, may inode a ((start.shared.fs.files inode).bytes a)) :
    Accounted may start start where
  td := rfl
  on _ _ := rfl
  files := hstart
  bears pid := by
    have hstreams : (start.shared.world pid).StreamsAdmitted may := by
      intro n stream hstream
      obtain ⟨hpending, hcache⟩ := h.streams pid n stream hstream
      constructor
      · intro i byte hi
        rw [hpending i byte hi]
        exact hstart stream.inode (stream.base + i)
      · intro i byte hi
        rw [hcache i byte hi]
        exact hstart stream.inode (stream.cacheStart + i)
    exact .of_idle hstreams (by simp [h.attached.polling]) (by simp [h.attached.polling])

/-- A step of a call that one process is in. -/
theorem Accounted.brings (h : Accounted may start s) (hsynced : start.Synced)
    (hphase : (s.procs pid).phase = .running call loc) (hstep : Running.Step pid loc s.shared loc' s'.shared) :
    start.shared.Allows may pid call ∧ Brings may start.shared s'.shared pid call loc' ∧
      s'.shared.td = start.shared.td ∧ (∀ inode a, may inode a ((s'.shared.fs.files inode).bytes a)) ∧
        (s'.shared.world pid).inode? = (start.shared.world pid).inode? := by
  have halive : ¬ (s.procs pid).phase.Over := by simp [hphase, Phase.Over]
  have hbears := h.bears pid
  rw [hphase] at hbears
  obtain ⟨hallows, hbrings⟩ := hbears
  exact ⟨hallows, hbrings.step h.td h.files (h.on pid halive) (h.emulates hsynced halive) hallows hstep⟩

/-- What a step does to one process. -/
theorem Accounted.process (h : Accounted may start s) (hsynced : start.Synced) (hvouches : Vouches may start s act)
    (hstep : s.Step act s') (pid : Pid) :
    Bears may start.shared s'.shared pid (s'.procs pid).phase ∧
      (¬ (s'.procs pid).phase.Over → (s'.shared.world pid).inode? = (start.shared.world pid).inode?) := by
  have hsame (hstreams : s'.shared.streams pid = s.shared.streams pid) (hbefore : ¬ (s.procs pid).phase.Over) :
      (s'.shared.world pid).inode? = (start.shared.world pid).inode? := by
    rw [← h.on pid hbefore]
    funext n
    exact congrArg (Option.map (·.inode)) (congrFun hstreams n)
  cases step_progress hstep pid with
  | other hproc hstreams =>
    rw [hproc]
    exact ⟨(h.bears pid).stable hstreams, hsame hstreams⟩
  | idle hbefore halive hlast hafter hcompleting hshared =>
    rw [hshared]
    exact ⟨.of_idle ((h.bears pid).idle hbefore) hafter hcompleting, fun _ => h.on pid halive⟩
  | started hact hphase hphase' hshared =>
    rw [hact] at hvouches
    rw [hphase', hshared]
    exact ⟨⟨hvouches, rfl, (h.bears pid).idle (by simp [hphase])⟩, fun _ => h.on pid (by simp [hphase, Phase.Over])⟩
  | ran call loc loc' hact hphase hphase' hrun =>
    obtain ⟨hallows, hbrings, -, -, hon⟩ := h.brings hsynced hphase hrun
    rw [hphase']
    exact ⟨⟨hallows, hbrings⟩, fun _ => hon⟩
  | finished call status data hact hphase hphase' hshared =>
    have hbears := h.bears pid
    rw [hphase] at hbears
    rw [hphase', hshared]
    exact ⟨hbears.2, fun _ => h.on pid (by simp [hphase, Phase.Over])⟩
  | killed hact hphase' hshared =>
    rw [hphase', hshared]
    refine ⟨fun n stream hstream => ?_, fun halive => absurd trivial halive⟩
    simp [Storage.kill, Storage.world] at hstream
  | flushed n stream hact hphase hproc hstream hpending hshared =>
    rw [hproc, hphase, hshared]
    refine ⟨?_, fun halive => absurd trivial halive⟩
    have hstreams := (h.bears pid).idle (by simp [hphase])
    intro m s' hs'
    rw [Storage.flush_world] at hs'
    exact hstreams.fclose n stream m s' hs'

theorem Accounted.step (h : Accounted may start s) (hsynced : start.Synced) (hvouches : Vouches may start s act)
    (hstep : s.Step act s') : Accounted may start s' := by
  have hshared : s'.shared.td = start.shared.td ∧ ∀ inode a, may inode a ((s'.shared.fs.files inode).bytes a) := by
    rcases step_storage hstep with hshared | ⟨pid, -, hshared⟩ | ⟨pid, call, loc, loc', -, hphase, hrun⟩ |
      ⟨pid, n, stream, -, hphase, hstream, -, hshared⟩
    · rw [hshared]
      exact ⟨h.td, h.files⟩
    · rw [hshared]
      exact ⟨h.td, h.files⟩
    · obtain ⟨-, -, htd, hfiles, -⟩ := h.brings hsynced hphase hrun
      exact ⟨htd, hfiles⟩
    · -- the exit of a process passes on what its streams still have
      have hadmitted := (h.bears pid).idle (by simp [hphase]) n stream hstream
      rw [hshared]
      exact ⟨h.td, World.fclose_files_admitted (w := s.shared.world pid) h.files hadmitted n⟩
  exact ⟨hshared.1, fun pid => (h.process hsynced hvouches hstep pid).2, hshared.2,
    fun pid => (h.process hsynced hvouches hstep pid).1⟩

/-- Where a byte of a file can come from: the file had it at the start, or a write that
was started since carries it there. -/
def Origin (start : System (targets Pid)) (trace : List (System (targets Pid) × Act Pid)) (inode a : Nat) (byte : UInt8) : Prop :=
  byte = (start.shared.fs.files inode).bytes a ∨ ∃ e ∈ trace, ∃ pid, e.2 = .start pid ∧
    start.shared.MayPut pid (e.1.procs pid).task.invocation inode a byte

/-- No command starts a new image. -/
def Keeps (start s : System (targets Pid)) : Act Pid → Prop
  | .start pid => ¬ Restarts (start.shared.td pid) (s.procs pid).task.invocation.lun (s.procs pid).task.invocation.cdb
  | _ => True

theorem vouches_origin (hsteps : ∀ e ∈ trace, start.Keeps e.1 e.2) :
    ∀ e ∈ trace, Vouches (Origin start trace) start e.1 e.2 := by
  rintro ⟨s, act⟩ he
  have hkeeps := hsteps _ he
  cases act with
  | start pid =>
    exact ⟨hkeeps, fun hputs inode a k hcarries => .inr ⟨_, he, pid, rfl, hputs, k, hcarries, rfl⟩⟩
  | _ => trivial

/-- No byte out of thin air. However the target processes interleave, whatever is
aborted and whoever is killed or exits, and whatever an exit still passes on, each byte
of a file is one that it had at the start or one that a write carries there which was
started since; and so is each byte that a `READ(10)` answers with from there. -/
theorem bytes_from_origins (hsynced : start.Synced) (hrun : Run Step start trace s)
    (hsteps : ∀ e ∈ trace, start.Keeps e.1 e.2) :
    (∀ inode a, Origin start trace inode a ((s.shared.fs.files inode).bytes a)) ∧
      ∀ pid call data, (s.procs pid).phase = .completing call 0 data → call.cdb.get 0 = 0x28 →
        ∀ inode a k, start.shared.Carries pid call inode a k → Origin start trace inode a (data k) := by
  have haccounted := hrun.invariant_of_steps (C := Vouches (Origin start trace) start)
    (P := Accounted (Origin start trace) start) (hsynced.accounted fun inode a => .inl rfl)
    (fun _ _ _ h hvouches hstep => h.step hsynced hvouches hstep) (vouches_origin hsteps)
  refine ⟨haccounted.files, fun pid call data hphase hread inode a k hcarries => ?_⟩
  have hbears := haccounted.bears pid
  rw [hphase] at hbears
  obtain ⟨td, haccounts⟩ := hbears
  exact haccounts.2.read rfl hread inode a k hcarries

theorem diskAlone_synced : (diskAlone oneTarget).Synced where
  attached := diskAlone_opened.attached
  emulates := diskAlone_opened.emulates
  streams := by
    intro pid n stream hstream
    have hstreams : (diskWorld 1).streams = Function.update (fun _ => none) 0 (some (.opened 0 true)) := rfl
    have hopened : (diskWorld 1).streams n = some stream := hstream
    rw [hstreams] at hopened
    by_cases hn : n = 0
    · subst hn
      rw [Function.update_self] at hopened
      cases hopened
      exact .opened 0 true
    · rw [Function.update_of_ne hn] at hopened
      cases hopened

/-- The write of one block. -/
theorem bytes_from_origins_one_block : ∃ trace s, Run Step (diskAlone oneTarget) trace s ∧
    (s.procs ()).phase = .completing writeCall 0 writeCall.data ∧
    ∀ inode a, Origin (diskAlone oneTarget) trace inode a ((s.shared.fs.files inode).bytes a) := by
  obtain ⟨during, s, hexecutes, hlabels, -⟩ := one_block_executes { Choice.whole with flushed := 512 } (by decide)
  have hrun := write_run.append hexecutes.run
  have hsteps : ∀ e ∈ writeTrace ++ during, (diskAlone oneTarget).Keeps e.1 e.2 := by
    intro e he
    obtain ⟨t, act⟩ := e
    rcases List.mem_append.mp he with he | he
    · have hsafe := writeTrace_safe _ he
      simp only [writeTrace, List.mem_cons, Prod.mk.injEq, List.not_mem_nil, or_false] at he
      rcases he with ⟨rfl, rfl⟩ | ⟨rfl, rfl⟩ | ⟨rfl, rfl⟩ | ⟨rfl, rfl⟩ | ⟨rfl, rfl⟩ | ⟨rfl, rfl⟩ | ⟨rfl, rfl⟩ | ⟨rfl, rfl⟩
      · trivial
      · trivial
      · trivial
      · trivial
      · trivial
      · trivial
      · trivial
      · exact hsafe
    · rcases (hlabels _ he).2 with rfl | rfl <;> trivial
  exact ⟨_, s, hrun, hexecutes.completing, (bytes_from_origins diskAlone_synced hrun hsteps).1⟩

end System

end vscsi
