import Vscsi.Target.Processes

open lib

namespace vscsi

open scsi scsi_target

variable {Pid : Type}

/-- The byte that is put at an address of a file. -/
def Put.byte? (p : Put Pid) (inode a : Nat) : Option UInt8 := if p.inode = inode then p.store.byte? a else none

/-- What has been put into one file. -/
def storesOn (journal : List (Put Pid)) (inode : Nat) : List Store :=
  journal.filterMap fun p => if p.inode = inode then some p.store else none

theorem latest_storesOn_append (journal : List (Put Pid)) (p : Put Pid) (inode a : Nat) :
    latest (storesOn (journal ++ [p]) inode) a = (p.byte? inode a).or (latest (storesOn journal inode) a) := by
  unfold Put.byte? storesOn
  rw [List.filterMap_append]
  by_cases hinode : p.inode = inode
  · simp only [List.filterMap_cons, List.filterMap_nil, if_pos hinode, latest_append]
  · simp only [List.filterMap_cons, List.filterMap_nil, if_neg hinode, List.append_nil, Option.none_or]

/-- What is put into a file stays there until something else is put in its place. -/
theorem latest_storesOn_covered {earlier later : List (Put Pid)} {p : Put Pid} {inode a : Nat} {byte : UInt8}
    (h : p.byte? inode a = some byte) (hlater : ∀ q ∈ later, q.byte? inode a = none) :
    latest (storesOn (earlier ++ p :: later) inode) a = some byte := by
  unfold Put.byte? at h
  split at h
  · rename_i hinode
    have hstores : storesOn (earlier ++ p :: later) inode = storesOn earlier inode ++ p.store :: storesOn later inode := by
      simp only [storesOn, List.filterMap_append, List.filterMap_cons, if_pos hinode]
    rw [hstores]
    refine latest_covered h fun s hs => ?_
    obtain ⟨q, hq, hs⟩ := List.mem_filterMap.mp hs
    have hnone := hlater q hq
    unfold Put.byte? at hnone
    split at hs
    · rename_i hsame
      rwa [if_pos hsame, Option.some.inj hs] at hnone
    · cases hs
  · cases h

/-- The call a process is in. -/
def Phase.call? {Local : Type} : Phase Local → Option Invocation
  | .running call _ => some call
  | .completing call _ _ => some call
  | _ => none

namespace Storage

theorem sameOwn {x x' : Storage Pid} {pid : Pid} (h : x'.streams pid = x.streams pid) (data : Mem) :
    SameOwn (x.space pid data) (x'.space pid data) := ⟨h, rfl⟩

variable [DecidableEq Pid]

@[simp] theorem after_world (x : Storage Pid) (pid : Pid) (call : Invocation) (w : World) (p : Option (Nat × Store)) :
    (x.after pid call w p).world pid = w := by
  simp [after, world]

theorem kill_flushed (x : Storage Pid) (pid : Pid) : ((x.kill pid).world pid).Flushed := by
  intro n s hs
  simp [kill, world] at hs

end Storage

/-- The place in the data of a call of a byte in a file. -/
abbrev Storage.Carries (start : Storage Pid) (pid : Pid) (call : Invocation) (inode a k : Nat) : Prop :=
  scsi_target.Carries (start.td pid) (start.world pid) call.lun call.cdb inode a k

/-- The call writes blocks. -/
abbrev Storage.Writes (start : Storage Pid) (pid : Pid) (call : Invocation) : Prop :=
  PutsBlocks (start.td pid) call.lun call.cdb

/-- The bytes that a call may put into files. -/
abbrev Storage.MayPut (start : Storage Pid) (pid : Pid) (call : Invocation) (inode a : Nat) (byte : UInt8) : Prop :=
  PutBy (start.td pid) (start.world pid) call.lun call.cdb call.data inode a byte

/-- What a call leaves where it returns. -/
def Storage.Left (start : Storage Pid) (T : Nat → Nat → Prop) (pid : Pid) (call : Invocation) (r : UInt8 × TargetData)
    (y : Space) : Prop :=
  r.2 = start.td pid ∧ Leaves T (start.td pid) (start.world pid) call.lun call.cdb r.1 y.world

section Follows

variable {start x x' : Storage Pid} {allowed : lib.Call → Choice → Space → Prop} {Q : UInt8 × TargetData → Space → Prop}
  {pid : Pid} {call : Invocation} {loc loc' : Running}

/-- What a call does while other processes run. -/
abbrev Executing (start : Storage Pid) (allowed : lib.Call → Choice → Space → Prop) (pid : Pid) (call : Invocation)
    (code : Code (UInt8 × TargetData)) (y : Space) (Q : UInt8 × TargetData → Space → Prop) : Prop :=
  Interleaved allowed (lunStream (start.td pid) call.lun) (start.MayPut pid call) code y Q

/-- A call is on its way to a result in `Q`. -/
def Follows (start : Storage Pid) (allowed : lib.Call → Choice → Space → Prop) (Q : UInt8 × TargetData → Space → Prop)
    (x : Storage Pid) (pid : Pid) (call : Invocation) : Running → Prop
  | .called call' => call' = call ∧ (x.world pid).Flushed
  | .executing call' code data => call' = call ∧ Executing start allowed pid call code (x.space pid data) Q
  | .returned status data => ∃ td, Q (status, td) (x.space pid data)

/-- Others do not bring it off its way. -/
theorem Follows.stable (h : Follows start allowed Q x pid call loc)
    (hQ : ∀ r y y', Q r y → SameOwn y y' → Q r y') (hstreams : x'.streams pid = x.streams pid) :
    Follows start allowed Q x' pid call loc := by
  cases loc with
  | called call' => exact ⟨h.1, (Storage.sameOwn hstreams fun _ => 0).flushed h.2⟩
  | executing call' code data => exact ⟨h.1, h.2.stable .trans (Storage.sameOwn hstreams data)⟩
  | returned status data =>
    obtain ⟨td, hpost⟩ := h
    exact ⟨td, hQ _ _ _ hpost (Storage.sameOwn hstreams data)⟩

variable [DecidableEq Pid]

/-- It goes on with each step, unless it makes a call that is not allowed. -/
theorem Follows.step (h : Follows start allowed Q x pid call loc) (hstep : Running.Step pid loc x loc' x')
    (henter : ∀ fuel, (x.world pid).Flushed → Executing start allowed pid call
      (run_scsi_command fuel (x.td pid) call.lun call.cdb call.data_size) (x.space pid call.data) Q) :
    Follows start allowed Q x' pid call loc' ∨ ∃ c next choice data, loc = .executing call (.call c next) data ∧
      ¬ allowed c choice (x.space pid data) ∧ x'.journal = x.journal ++
        ((c.passes choice (x.space pid data)).map fun p => { pid, call, inode := p.1, store := p.2 }).toList := by
  cases hstep with
  | enter call' fuel =>
    obtain ⟨rfl, hflushed⟩ := h
    exact .inl ⟨rfl, henter fuel hflushed⟩
  | libc call' c next data _ choice r y hcall =>
    obtain ⟨rfl, hexecuting⟩ := h
    by_cases hallowed : allowed c choice (x.space pid data)
    · refine .inl ⟨rfl, ?_⟩
      have hnext := (hexecuting _ (.refl _) choice r y hallowed hcall).2
      rw [Storage.space, Storage.after_world]
      exact hnext
    · exact .inr ⟨c, next, choice, data, rfl, hallowed, rfl⟩
  | leave call' status td data =>
    obtain ⟨rfl, hexecuting⟩ := h
    exact .inl ⟨td, hexecuting _ (.refl _)⟩

/-- A step of a call that changes no file, or a call to the C library that puts
bytes of the call into one. -/
theorem Follows.puts (h : Follows start (Sparing fun _ _ => False) Q x pid call loc) (hstep : Running.Step pid loc x loc' x')
    (hQ : ∀ r y, Q r y → r.2 = start.td pid) (htd : x.td = start.td) :
    x'.td = start.td ∧ (x'.fs = x.fs ∧ x'.journal = x.journal ∧ x'.streams = x.streams ∨
      ∃ (c : lib.Call) (choice : Choice) (r : Reply c) (data : Mem) (y : Space), libc c choice (x.space pid data) = .ok (r, y) ∧
        Puts (lunStream (start.td pid) call.lun) (start.MayPut pid call) c choice (x.space pid data) ∧
          x' = x.after pid call y.world (c.passes choice (x.space pid data))) := by
  cases hstep with
  | enter => exact ⟨htd, .inl ⟨rfl, rfl, rfl⟩⟩
  | libc call' c next data _ choice r y hcall =>
    obtain ⟨rfl, hexecuting⟩ := h
    have hallowed : Sparing (fun _ _ => False) c choice (x.space pid data) := fun _ _ _ hnone => hnone.elim
    exact ⟨htd, .inr ⟨c, choice, r, data, y, hcall, (hexecuting _ (.refl _) choice r y hallowed hcall).1, rfl⟩⟩
  | leave call' status td data =>
    obtain ⟨rfl, hexecuting⟩ := h
    obtain rfl : td = start.td pid := hQ _ _ (hexecuting _ (.refl _))
    refine ⟨?_, .inl ⟨rfl, rfl, rfl⟩⟩
    simp only [htd, Function.update_eq_self]

end Follows

namespace System

variable [DecidableEq Pid] {start s s' : System (targets Pid)} {act : Act Pid} {pid : Pid}
  {allowed : lib.Call → Choice → Space → Prop} {Q : UInt8 × TargetData → Space → Prop} {call : Invocation}

/-- If a process is in a call it is this one, and on its way to a result in `Q`. -/
def InCall (start : Storage Pid) (allowed : lib.Call → Choice → Space → Prop) (Q : UInt8 × TargetData → Space → Prop)
    (x : Storage Pid) (pid : Pid) (call : Invocation) : Phase Running → Prop
  | .running call' loc => call' = call ∧ Follows start allowed Q x pid call loc
  | .completing call' status data => call' = call ∧ ∃ td, Q (status, td) (x.space pid data)
  | _ => True

/-- A process that begins no call goes on with the one it is in, unless this makes a
call to the C library that is not allowed. -/
theorem InCall.step (h : InCall start.shared allowed Q s.shared pid call (s.procs pid).phase) (hstep : s.Step act s')
    (hnot : act ≠ .start pid) (hQ : ∀ r y y', Q r y → SameOwn y y' → Q r y')
    (henter : ∀ fuel, (s.shared.world pid).Flushed → (s.procs pid).phase ≠ .killed → Executing start.shared allowed pid call
      (run_scsi_command fuel (s.shared.td pid) call.lun call.cdb call.data_size) (s.shared.space pid call.data) Q) :
    InCall start.shared allowed Q s'.shared pid call (s'.procs pid).phase ∨ ∃ c next choice data, act = .run pid ∧
      (s.procs pid).phase = .running call (.executing call (.call c next) data) ∧
      ¬ allowed c choice (s.shared.space pid data) ∧ s'.shared.journal = s.shared.journal ++
        ((c.passes choice (s.shared.space pid data)).map fun p => { pid, call, inode := p.1, store := p.2 }).toList := by
  cases step_progress hstep pid with
  | other hproc hstreams htd hact =>
    left
    rw [hproc]
    cases hphase : (s.procs pid).phase with
    | running call' loc =>
      rw [hphase] at h
      exact ⟨h.1, h.2.stable hQ hstreams⟩
    | completing call' status data =>
      rw [hphase] at h
      obtain ⟨hcall, td, hpost⟩ := h
      exact ⟨hcall, td, hQ _ _ _ hpost (Storage.sameOwn hstreams data)⟩
    | _ => trivial
  | idle hbefore halive hlast hafter hcompleting hshared hact =>
    left
    cases hphase : (s'.procs pid).phase with
    | running call' loc => exact absurd hphase (hafter call' loc)
    | completing call' status data => exact absurd hphase (hcompleting call' status data)
    | _ => trivial
  | started hact => exact absurd hact hnot
  | ran call' loc loc' hact hphase hphase' hrun =>
    rw [hphase] at h
    obtain ⟨rfl, hfollows⟩ := h
    rcases hfollows.step hrun fun fuel hflushed => henter fuel hflushed (by simp [hphase]) with
      hfollows' | ⟨c, next, choice, data, rfl, hallowed, hjournal⟩
    · left
      rw [hphase']
      exact ⟨rfl, hfollows'⟩
    · exact .inr ⟨c, next, choice, data, hact, hphase, hallowed, hjournal⟩
  | finished call' status data hact hphase hphase' hshared =>
    left
    rw [hphase] at h
    obtain ⟨rfl, td, hpost⟩ := h
    rw [hphase', hshared]
    exact ⟨rfl, td, hpost⟩
  | killed hact hphase' hshared =>
    left
    rw [hphase']
    trivial
  | flushed n stream hact hphase hproc =>
    left
    rw [hproc, hphase]
    trivial

/-- Targets that have their files open and start the main loop. -/
structure Opened (start : System (targets Pid)) : Prop where
  attached : start.Attached
  emulates : ∀ pid, Emulates (start.shared.td pid) (start.shared.world pid)
  flushed : ∀ pid, (start.shared.world pid).Flushed
  journal : start.shared.journal = []

/-- Nothing of a write is pending when it is completed, the buffer of a stream
has for a read what the file has there, and no new image is started. -/
def Safe (s : System (targets Pid)) : Act Pid → Prop
  | .start pid => ¬ Restarts (s.shared.td pid) (s.procs pid).task.invocation.lun (s.procs pid).task.invocation.cdb
  | .run pid => ∀ call call' i count n next data stream,
    (s.procs pid).phase = .running call (.executing call' (.call (.fread i count (some n)) next) data) →
      s.shared.streams pid n = some stream → stream.Current (s.shared.fs.files stream.inode) count
  | .complete pid => ∀ call data n stream, (s.procs pid).phase = .completing call 0 data →
    PutsBlocks (s.shared.td pid) call.lun call.cdb → lunStream (s.shared.td pid) call.lun = some n →
      s.shared.streams pid n = some stream → stream.pending = []
  | _ => True

/-- Every process keeps its target, and the files its streams are on. Only bytes
of writes have been put into files. -/
structure Kept (start s : System (targets Pid)) : Prop where
  td : s.shared.td = start.shared.td
  on : ∀ pid, (s.procs pid).phase ≠ .killed → (s.shared.world pid).inode? = (start.shared.world pid).inode?
  quiet : ∀ pid, (s.procs pid).phase.call? = none → (s.shared.world pid).Flushed
  calls : ∀ pid call, (s.procs pid).phase.call? = some call → ¬ Restarts (start.shared.td pid) call.lun call.cdb ∧
    InCall start.shared (Sparing fun _ _ => False) (start.shared.Left (fun _ _ => False) pid call) s.shared pid call
      (s.procs pid).phase
  puts : ∀ p ∈ s.shared.journal, ∀ inode a byte, p.byte? inode a = some byte → start.shared.MayPut p.pid p.call inode a byte
  files : ∀ inode a, (s.shared.fs.files inode).bytes a =
    (latest (storesOn s.shared.journal inode) a).getD ((start.shared.fs.files inode).bytes a)

theorem Opened.kept (h : start.Opened) : Kept start start where
  td := rfl
  on _ _ := rfl
  quiet pid _ := h.flushed pid
  calls pid call hcall := by
    rw [h.attached.polling] at hcall
    cases hcall
  puts p hp := by
    rw [h.journal] at hp
    cases hp
  files inode a := by
    rw [h.journal]
    rfl

omit [DecidableEq Pid] in
theorem left_stable {T : Nat → Nat → Prop} {r : UInt8 × TargetData} {y y' : Space} (x : Storage Pid)
    (h : x.Left T pid call r y) (hsame : SameOwn y y') : x.Left T pid call r y' := ⟨h.1, h.2.stable hsame⟩

theorem Kept.emulates (h : Kept start s) (hopened : start.Opened) (halive : (s.procs pid).phase ≠ .killed) :
    Emulates (start.shared.td pid) (s.shared.world pid) where
  type := (hopened.emulates pid).type
  luns ld hld := by
    obtain ⟨lun, lunfile, luntype, lunsizeinmb, time, fh, inode, hnew, hinode⟩ := (hopened.emulates pid).luns ld hld
    exact ⟨lun, lunfile, luntype, lunsizeinmb, time, fh, inode, hnew, (congrFun (h.on pid halive) fh).trans hinode⟩

/-- A call is entered as the target and the streams were at the start. -/
theorem Kept.enter (h : Kept start s) (hopened : start.Opened) (T : Nat → Nat → Prop)
    (hrestarts : ¬ Restarts (start.shared.td pid) call.lun call.cdb) (fuel : Nat) (hflushed : (s.shared.world pid).Flushed)
    (halive : (s.procs pid).phase ≠ .killed) :
    Executing start.shared (Sparing T) pid call
      (run_scsi_command fuel (s.shared.td pid) call.lun call.cdb call.data_size) (s.shared.space pid call.data)
      (start.shared.Left T pid call) := by
  have hon := h.on pid halive
  rw [h.td]
  refine Prog.Among.mono (Prog.Among.weaken (run_interleaved (h.emulates hopened halive) hflushed hrestarts fuel
    call.data_size) ?_) ?_
  · exact fun c choice y _ hputs => ⟨hputs.on, fun p hp a byte hbyte => (hputs.bytes p hp a byte hbyte).on hon.symm⟩
  · exact fun r y hleft => ⟨hleft.1, hleft.2.on hon.symm⟩

/-- An exit finds nothing pending. -/
theorem Kept.exited (h : Kept start s) (hphase : (s.procs pid).phase = .exited) {n : Nat} {stream : Stream}
    (hstream : s.shared.streams pid n = some stream) : stream.pending = [] :=
  h.quiet pid (by rw [hphase]; rfl) n stream hstream

/-- A step puts bytes of one write into one file at most. -/
theorem Kept.storage (h : Kept start s) (hstep : s.Step act s') :
    s'.shared.td = start.shared.td ∧ (s'.shared.fs.files = s.shared.fs.files ∧ s'.shared.journal = s.shared.journal ∨
      ∃ (pid : Pid) (call : Invocation) (p : Option (Nat × Store)),
        s'.shared.fs.files = passedOn s.shared.fs.files p ∧
          s'.shared.journal = s.shared.journal ++ (p.map fun p => { pid, call, inode := p.1, store := p.2 }).toList ∧
          ∀ p', p = some p' → ∀ a byte, p'.2.byte? a = some byte → start.shared.MayPut pid call p'.1 a byte) := by
  rcases step_storage hstep with hshared | ⟨pid, -, hshared⟩ | ⟨pid, call, loc, loc', -, hphase, hrun⟩ |
    ⟨pid, n, stream, -, hphase, hstream, hpending, -⟩
  · rw [hshared]
    exact ⟨h.td, .inl ⟨rfl, rfl⟩⟩
  · rw [hshared]
    exact ⟨h.td, .inl ⟨rfl, rfl⟩⟩
  · have hcall := (h.calls pid call (by rw [hphase]; rfl)).2
    rw [hphase] at hcall
    obtain ⟨htd, ⟨hfs, hjournal, -⟩ | ⟨c, choice, r, data, y, hlibc, hputs, hafter⟩⟩ :=
      hcall.2.puts hrun (fun r y hleft => hleft.1) h.td
    · exact ⟨htd, .inl ⟨by rw [hfs], hjournal⟩⟩
    · refine ⟨htd, .inr ⟨pid, call, c.passes choice (s.shared.space pid data), ?_, ?_, hputs.bytes⟩⟩
      · rw [hafter]
        exact libc_passes hputs.on hlibc
      · rw [hafter]
        rfl
  · exact absurd (h.exited hphase hstream) hpending

theorem Kept.puts_step (h : Kept start s) (hstep : s.Step act s') : ∀ p ∈ s'.shared.journal, ∀ inode a byte,
    p.byte? inode a = some byte → start.shared.MayPut p.pid p.call inode a byte := by
  intro p hp inode a byte hbyte
  obtain ⟨-, ⟨-, hjournal⟩ | ⟨pid, call, p', -, hjournal, hmay⟩⟩ := h.storage hstep
  · rw [hjournal] at hp
    exact h.puts p hp inode a byte hbyte
  · rw [hjournal] at hp
    rcases List.mem_append.mp hp with hp | hp
    · exact h.puts p hp inode a byte hbyte
    · obtain ⟨q, hq, rfl⟩ := Option.map_eq_some_iff.mp (Option.mem_toList.mp hp)
      unfold Put.byte? at hbyte
      split at hbyte
      · rename_i hinode
        subst hinode
        exact hmay q hq a byte hbyte
      · cases hbyte

theorem Kept.files_step (h : Kept start s) (hstep : s.Step act s') (inode a : Nat) :
    (s'.shared.fs.files inode).bytes a =
      (latest (storesOn s'.shared.journal inode) a).getD ((start.shared.fs.files inode).bytes a) := by
  obtain ⟨-, ⟨hfiles, hjournal⟩ | ⟨pid, call, p, hfiles, hjournal, -⟩⟩ := h.storage hstep
  · rw [hfiles, hjournal]
    exact h.files inode a
  · rw [hfiles, hjournal, passedOn_byte, h.files inode a]
    cases p with
    | none => simp only [Option.map_none, Option.toList_none, List.append_nil, Option.bind_none, Option.getD_none]
    | some p =>
      simp only [Option.map_some, Option.toList_some, latest_storesOn_append, Option.bind_some, Put.byte?]
      cases (if p.1 = inode then p.2.byte? a else none) <;> rfl

/-- A step leaves the streams of a process on their files, unless it kills it. -/
theorem Kept.on_step (h : Kept start s) (hstep : s.Step act s') (pid : Pid) (halive : (s'.procs pid).phase ≠ .killed) :
    (s'.shared.world pid).inode? = (start.shared.world pid).inode? := by
  have hsame (hstreams : s'.shared.streams pid = s.shared.streams pid) (hbefore : (s.procs pid).phase ≠ .killed) :
      (s'.shared.world pid).inode? = (start.shared.world pid).inode? := by
    rw [← h.on pid hbefore]
    funext n
    exact congrArg (Option.map (·.inode)) (congrFun hstreams n)
  cases step_progress hstep pid with
  | other hproc hstreams => exact hsame hstreams (by rwa [← hproc])
  | idle _ hover _ _ _ hshared => exact hsame (by rw [hshared]) fun hkilled => hover (by rw [hkilled]; trivial)
  | started _ hphase _ hshared => exact hsame (by rw [hshared]) (by simp [hphase])
  | finished call status data _ hphase _ hshared => exact hsame (by rw [hshared]) (by simp [hphase])
  | killed _ hphase' => exact absurd hphase' halive
  | flushed n stream _ hphase _ hstream hpending => exact absurd (h.exited hphase hstream) hpending
  | ran call loc loc' hact hphase hphase' hrun =>
    have hbefore : (s.procs pid).phase ≠ .killed := by simp [hphase]
    have hcall := (h.calls pid call (by rw [hphase]; rfl)).2
    rw [hphase] at hcall
    obtain ⟨-, ⟨-, -, hstreams⟩ | ⟨c, choice, r, data, y, hlibc, hputs, hafter⟩⟩ :=
      hcall.2.puts hrun (fun r y hleft => hleft.1) h.td
    · exact hsame (by rw [hstreams]) hbefore
    · rw [hafter, Storage.after_world, ← h.on pid hbefore]
      funext n
      exact (libc_elsewhere hputs.on hlibc).inode?_eq n

/-- A completed call has left nothing pending. -/
theorem Kept.completed_flushed (h : Kept start s) (hsafe : s.Safe (.complete pid)) {status : UInt8} {data : Mem}
    (hphase : (s.procs pid).phase = .completing call status data) : (s.shared.world pid).Flushed := by
  have hcall := (h.calls pid call (by rw [hphase]; rfl)).2
  rw [hphase] at hcall
  obtain ⟨-, td, -, hleaves⟩ := hcall
  by_cases hwrote : status = 0 ∧ PutsBlocks (start.shared.td pid) call.lun call.cdb
  · obtain ⟨rfl, hputs⟩ := hwrote
    intro n stream hstream
    by_cases hn : some n = lunStream (start.shared.td pid) call.lun
    · rw [← h.td] at hputs hn
      exact hsafe call data n stream hphase hputs hn.symm hstream
    · exact hleaves.others n stream hn hstream
  · exact hleaves.flushed hwrote

theorem Kept.quiet_step (h : Kept start s) (hsafe : s.Safe act) (hstep : s.Step act s') (pid : Pid)
    (hquiet : (s'.procs pid).phase.call? = none) : (s'.shared.world pid).Flushed := by
  cases step_progress hstep pid with
  | other hproc hstreams =>
    rw [hproc] at hquiet
    exact (Storage.sameOwn hstreams fun _ => 0).flushed (h.quiet pid hquiet)
  | idle hbefore _ hlast _ _ hshared =>
    rw [hshared]
    cases hphase : (s.procs pid).phase with
    | running call loc => exact absurd hphase (hbefore call loc)
    | completing call status data =>
      obtain rfl := hlast call status data hphase
      exact h.completed_flushed hsafe hphase
    | _ => exact h.quiet pid (by rw [hphase]; rfl)
  | started _ _ hphase' =>
    rw [hphase'] at hquiet
    cases hquiet
  | ran _ _ _ _ _ hphase' =>
    rw [hphase'] at hquiet
    cases hquiet
  | finished _ _ _ _ _ hphase' =>
    rw [hphase'] at hquiet
    cases hquiet
  | killed _ _ hshared =>
    rw [hshared]
    exact s.shared.kill_flushed pid
  | flushed n stream _ hphase _ hstream hpending => exact absurd (h.exited hphase hstream) hpending

/-- A call that a process is in after a step it has begun with this step, or was in
before. -/
theorem step_call? (hstep : s.Step act s') (hcall : (s'.procs pid).phase.call? = some call) :
    (act = .start pid ∧ (s.procs pid).phase = .loaded ∧ call = (s.procs pid).task.invocation ∧
        (s'.procs pid).phase = .running call (.called call) ∧ s'.shared = s.shared) ∨
      act ≠ .start pid ∧ (s.procs pid).phase.call? = some call := by
  cases step_progress hstep pid with
  | other hproc _ _ hact => exact .inr ⟨hact, by rw [← hproc]; exact hcall⟩
  | idle _ _ _ hrunning hcompleting =>
    cases hphase : (s'.procs pid).phase with
    | running call loc => exact absurd hphase (hrunning call loc)
    | completing call status data => exact absurd hphase (hcompleting call status data)
    | _ =>
      rw [hphase] at hcall
      cases hcall
  | started hact hphase hphase' hshared =>
    rw [hphase'] at hcall
    cases hcall
    exact .inl ⟨hact, hphase, rfl, hphase', hshared⟩
  | ran call' loc loc' hact hphase hphase' =>
    rw [hphase'] at hcall
    exact .inr ⟨by simp [hact], by rw [hphase]; exact hcall⟩
  | finished call' status data hact hphase hphase' =>
    rw [hphase'] at hcall
    exact .inr ⟨by simp [hact], by rw [hphase]; exact hcall⟩
  | killed _ hphase' =>
    rw [hphase'] at hcall
    cases hcall
  | flushed n stream _ hphase hproc =>
    rw [hproc, hphase] at hcall
    cases hcall

/-- What safe steps keep. -/
theorem Kept.step (h : Kept start s) (hopened : start.Opened) (hsafe : s.Safe act) (hstep : s.Step act s') :
    Kept start s' where
  td := (h.storage hstep).1
  on := h.on_step hstep
  quiet := h.quiet_step hsafe hstep
  puts := h.puts_step hstep
  files := h.files_step hstep
  calls pid call hcall := by
    rcases step_call? hstep hcall with ⟨rfl, hloaded, rfl, hphase', hshared⟩ | ⟨hact, hbefore⟩
    · have hrestarts : ¬ Restarts (s.shared.td pid) (s.procs pid).task.invocation.lun (s.procs pid).task.invocation.cdb :=
        hsafe
      rw [h.td] at hrestarts
      refine ⟨hrestarts, ?_⟩
      rw [hphase', hshared]
      exact ⟨rfl, rfl, h.quiet pid (by rw [hloaded]; rfl)⟩
    · obtain ⟨hrestarts, hin⟩ := h.calls pid call hbefore
      refine ⟨hrestarts, ?_⟩
      rcases hin.step hstep hact (fun r y y' => left_stable start.shared) fun fuel hflushed halive =>
          h.enter hopened _ hrestarts fuel hflushed halive with hin' | ⟨c, next, choice, data, -, -, hallowed, -⟩
      · exact hin'
      · exact absurd (fun p hp a hnone => hnone.elim) hallowed

end System

end vscsi
