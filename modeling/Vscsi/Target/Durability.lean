import Vscsi.Scsi.Capacity
import Vscsi.Target.Loaded
import Vscsi.Target.Streams
import Vscsi.Target.Survival

open lib

namespace vscsi

open scsi scsi_target

namespace System

variable {Pid : Type} [DecidableEq Pid] {start s s' : System (targets Pid)} {act : Act Pid} {pid : Pid} {call : Invocation}
  {trace : List (System (targets Pid) × Act Pid)} {status : UInt8} {data : Mem} {inode a k : Nat}

/-- What has been put into files is not taken back. -/
theorem journal_step (hstep : s.Step act s') : s.shared.journal <+: s'.shared.journal := by
  rcases step_storage hstep with hshared | ⟨pid, -, hshared⟩ | ⟨pid, call, loc, loc', -, -, hrun⟩ |
    ⟨pid, n, stream, -, -, -, -, hshared⟩
  · exact ⟨[], by rw [hshared, List.append_nil]⟩
  · exact ⟨[], by rw [hshared, List.append_nil]; rfl⟩
  · generalize s.shared = x, s'.shared = x' at hrun
    cases hrun with
    | enter => exact List.prefix_refl _
    | libc => exact List.prefix_append _ _
    | leave => exact List.prefix_refl _
  · exact ⟨[], by rw [hshared, List.append_nil]; rfl⟩

theorem journal_run (hrun : Run Step s trace s') : s.shared.journal <+: s'.shared.journal := by
  induction hrun with
  | nil => exact List.prefix_refl _
  | snoc run hstep ih => exact ih.trans (journal_step hstep)

/-- The run lemma of `Kept.step`. -/
theorem Kept.run (h : Kept start s) (hopened : start.Opened) (hrun : Run Step s trace s')
    (hsafe : ∀ e ∈ trace, e.1.Safe e.2) : Kept start s' := by
  have hstep : ∀ t act t', Kept start t → t.Safe act → t.Step act t' → Kept start t' :=
    fun _ _ _ hkept hsafe hstep => hkept.step hopened hsafe hstep
  exact hrun.invariant_of_steps h hstep hsafe

/-- A process executes a call in a run. -/
structure Executes (s : System (targets Pid)) (pid : Pid) (call : Invocation)
    (trace : List (System (targets Pid) × Act Pid)) (status : UInt8) (data : Mem) (s' : System (targets Pid)) : Prop where
  called : (s.procs pid).phase = .running call (.called call)
  run : Run Step s trace s'
  once : ∀ e ∈ trace, e.2 ≠ .start pid
  completing : (s'.procs pid).phase = .completing call status data

/-- A call of which every step is allowed comes to a result in `Q`. Otherwise
there is a call to the C library that is not. -/
theorem Executes.result {allowed : lib.Call → Choice → Space → Prop} {Q : UInt8 × TargetData → Space → Prop}
    (h : s.Executes pid call trace status data s') (hkept : Kept start s) (hopened : start.Opened)
    (hsafe : ∀ e ∈ trace, e.1.Safe e.2) (hQ : ∀ r y y', Q r y → SameOwn y y' → Q r y')
    (henter : ∀ t, Kept start t → ∀ fuel, (t.shared.world pid).Flushed → (t.procs pid).phase ≠ .killed →
      Executing start.shared allowed pid call (run_scsi_command fuel (t.shared.td pid) call.lun call.cdb call.data_size)
        (t.shared.space pid call.data) Q) :
    (∃ td, Q (status, td) (s'.shared.space pid data)) ∨ ∃ t c next choice data', (t, .run pid) ∈ trace ∧
      (t.procs pid).phase = .running call (.executing call (.call c next) data') ∧
      ¬ allowed c choice (t.shared.space pid data') ∧ s.shared.journal <+: t.shared.journal ∧
      (t.shared.journal ++ ((c.passes choice (t.shared.space pid data')).map fun p =>
        { pid, call, inode := p.1, store := p.2 }).toList) <+: s'.shared.journal := by
  obtain ⟨hcalled, hrun, honce, hcompleting⟩ := h
  suffices hend : InCall start.shared allowed Q s'.shared pid call (s'.procs pid).phase ∨ ∃ t c next choice data',
      (t, .run pid) ∈ trace ∧ (t.procs pid).phase = .running call (.executing call (.call c next) data') ∧
      ¬ allowed c choice (t.shared.space pid data') ∧ s.shared.journal <+: t.shared.journal ∧
      (t.shared.journal ++ ((c.passes choice (t.shared.space pid data')).map fun p =>
        { pid, call, inode := p.1, store := p.2 }).toList) <+: s'.shared.journal by
    refine hend.imp_left fun hin => ?_
    rw [hcompleting] at hin
    exact hin.2
  clear hcompleting
  induction hrun with
  | nil =>
    left
    have hflushed := (hkept.calls pid call (by rw [hcalled]; rfl)).2
    rw [hcalled] at hflushed ⊢
    exact ⟨rfl, rfl, hflushed.2.2⟩
  | @snoc trace t next act run hstep ih =>
    have hbefore : ∀ e ∈ trace, e.1.Safe e.2 := fun e he => hsafe e (List.mem_append_left _ he)
    rcases ih hbefore fun e he => honce e (List.mem_append_left _ he) with
      hin | ⟨t', c, rest, choice, data', hmem, hphase, hallowed, hstart, hend⟩
    · have hkept' := hkept.run hopened run hbefore
      have hact : act ≠ .start pid := honce (t, act) (by simp)
      rcases hin.step hstep hact hQ fun fuel hflushed halive => henter t hkept' fuel hflushed halive with
        hin' | ⟨c, rest, choice, data', rfl, hphase, hallowed, hjournal⟩
      · exact .inl hin'
      · refine .inr ⟨t, c, rest, choice, data', by simp, hphase, hallowed, journal_run run, ?_⟩
        exact ⟨[], by rw [hjournal, List.append_nil]⟩
    · exact .inr ⟨t', c, rest, choice, data', List.mem_append_left _ hmem, hphase, hallowed, hstart,
        hend.trans (journal_step hstep)⟩

/-- A byte of a call goes into a file between two states, and then what is in
`rest`, none of which is the same byte of this call. -/
structure Stored (s s' : System (targets Pid)) (pid : Pid) (call : Invocation) (inode a : Nat) (byte : UInt8)
    (rest : List (Put Pid)) : Prop where
  put : ∃ earlier p, s'.shared.journal = earlier ++ p :: rest ∧ s.shared.journal <+: earlier ∧ p.pid = pid ∧
    p.call = call ∧ p.byte? inode a = some byte
  last : ∀ q ∈ rest, q.pid = pid → q.call = call → q.byte? inode a = none

/-- A byte of a file is there, and every read of it that has just been executed
has returned it. -/
structure Visible (start s : System (targets Pid)) (trace : List (System (targets Pid) × Act Pid)) (s' : System (targets Pid))
    (inode a : Nat) (byte : UInt8) : Prop where
  file : (s'.shared.fs.files inode).bytes a = byte
  read : ∀ middle t during pid call data k, trace = middle ++ during → Run Step s middle t →
    t.Executes pid call during 0 data s' → call.cdb.get 0 = 0x28 → start.shared.Carries pid call inode a k → data k = byte

/-- Only bytes of writes have been put into files. Those of every write that was
acknowledged were in their file by then and, as long as nothing else is put in their
place, they stay there and are returned by later reads. -/
structure Durable (start : System (targets Pid)) (trace : List (System (targets Pid) × Act Pid))
    (s : System (targets Pid)) : Prop where
  puts : ∀ p ∈ s.shared.journal, ∀ inode a byte, p.byte? inode a = some byte → start.shared.MayPut p.pid p.call inode a byte
  acknowledged : ∀ before s₁ during s₂ s₃ after pid call data,
    trace = before ++ during ++ (s₂, .complete pid) :: after → Run Step start before s₁ →
    s₁.Executes pid call during 0 data s₂ → s₂.Step (.complete pid) s₃ → Run Step s₃ after s →
    start.shared.Writes pid call → ∀ inode a k, start.shared.Carries pid call inode a k →
      ∃ rest later, Stored s₁ s₂ pid call inode a (call.data k) rest ∧ s.shared.journal = s₂.shared.journal ++ later ∧
        ((∀ q ∈ rest ++ later, q.byte? inode a = none) → Visible start s₃ after s inode a (call.data k))

omit [DecidableEq Pid] in
/-- A byte of a file has one place in the data of a call. -/
theorem carries_unique {x : Storage Pid} {k' : Nat} (h : x.Carries pid call inode a k) (h' : x.Carries pid call inode a k') :
    k' = k := by
  obtain ⟨ld, lba, n, hblocks, ha, -⟩ := h.blocks
  obtain ⟨ld', lba', n', hblocks', ha', -⟩ := h'.blocks
  obtain ⟨rfl, rfl, rfl⟩ := hblocks.unique hblocks'
  omega

/-- When a write is completed its bytes have been put into the file. -/
theorem Executes.put (h : s.Executes pid call trace 0 data s') (hkept : Kept start s) (hopened : start.Opened)
    (hsafe : ∀ e ∈ trace, e.1.Safe e.2) (hcomplete : s'.Safe (.complete pid)) (hwrites : start.shared.Writes pid call)
    (hcarries : start.shared.Carries pid call inode a k) :
    ∃ puts, s'.shared.journal = s.shared.journal ++ puts ∧
      ∃ p ∈ puts, p.pid = pid ∧ p.call = call ∧ p.byte? inode a ≠ none := by
  have hkept' := hkept.run hopened h.run hsafe
  have hrestarts := (hkept.calls pid call (by rw [h.called]; rfl)).1
  have henter : ∀ t, Kept start t → ∀ fuel, (t.shared.world pid).Flushed → (t.procs pid).phase ≠ .killed →
      Executing start.shared (Sparing fun i b => i = inode ∧ b = a) pid call
        (run_scsi_command fuel (t.shared.td pid) call.lun call.cdb call.data_size) (t.shared.space pid call.data)
        (start.shared.Left (fun i b => i = inode ∧ b = a) pid call) :=
    fun t ht fuel hflushed halive => ht.enter hopened _ hrestarts fuel hflushed halive
  have hstable : ∀ r y y', start.shared.Left (fun i b => i = inode ∧ b = a) pid call r y → SameOwn y y' →
      start.shared.Left (fun i b => i = inode ∧ b = a) pid call r y' := fun r y y' => left_stable start.shared
  rcases h.result hkept hopened hsafe hstable henter with
    ⟨td, -, hleaves⟩ | ⟨t, c, next, choice, data', -, -, hallowed, ⟨before, hstart⟩, after, hend⟩
  · -- the byte has not been put into the file, so that something is still pending
    obtain ⟨n, stream, hn, hstream, hpending⟩ := hleaves.kept rfl hwrites inode a k hcarries ⟨rfl, rfl⟩
    have hputs : PutsBlocks (s'.shared.td pid) call.lun call.cdb := by
      rw [hkept'.td]
      exact hwrites
    rw [← hkept'.td] at hn
    exact absurd (hcomplete call data n stream h.completing hputs hn hstream) hpending
  · simp only [Sparing, not_forall] at hallowed
    obtain ⟨⟨inode', store⟩, hpasses, a', ⟨rfl, rfl⟩, hbyte⟩ := hallowed
    rw [hpasses, ← hstart, List.append_assoc, List.append_assoc] at hend
    refine ⟨_, hend.symm, { pid, call, inode := inode', store }, by simp, rfl, rfl, ?_⟩
    rw [Put.byte?, if_pos rfl]
    exact hbyte

theorem Executes.stored (h : s.Executes pid call trace 0 data s') (hkept : Kept start s) (hopened : start.Opened)
    (hsafe : ∀ e ∈ trace, e.1.Safe e.2) (hcomplete : s'.Safe (.complete pid)) (hwrites : start.shared.Writes pid call)
    (hcarries : start.shared.Carries pid call inode a k) : ∃ rest, Stored s s' pid call inode a (call.data k) rest := by
  obtain ⟨puts, hjournal, hputs⟩ := h.put hkept hopened hsafe hcomplete hwrites hcarries
  obtain ⟨earlier, p, rest, rfl, ⟨rfl, rfl, hcovers⟩, hlast⟩ := exists_last hputs
  obtain ⟨byte, hbyte⟩ := Option.ne_none_iff_exists'.mp hcovers
  have hmem : p ∈ s'.shared.journal := by simp [hjournal]
  obtain ⟨-, k', hcarries', rfl⟩ := (hkept.run hopened h.run hsafe).puts p hmem inode a byte hbyte
  rw [carries_unique hcarries hcarries'] at hbyte
  refine ⟨rest, ⟨s.shared.journal ++ earlier, p, ?_, List.prefix_append _ _, rfl, rfl, hbyte⟩, fun q hq hpid hcall => ?_⟩
  · rw [hjournal, List.append_assoc]
  · by_contra hcovers'
    exact hlast q hq ⟨hpid, hcall, hcovers'⟩

/-- A byte that has been put into its file and not been covered since is there. -/
theorem Kept.byte (h : Kept start s) {earlier rest : List (Put Pid)} {p : Put Pid} {byte : UInt8}
    (hjournal : s.shared.journal = earlier ++ p :: rest) (hp : p.byte? inode a = some byte)
    (hrest : ∀ q ∈ rest, q.byte? inode a = none) : (s.shared.fs.files inode).bytes a = byte := by
  rw [h.files, hjournal, latest_storesOn_covered hp hrest, Option.getD_some]

/-- A read gets a byte that is in its file all the while. -/
theorem Executes.got (h : s.Executes pid call trace 0 data s') (hkept : Kept start s) (hopened : start.Opened)
    (hsafe : ∀ e ∈ trace, e.1.Safe e.2) (hread : call.cdb.get 0 = 0x28)
    (hcarries : start.shared.Carries pid call inode a k) {byte : UInt8}
    (hbyte : ∀ e ∈ trace, (e.1.shared.fs.files inode).bytes a = byte) : data k = byte := by
  have henter : ∀ t, Kept start t → ∀ fuel, (t.shared.world pid).Flushed → (t.procs pid).phase ≠ .killed →
      Executing start.shared (Seeing inode a byte) pid call
        (run_scsi_command fuel (t.shared.td pid) call.lun call.cdb call.data_size) (t.shared.space pid call.data)
        fun r y => r.1 = 0 → y.data k = byte := by
    intro t ht fuel hflushed halive
    have hon := ht.on pid halive
    rw [ht.td]
    refine Prog.Among.weaken (run_read_interleaved (ht.emulates hopened halive) hflushed hread (hcarries.on hon) byte fuel
      call.data_size) ?_
    exact fun c choice y _ hputs => ⟨hputs.on, fun p hp a byte hb => (hputs.bytes p hp a byte hb).on hon.symm⟩
  have hstable : ∀ (r : UInt8 × TargetData) (y y' : Space), (r.1 = 0 → y.data k = byte) → SameOwn y y' →
      r.1 = 0 → y'.data k = byte := by
    intro r y y' hy hsame hstatus
    rw [hsame.data]
    exact hy hstatus
  rcases h.result hkept hopened hsafe hstable henter with
    ⟨td, hgot⟩ | ⟨t, c, next, choice, data', hmem, hphase, hallowed, -⟩
  · exact hgot rfl
  · refine absurd ⟨hbyte _ hmem, ?_⟩ hallowed
    rintro i count n stream rfl hstream
    exact hsafe _ hmem call call i count n next data' stream hphase hstream

/-- A byte stays in its file, and is read from there, until it is covered. -/
theorem Stored.visible {s₁ s₂ s₃ : System (targets Pid)} {byte : UInt8} {rest later : List (Put Pid)}
    (h : Stored s₁ s₂ pid call inode a byte rest) (hkept : Kept start s₃) (hopened : start.Opened)
    (hsame : s₂.shared.journal <+: s₃.shared.journal) (hrun : Run Step s₃ trace s) (hsafe : ∀ e ∈ trace, e.1.Safe e.2)
    (hjournal : s.shared.journal = s₂.shared.journal ++ later) (hlater : ∀ q ∈ rest ++ later, q.byte? inode a = none) :
    Visible start s₃ trace s inode a byte := by
  obtain ⟨earlier, p, hput, -, -, -, hbyte⟩ := h.put
  have hthere (t : System (targets Pid)) (ht : Kept start t) (hfirst : s₂.shared.journal <+: t.shared.journal)
      (hnext : t.shared.journal <+: s.shared.journal) : (t.shared.fs.files inode).bytes a = byte := by
    obtain ⟨since, hsince⟩ := hfirst
    rw [hjournal, ← hsince, List.prefix_append_right_inj] at hnext
    have hcovered : ∀ q ∈ rest ++ since, q.byte? inode a = none := fun q hq =>
      hlater q ((List.mem_append.mp hq).elim (List.mem_append_left _) fun hq => List.mem_append_right _ (hnext.subset hq))
    have hputs : t.shared.journal = earlier ++ p :: (rest ++ since) := by
      rw [← hsince, hput, List.append_assoc, List.cons_append]
    exact ht.byte hputs hbyte hcovered
  refine ⟨hthere s (hkept.run hopened hrun hsafe) (hsame.trans (journal_run hrun)) (List.prefix_refl _), ?_⟩
  intro middle t during pid' call' data k htrace hmiddle hexecutes hread hcarries
  subst htrace
  have hsafe₁ : ∀ e ∈ middle, e.1.Safe e.2 := fun e he => hsafe e (List.mem_append_left _ he)
  have hsafe₂ : ∀ e ∈ during, e.1.Safe e.2 := fun e he => hsafe e (List.mem_append_right _ he)
  have hkept' := hkept.run hopened hmiddle hsafe₁
  refine hexecutes.got hkept' hopened hsafe₂ hread hcarries fun e he => ?_
  obtain ⟨first, last, rfl⟩ := List.append_of_mem he
  obtain ⟨hfirst, next, hstep, hlast⟩ := hexecutes.run.split
  exact hthere e.1 (hkept'.run hopened hfirst fun e' he' => hsafe₂ e' (List.mem_append_left _ he'))
    ((hsame.trans (journal_run hmiddle)).trans (journal_run hfirst)) ((journal_step hstep).trans (journal_run hlast))

/-- In a run whose steps are all safe, acknowledged writes survive and are visible. -/
theorem durable (start s : System (targets Pid)) (trace : List (System (targets Pid) × Act Pid)) (hopened : start.Opened)
    (hrun : Run Step start trace s) (hsafe : ∀ e ∈ trace, e.1.Safe e.2) : Durable start trace s where
  puts := (hopened.kept.run hopened hrun hsafe).puts
  acknowledged before s₁ during s₂ s₃ after pid call data htrace hbefore hexecutes hcomplete hafter hwrites inode a k hcarries := by
    subst htrace
    have hsafe₁ : ∀ e ∈ before, e.1.Safe e.2 := fun e he => hsafe e (by simp [he])
    have hsafe₂ : ∀ e ∈ during, e.1.Safe e.2 := fun e he => hsafe e (by simp [he])
    have hsafe₃ : ∀ e ∈ after, e.1.Safe e.2 := fun e he => hsafe e (by simp [he])
    have hcompletes : s₂.Safe (.complete pid) := hsafe (s₂, .complete pid) (by simp)
    have hkept₁ := hopened.kept.run hopened hbefore hsafe₁
    have hkept₃ : Kept start s₃ := (hkept₁.run hopened hexecutes.run hsafe₂).step hopened hcompletes hcomplete
    obtain ⟨rest, hstored⟩ := hexecutes.stored hkept₁ hopened hsafe₂ hcompletes hwrites hcarries
    obtain ⟨later, hlater⟩ := (journal_step hcomplete).trans (journal_run hafter)
    exact ⟨rest, later, hstored, hlater.symm, fun hcovered =>
      hstored.visible hkept₃ hopened (journal_step hcomplete) hafter hsafe₃ hlater.symm hcovered⟩

/-- A process takes a step in its call. -/
theorem ran {s : System (targets Pid)} {loc loc' : Running} {x x' : Storage Pid}
    (hphase : (s.procs pid).phase = .running call loc) (hshared : s.shared = x) (hrun : Running.Step pid loc x loc' x') :
    ∃ s', s.Step (.run pid) s' ∧ (s'.procs pid).phase = .running call loc' ∧ s'.shared = x' ∧ s'.hba = s.hba := by
  subst hshared
  exact ⟨{ s with shared := x' }.setProc pid (.running call loc') (s.procs pid).task,
    ⟨call, loc, loc', x', hphase, hrun, rfl⟩, by rw [setProc_self], rfl, rfl⟩

end System

section OneBlock

open lib.Code hba device api

/-- What is left of a command on one block once the library has moved `n` bytes. -/
def blockMoved (kind : MediaCommand) (n : Nat) : Code (UInt8 × TargetData) := do
  transfer (kind.move (some 0)) (some 0) (0 : Nat) (512 : Nat) 0 (int32 (0 + n))
  return (0, diskTarget 1)

theorem blockMoved_all (kind : MediaCommand) : blockMoved kind 512 = .ret (0, diskTarget 1) := by
  have hcount : int32 (0 + (512 : Nat)) = 512 := by decide
  rw [blockMoved, hcount, transfer, if_neg (by decide)]
  rfl

/-- The code of a command on the first block. -/
theorem one_block {kind : MediaCommand} {cdb : Cdb} (hopcode : cdb.get 0 = kind.opcode) (hlba : MediaCommand.lba cdb = 0)
    (hlength : kind.length cdb = 1) (n : Int) : run_scsi_command 1 (diskTarget 1) 0 cdb n =
      .call (.fseeko (some 0) 0 .set) fun _ => kind.move (some 0) 0 512 >>= blockMoved kind := by
  have hserves : Serves (diskTarget 1) 0 (newLun 0 "disk".toList .hd 1 0 (some 0)) := (disk_made 1).serves
  have hbound : ¬ bound (newLun 0 "disk".toList .hd 1 0 (some 0)) < (((0 + 1) * 512 : Nat) : Int) := by decide
  have hsize : (newLun 0 "disk".toList .hd 1 0 (some 0)).block_size.toNat = 512 := rfl
  have hfh : (newLun 0 "disk".toList .hd 1 0 (some 0)).lun_fh = some 0 := rfl
  have hleft : size_t (((512 : Nat) : Int) - 0) = 512 := by decide
  have hput : putLun (diskTarget 1) 0 (newLun 0 "disk".toList .hd 1 0 (some 0)) = diskTarget 1 := putLun_self hserves.find
  have hzero : (((0 : Nat) : Int) + 0) = 0 := rfl
  rw [run_media_eq hserves rfl hopcode, hlba, hlength, access_eq, hsize, if_neg hbound, Nat.zero_mul, Nat.one_mul, transfer,
    if_pos (by decide)]
  simp only [hleft, hfh, Prog.bind_assoc, Prog.pure_eq, Prog.ret_bind, hput]
  refine (Prog.perform_bind _ _).trans ?_
  rw [hzero]
  rfl

/-- The files and the target of a process with one disk image. -/
def diskStorage : Storage Unit where
  fs := (diskWorld 1).fs
  streams _ := (diskWorld 1).streams
  next _ := (diskWorld 1).next
  td _ := diskTarget 1
  journal := []

/-- A command that writes one block at the start of a disk. -/
def oneBlockWrite : ScsiCmnd := { oneBlockOut with
  cmd_len := 10
  cmnd := cdb10 0x2a 0 1 }

namespace System

/-- One target, of one disk, that has not asked for a task yet. -/
def diskAlone (hba : Hba) : System (targets Unit) where
  hba := hba
  shared := diskStorage
  procs := fun _ => { phase := .polling, task := api.register_scsi_host }

theorem diskAlone_opened : (diskAlone oneTarget).Opened where
  attached :=
    { reachable := ⟨.fresh, Hba.fresh_initial, lib.Reachable.refl.tail Hba.register_step⟩
      serving := ⟨rfl, rfl, rfl⟩
      empty := rfl
      polling := fun _ => rfl }
  emulates _ :=
    { type := rfl
      luns := fun ld hld => by
        rw [List.mem_singleton.mp hld]
        exact ⟨0, "disk".toList, .hd, 1, 0, 0, 0, rfl, rfl⟩ }
  flushed _ n s hs := by
    have hstreams : (diskWorld 1).streams = Function.update (fun _ => none) 0 (some (.opened 0 true)) := rfl
    have hopened : (diskWorld 1).streams n = some s := hs
    rw [hstreams] at hopened
    by_cases hn : n = 0
    · subst hn
      rw [Function.update_self] at hopened
      cases hopened
      rfl
    · rw [Function.update_of_ne hn] at hopened
      cases hopened
  journal := rfl

theorem diskAlone_step {k k' : Hba} {op : Op} (h : k.Step op k') : (diskAlone k).Step (.kernel op) (diskAlone k') :=
  ⟨k', h, rfl⟩

def writePrepared : Hba := oneTarget.apply (.prepare 0 oneBlockWrite fun _ => 0xff)
def writeQueued : Hba := writePrepared.apply (.queuecommand 0 (some 8))

theorem writePrepared_step : oneTarget.Step (.prepare 0 oneBlockWrite fun _ => 0xff) writePrepared :=
  ⟨rfl, fun _ => rfl, ⟨oneTarget_idle 0, rfl⟩, rfl⟩

theorem writeQueued_step : writePrepared.Step (.queuecommand 0 (some 8)) writeQueued := by
  refine ⟨rfl, fun _ => rfl, ⟨oneTarget_idle 0, ?_⟩, rfl⟩
  intro task _ ht
  rw [show writePrepared.session.scsitap_queue = [] from rfl] at ht
  cases ht

/-- The target has the header, the task and the data of the command, and calls
`run_scsi_command` for it. -/
def writeOffered : System (targets Unit) :=
  ((diskAlone writeQueued).afterWake ()).setProc () .claiming (decoded writeQueued 8 67 register_scsi_host)
def writeClaimed : System (targets Unit) := writeOffered.afterClaim ()
def writeReceived : System (targets Unit) := (writeClaimed.afterWake ()).afterReceive ()
def writeStarted : System (targets Unit) := writeReceived.afterStart ()

def writeTrace : List (System (targets Unit) × Act Unit) :=
  [(diskAlone oneTarget, .kernel (.prepare 0 oneBlockWrite fun _ => 0xff)),
    (diskAlone writePrepared, .kernel (.queuecommand 0 (some 8))), (diskAlone writeQueued, .wake ()),
    ((diskAlone writeQueued).afterWake (), .header ()), (writeOffered, .claim ()), (writeClaimed, .wake ()),
    (writeClaimed.afterWake (), .receive ()), (writeReceived, .start ())]

theorem writeClaimed_dataReady :
    DataReady (writeClaimed.afterWake ()).hba ((writeClaimed.afterWake ()).procs ()).task := by
  have hlen : ((writeClaimed.afterWake ()).procs ()).task.request_bufflen ≠ 0 := by decide
  rw [DataReady, if_neg hlen]
  exact ⟨8, rfl, rfl, by decide⟩

theorem writeReceived_loaded : (writeReceived.procs ()).phase = .loaded := by
  have hdirection : ((writeClaimed.afterWake ()).procs ()).task.direction = 79 := by decide
  have hbounded : ((writeClaimed.afterWake ()).procs ()).task.Bounded := ⟨by decide, by decide⟩
  have hfails := receive_scsi_data_fails_iff (k := (writeClaimed.afterWake ()).hba) rfl hdirection hbounded
    fun addr haddr => by rw [List.mem_singleton.mp haddr]; trivial
  have hsucceeds := mt hfails.mp (not_not.mpr writeClaimed_dataReady)
  simp [writeReceived, afterReceive, setProc, check, hsucceeds]

theorem write_run : Run Step (diskAlone oneTarget) writeTrace writeStarted := by
  have hserving : ((diskAlone writeQueued).afterWake ()).hba.Serving := ⟨rfl, rfl, rfl⟩
  have hwake : Step (diskAlone writeQueued) (.wake ()) ((diskAlone writeQueued).afterWake ()) := ⟨rfl, .inl rfl, rfl, rfl⟩
  have hread : Step ((diskAlone writeQueued).afterWake ()) (.header ()) writeOffered :=
    header_step hserving rfl rfl (show offer writeQueued = some 8 from rfl) (by decide)
  have hclaim : Step writeOffered (.claim ()) writeClaimed := ⟨⟨rfl, rfl⟩, rfl, rfl⟩
  have hwake' : Step writeClaimed (.wake ()) (writeClaimed.afterWake ()) := ⟨rfl, .inr rfl, rfl, rfl⟩
  have hreceive : Step (writeClaimed.afterWake ()) (.receive ()) writeReceived := ⟨⟨⟨rfl, rfl⟩, rfl⟩, rfl, rfl⟩
  have hstart : Step writeReceived (.start ()) writeStarted := ⟨writeReceived_loaded, rfl⟩
  have hqueued := (Run.nil.snoc (diskAlone_step writePrepared_step)).snoc (diskAlone_step writeQueued_step)
  exact (((((hqueued.snoc hwake).snoc hread).snoc hclaim).snoc hwake').snoc hreceive).snoc hstart

theorem writeTrace_legal : ∀ e ∈ writeTrace, e.1.Legal e.2 ∧ e.1.Ready e.2 := by
  have hlegal : oneBlockWrite.request.Legal := ⟨by decide, by decide, trivial⟩
  intro e he
  simp only [writeTrace, List.mem_cons, List.not_mem_nil, or_false] at he
  rcases he with rfl | rfl | rfl | rfl | rfl | rfl | rfl | rfl
  · exact ⟨trivial, trivial⟩
  · exact ⟨hlegal, trivial⟩
  · exact ⟨trivial, trivial⟩
  · exact ⟨trivial, trivial⟩
  · exact ⟨trivial, trivial⟩
  · exact ⟨trivial, trivial⟩
  · exact ⟨trivial, writeClaimed_dataReady⟩
  · exact ⟨trivial, trivial⟩

/-- The call it makes. -/
def writeCall : Invocation := (writeReceived.procs ()).task.invocation

/-- Reading the data changes neither the LUN nor the CDB of a call. -/
theorem receive_scsi_data_invocation (k : Hba) (task : UserScsitapTask) :
    (receive_scsi_data k task).2.invocation.lun = task.invocation.lun ∧
      (receive_scsi_data k task).2.invocation.cdb = task.invocation.cdb := by
  rw [receive_scsi_data_task]
  exact ⟨rfl, rfl⟩

theorem writeCall_eq :
    writeCall = (receive_scsi_data writeClaimed.hba (writeClaimed.procs ()).task).2.invocation := by
  rw [writeCall, writeReceived, afterReceive_task, afterWake_task]
  rfl

theorem writeCall_lun : writeCall.lun = 0 := by
  rw [writeCall_eq, (receive_scsi_data_invocation _ _).1]
  rfl

theorem writeCall_cdb : writeCall.cdb = cdb10 0x2a 0 1 := by
  rw [writeCall_eq, (receive_scsi_data_invocation _ _).2]
  have hcdb : (writeClaimed.procs ()).task.cdb = cdb10 0x2a 0 1 := by decide
  exact hcdb

theorem writeStarted_called : (writeStarted.procs ()).phase = .running writeCall (.called writeCall) := by
  rw [writeStarted, afterStart_called, writeCall]

theorem safe_called {s : System (targets Unit)} (hphase : (s.procs ()).phase = .running call (.called call)) :
    s.Safe (.run ()) := by
  intro call' call'' i count n next data' stream hreading
  rw [hphase] at hreading
  cases hreading

theorem safe_calls {s : System (targets Unit)} {code : Code (UInt8 × TargetData)}
    (hphase : (s.procs ()).phase = .running call (.executing call code data))
    (hcode : ∀ i count n next, code ≠ .call (.fread i count (some n)) next) : s.Safe (.run ()) := by
  intro call' call'' i count n next data' stream hreading
  rw [hphase] at hreading
  cases hreading
  exact absurd rfl (hcode i count n next)

/-- A seek of a call passes on what is pending. -/
theorem seek_step (call : Invocation) (data : Mem) {x : Storage Unit} {stream : Stream} (hs : x.streams () 0 = some stream)
    (next : Unit → Code (UInt8 × TargetData)) :
    ∃ x', Running.Step () (.executing call (.call (.fseeko (some 0) 0 .set) next) data) x (.executing call (next ()) data) x' ∧
      x'.td = x.td ∧ x'.streams () 0 = some (stream.seek 0) ∧
      x'.fs.files stream.inode = stream.contents (x.fs.files stream.inode) ∧
      x'.journal = x.journal ++ [{ pid := (), call, inode := stream.inode, store := stream.held }] := by
  have hopened : (x.space () data).world.streams 0 = some stream := hs
  have hseek : libc (.fseeko (some 0) 0 .set) .whole (x.space () data) =
      .ok ((), { world := (x.space () data).world.fseeko 0 stream 0 .set, data }) := by
    simp only [libc, Space.onStream, hopened]
    rfl
  refine ⟨_, .libc call (.fseeko (some 0) 0 .set) next data x .whole () _ hseek, rfl, ?_, ?_, ?_⟩
  · simp only [Storage.after, World.fseeko, World.setStream, Function.update_self]
    rfl
  · simp only [Storage.after, World.fseeko, World.setStream, World.setFile, Function.update_self]
    rfl
  · simp only [Storage.after, lib.Call.passes, World.held, Option.bind_some, hopened, Option.map_some, Option.toList_some]

/-- A write of a call at the place of its stream passes on what the library wants. -/
theorem write_step (call : Invocation) (data : Mem) {x : Storage Unit} {stream : Stream} (hs : x.streams () 0 = some stream)
    (hwritable : stream.writable = true) (hempty : stream.pending = []) {choice : Choice} (hall : 512 ≤ choice.amount)
    (next : Nat → Code (UInt8 × TargetData)) :
    ∃ x', Running.Step () (.executing call (.call (.fwrite 0 512 (some 0)) next) data) x (.executing call (next 512) data) x' ∧
      x'.td = x.td ∧
      (∃ stream', x'.streams () 0 = some stream' ∧ stream'.inode = stream.inode ∧ stream'.cache = [] ∧
        stream'.pending = (slice data 0 512).drop choice.flushed) ∧
      x'.fs.files stream.inode =
        (x.fs.files stream.inode).pwrite stream.base ((slice data 0 512).take choice.flushed) ∧
      x'.journal = x.journal ++
        [{ pid := (), call, inode := stream.inode, store := ⟨stream.base, (slice data 0 512).take choice.flushed⟩ }] := by
  have hopened : (x.space () data).world.streams 0 = some stream := hs
  have htaken : (slice data 0 512).take choice.amount = slice data 0 512 :=
    List.take_of_length_le (by rw [slice_length]; exact hall)
  have hmoved := libc_fwrite hopened 0 512 choice
  simp only [Stream.write, hwritable, if_true, hempty, List.nil_append] at hmoved
  rw [show (x.space () data).data = data from rfl, htaken, slice_length] at hmoved
  refine ⟨_, .libc call (.fwrite 0 512 (some 0)) next data x choice (512 : Nat) _ hmoved, rfl, ?_, ?_, ?_⟩
  · simp only [Storage.after, World.setStream, Function.update_self, Option.some.injEq, exists_eq_left', true_and]
  · simp only [Storage.after, World.setStream, World.setFile, Function.update_self]
    rfl
  · simp only [Storage.after, lib.Call.passes, Option.bind_some, hopened, hwritable, if_true, hempty, List.nil_append]
    rw [show (x.space () data).data = data from rfl, htaken]
    rfl

/-- The call writes its block when the library takes all its bytes at once. How many
of them are in the file then is up to the library. -/
theorem one_block_executes (choice : Choice) (hall : 512 ≤ choice.amount) :
    ∃ trace s, writeStarted.Executes () writeCall trace 0 writeCall.data s ∧
      (∀ e ∈ trace, e.1.Safe e.2 ∧ (e.2 = .run () ∨ e.2 = .finish ())) ∧ s.hba = writeStarted.hba ∧
      s.shared.td = diskStorage.td ∧
      (∃ stream, s.shared.streams () 0 = some stream ∧ stream.inode = 0 ∧ stream.cache = [] ∧
        stream.pending = (slice writeCall.data 0 512).drop choice.flushed) ∧
      s.shared.fs.files 0 = (diskStorage.fs.files 0).pwrite 0 ((slice writeCall.data 0 512).take choice.flushed) ∧
      ∀ p ∈ s.shared.journal, p.store.bytes = [] ∨ p.store.bytes = (slice writeCall.data 0 512).take choice.flushed := by
  have hshared : writeStarted.shared = diskStorage := rfl
  have hopened : diskStorage.streams () 0 = some (.opened 0 true) := rfl
  obtain ⟨x₁, hseek, htd₁, hstream₁, hfile₁, hjournal₁⟩ := seek_step writeCall writeCall.data hopened
    fun _ => .call (.fwrite 0 512 (some 0)) (blockMoved .write10)
  obtain ⟨x₂, hwrite, htd₂, hstream₂, hfile₂, hjournal₂⟩ := write_step writeCall writeCall.data hstream₁ rfl rfl hall
    (blockMoved .write10)
  have hleave : Running.Step () (.executing writeCall (blockMoved .write10 512) writeCall.data) x₂ (.returned 0 writeCall.data)
      { x₂ with td := Function.update x₂.td () (diskTarget 1) } := by
    rw [blockMoved_all]
    exact .leave writeCall 0 (diskTarget 1) writeCall.data x₂
  have hcode : run_scsi_command 1 (diskStorage.td ()) writeCall.lun writeCall.cdb writeCall.data_size =
      .call (.fseeko (some 0) 0 .set) fun _ => .call (.fwrite 0 512 (some 0)) (blockMoved .write10) := by
    rw [writeCall_lun, writeCall_cdb, diskStorage, one_block (show (cdb10 0x2a 0 1).get 0 = MediaCommand.write10.opcode by decide) (by decide) (by decide)]
    exact congrArg (Prog.call _) (funext fun _ => Prog.perform_bind _ _)
  have henter : Running.Step () (.called writeCall) diskStorage _ diskStorage := .enter writeCall 1 diskStorage
  rw [hcode] at henter
  obtain ⟨s₁, hstep₁, hphase₁, hshared₁, hhba₁⟩ := ran writeStarted_called hshared henter
  obtain ⟨s₂, hstep₂, hphase₂, hshared₂, hhba₂⟩ := ran hphase₁ hshared₁ hseek
  obtain ⟨s₃, hstep₃, hphase₃, hshared₃, hhba₃⟩ := ran hphase₂ hshared₂ hwrite
  obtain ⟨s₄, hstep₄, hphase₄, hshared₄, hhba₄⟩ := ran hphase₃ hshared₃ hleave
  have hfinish : s₄.Step (.finish ()) (s₄.setProc () (.completing writeCall 0 writeCall.data)
      ((s₄.procs ()).task.finished 0 writeCall.data)) :=
    ⟨writeCall, .returned 0 writeCall.data, 0, writeCall.data, hphase₄, rfl, rfl⟩
  have hrun := ((((Run.nil.snoc hstep₁).snoc hstep₂).snoc hstep₃).snoc hstep₄).snoc hfinish
  have hsafe₀ : writeStarted.Safe (.run ()) := safe_called writeStarted_called
  have hsafe₁ : s₁.Safe (.run ()) := safe_calls hphase₁ fun i count n next h => by cases h
  have hsafe₂ : s₂.Safe (.run ()) := safe_calls hphase₂ fun i count n next h => by cases h
  have hsafe₃ : s₃.Safe (.run ()) := safe_calls hphase₃ fun i count n next h => by
    rw [blockMoved_all] at h
    cases h
  refine ⟨_, _, ⟨writeStarted_called, hrun, ?_, by rw [setProc_self]⟩, ?_, ?_, ?_, ?_, ?_, ?_⟩
  · intro e he
    simp only [List.nil_append, List.cons_append, List.mem_cons, List.not_mem_nil, or_false] at he
    rcases he with rfl | rfl | rfl | rfl | rfl <;> simp
  · intro e he
    simp only [List.nil_append, List.cons_append, List.mem_cons, List.not_mem_nil, or_false] at he
    rcases he with rfl | rfl | rfl | rfl | rfl
    · exact ⟨hsafe₀, .inl rfl⟩
    · exact ⟨hsafe₁, .inl rfl⟩
    · exact ⟨hsafe₂, .inl rfl⟩
    · exact ⟨hsafe₃, .inl rfl⟩
    · exact ⟨trivial, .inr rfl⟩
  · exact hhba₄.trans (hhba₃.trans (hhba₂.trans hhba₁))
  · rw [setProc, hshared₄]
    rfl
  · rw [setProc, hshared₄]
    exact hstream₂
  · rw [setProc, hshared₄]
    refine hfile₂.trans ?_
    rw [show (Stream.opened 0 true).seek 0 = Stream.opened 0 true from rfl, hfile₁, Stream.contents]
    simp only [Stream.opened, File.pwrite_nil]
  · intro p hp
    rw [setProc, hshared₄] at hp
    simp only [hjournal₂, hjournal₁, diskStorage, List.nil_append, List.cons_append, List.mem_cons, List.not_mem_nil,
      or_false] at hp
    rcases hp with rfl | rfl
    · exact .inl rfl
    · exact .inr rfl

/-- The process once it has acknowledged the command and is killed. -/
def killed (s : System (targets Unit)) : System (targets Unit) :=
  { s.afterComplete () with shared := (s.afterComplete ()).shared.kill () }.setProc () .killed
    ((s.afterComplete ()).procs ()).task

theorem writeTrace_safe : ∀ e ∈ writeTrace, e.1.Safe e.2 := by
  have hstart : writeReceived.Safe (.start ()) := by
    rintro ⟨ld, cmds, -, -, -, hopcode, -⟩
    have hcdb : (writeReceived.procs ()).task.invocation.cdb = cdb10 0x2a 0 1 := writeCall_cdb
    rw [hcdb] at hopcode
    exact absurd hopcode (by decide)
  intro e he
  simp only [writeTrace, List.mem_cons, List.not_mem_nil, or_false] at he
  rcases he with rfl | rfl | rfl | rfl | rfl | rfl | rfl | rfl
  · trivial
  · trivial
  · trivial
  · trivial
  · trivial
  · trivial
  · trivial
  · exact hstart

theorem write_killed {trace : List (System (targets Unit) × Act Unit)} {s : System (targets Unit)}
    (h : writeStarted.Executes () writeCall trace 0 data s) (hlabels : ∀ e ∈ trace, e.2 = .run () ∨ e.2 = .finish ())
    (hhba : s.hba = writeStarted.hba) :
    s.Step (.complete ()) (s.afterComplete ()) ∧ (s.afterComplete ()).Step (.kill ()) s.killed := by
  have hanswers : s.hba.Answers := by
    rw [hhba]
    exact ⟨rfl, rfl⟩
  have hcomplete : s.Step (.complete ()) (s.afterComplete ()) := ⟨hanswers, ⟨_, _, _, h.completing⟩, rfl⟩
  have hlegal : ∀ e ∈ writeTrace ++ trace ++ [(s, .complete ())], e.1.Legal e.2 ∧ e.1.Ready e.2 := by
    intro e he
    rcases List.mem_append.mp he with he | he
    · rcases List.mem_append.mp he with he | he
      · exact writeTrace_legal e he
      · obtain ⟨t, act⟩ := e
        rcases hlabels _ he with rfl | rfl <;> exact ⟨trivial, trivial⟩
    · rw [List.mem_singleton.mp he]
      exact ⟨trivial, trivial⟩
  have halive := (targets_survive_iff diskAlone_opened.attached ((write_run.append h.run).snoc hcomplete)
    fun e he => (hlegal e he).1).mpr (fun e he => (hlegal e he).2) ()
  have hkilled : ((s.afterComplete ()).procs ()).phase ≠ .killed := by
    rw [afterComplete, setProc_self]
    unfold check
    split <;> simp
  exact ⟨hcomplete, halive, hkilled, rfl⟩

theorem writeCall_writes : diskStorage.Writes () writeCall := by
  refine ⟨by rw [writeCall_cdb]; decide, newLun 0 "disk".toList .hd 1 0 (some 0), 0, 1, ?_, .sbc, rfl, ?_⟩
  · rw [writeCall_lun]
    rfl
  · rw [writeCall_cdb]
    decide

theorem writeCall_carries : diskStorage.Carries () writeCall 0 0 0 := by
  refine ⟨?_, newLun 0 "disk".toList .hd 1 0 (some 0), 0, 1, ⟨?_, .sbc, rfl, ?_⟩, rfl, by decide⟩
  · rw [writeCall_lun]
    rfl
  · rw [writeCall_lun]
    rfl
  · rw [writeCall_cdb]
    decide

end System

end OneBlock

namespace System

/-- Data that the library still keeps when the write is acknowledged is lost with
the process. -/
theorem acknowledged_write_lost : (diskAlone oneTarget).Opened ∧ ¬ ∀ (s : System (targets Unit)) trace,
    Run Step (diskAlone oneTarget) trace s → Durable (diskAlone oneTarget) trace s := by
  refine ⟨diskAlone_opened, fun hdurable => ?_⟩
  obtain ⟨during, s, hexecutes, hlabels, hhba, -, -, -, hjournal⟩ := one_block_executes .whole (by decide)
  obtain ⟨hcomplete, hkill⟩ := write_killed hexecutes (fun e he => (hlabels e he).2) hhba
  have hrun := (((write_run.append hexecutes.run).snoc hcomplete).snoc hkill)
  obtain ⟨rest, later, hstored, -⟩ := (hdurable _ _ hrun).acknowledged writeTrace writeStarted during s (s.afterComplete ())
    [(s.afterComplete (), .kill ())] () writeCall writeCall.data (by simp) write_run hexecutes hcomplete
    (Run.nil.snoc hkill) writeCall_writes 0 0 0 writeCall_carries
  obtain ⟨earlier, p, hput, -, -, -, hbyte⟩ := hstored.put
  have hnothing : p.store.bytes = [] := (hjournal p (by simp [hput])).elim id id
  unfold Put.byte? Store.byte? at hbyte
  simp [hnothing] at hbyte

/-- Data that the library has passed on by then is not. -/
theorem durable_flushed_write : ∃ trace s, Run Step (diskAlone oneTarget) trace s ∧ (s.procs ()).phase = .killed ∧
    Durable (diskAlone oneTarget) trace s := by
  obtain ⟨during, s, hexecutes, hlabels, hhba, htd, ⟨stream, hstream, -, -, hpending⟩, -⟩ :=
    one_block_executes { Choice.whole with flushed := 512 } (by decide)
  obtain ⟨hcomplete, hkill⟩ := write_killed hexecutes (fun e he => (hlabels e he).2) hhba
  have hrun := (((write_run.append hexecutes.run).snoc hcomplete).snoc hkill)
  refine ⟨_, _, hrun, by rw [killed, setProc_self], durable _ _ _ diskAlone_opened hrun fun e he => ?_⟩
  have hcompletes : s.Safe (.complete ()) := by
    intro call data' n stream' hphase hputs hn hstream'
    obtain ⟨rfl, -, -⟩ := Phase.completing.inj (hexecutes.completing.symm.trans hphase)
    have hzero : lunStream (diskStorage.td ()) 0 = some 0 := rfl
    rw [htd, writeCall_lun, hzero] at hn
    obtain rfl := Option.some.inj hn
    obtain rfl := Option.some.inj (hstream.symm.trans hstream')
    rw [hpending]
    exact List.drop_of_length_le (by rw [slice_length])
  rcases List.mem_append.mp he with he | he
  · rcases List.mem_append.mp he with he | he
    · rcases List.mem_append.mp he with he | he
      · exact writeTrace_safe e he
      · exact (hlabels e he).1
    · rw [List.mem_singleton.mp he]
      exact hcompletes
  · rw [List.mem_singleton.mp he]
    trivial

end System

end vscsi
