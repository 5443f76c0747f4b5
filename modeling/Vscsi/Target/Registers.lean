import Vscsi.Lib.Moments
import Vscsi.Lib.Register
import Vscsi.Scsi.Single
import Vscsi.Target.Durability
import Vscsi.Target.Standby

open lib

namespace vscsi

open scsi scsi_target

namespace System

variable {Pid : Type} [DecidableEq Pid] {start s s' t : System (targets Pid)} {steps : List (System (targets Pid) × Act Pid)}
  {act : Act Pid} {pid : Pid} {call call' : Invocation} {i j n m inode a : Nat} {byte : UInt8} {data : Mem}

/-- A process begins a call at a moment of a run. -/
def Begins (steps : List (System (targets Pid) × Act Pid)) (i : Nat) (pid : Pid) (call : Invocation) : Prop :=
  ∃ t, steps[i]? = some (t, .start pid) ∧ (t.procs pid).task.invocation = call

/-- Until a later moment it begins no other. -/
def Since (steps : List (System (targets Pid) × Act Pid)) (i n : Nat) (pid : Pid) : Prop :=
  i < n ∧ ∀ m t, i < m → m < n → steps[m]? ≠ some (t, .start pid)

/-- It completes the call with status 0 then. -/
def Acknowledges (steps : List (System (targets Pid) × Act Pid)) (i n : Nat) (pid : Pid) (call : Invocation) (data : Mem) : Prop :=
  Begins steps i pid call ∧ Since steps i n pid ∧
    ∃ t, steps[n]? = some (t, .complete pid) ∧ (t.procs pid).phase = .completing call 0 data

/-- A byte of a file as a register. The operations are the calls that carry the byte, by
the moments at which they begin. They work when their process takes a step in them. -/
def register (start : System (targets Pid)) (steps : List (System (targets Pid) × Act Pid)) (inode a : Nat) :
    Register Nat UInt8 where
  writes i byte := ∃ pid call k, Begins steps i pid call ∧ start.shared.Writes pid call ∧
    start.shared.Carries pid call inode a k ∧ byte = call.data k
  returned i byte := ∃ pid call n data k, Acknowledges steps i n pid call data ∧ call.cdb.get 0 = 0x28 ∧
    start.shared.Carries pid call inode a k ∧ byte = data k
  finished i := ∃ pid call n data k, Acknowledges steps i n pid call data ∧ start.shared.Writes pid call ∧
    start.shared.Carries pid call inode a k
  works i n := ∃ pid call t, Begins steps i pid call ∧ Since steps i n pid ∧ steps[n]? = some (t, .run pid)

theorem Begins.unique {pid' : Pid} (h : Begins steps i pid call) (h' : Begins steps i pid' call') : pid' = pid ∧ call' = call := by
  obtain ⟨t, hget, rfl⟩ := h
  obtain ⟨t', hget', rfl⟩ := h'
  obtain ⟨rfl, hact⟩ := Prod.mk.inj (Option.some.inj (hget'.symm.trans hget))
  obtain rfl := Act.start.inj hact
  exact ⟨rfl, rfl⟩

/-- A process is in one call at a time. -/
theorem Since.unique {call' : Invocation} (hi : Begins steps i pid call) (hj : Begins steps j pid call') (h : Since steps i n pid)
    (h' : Since steps j n pid) : i = j := by
  obtain ⟨t, hget, -⟩ := hi
  obtain ⟨t', hget', -⟩ := hj
  rcases Nat.lt_trichotomy i j with hlt | heq | hlt
  · exact absurd hget' (h.2 j t' hlt h'.1)
  · exact heq
  · exact absurd hget (h'.2 i t hlt h.1)

theorem Acknowledges.lt_length (h : Acknowledges steps i n pid call data) : n < steps.length := by
  obtain ⟨-, -, t, hget, -⟩ := h
  exact (List.getElem?_eq_some_iff.mp hget).1

/-- What has been acknowledged stays so as the run goes on. -/
theorem Acknowledges.append (h : Acknowledges steps i n pid call data) (more : List (System (targets Pid) × Act Pid)) :
    Acknowledges (steps ++ more) i n pid call data := by
  have hn := h.lt_length
  have hkept (m : Nat) (hm : m ≤ n) : (steps ++ more)[m]? = steps[m]? :=
    List.getElem?_append_left (Nat.lt_of_le_of_lt hm hn)
  obtain ⟨⟨t, hstart, hcall⟩, hsince, t', hend, hphase⟩ := h
  refine ⟨⟨t, (hkept i (Nat.le_of_lt hsince.1)).trans hstart, hcall⟩, ⟨hsince.1, fun m t'' hlow hhigh hget => ?_⟩, t',
    (hkept n (Nat.le_refl n)).trans hend, hphase⟩
  exact hsince.2 m t'' hlow hhigh ((hkept m (Nat.le_of_lt hhigh)).symm.trans hget)

/-- What a process is in at a moment of a run it has begun before. -/
theorem begun (hopened : start.Opened) (hrun : Run Step start steps s) (hn : n ≤ steps.length)
    (hcall : ((stateAt steps s n).procs pid).phase.call? = some call) :
    ∃ i, Begins steps i pid call ∧ Since steps i n pid := by
  have hinvariant := hrun.invariant_since (P := fun n t => ∀ call, (t.procs pid).phase.call? = some call →
    ∃ i, Begins steps i pid call ∧ Since steps i n pid) (Nat.zero_le n) hn ?_ ?_
  · exact hinvariant call hcall
  · intro call hcall
    rw [hrun.stateAt_zero, hopened.attached.polling] at hcall
    cases hcall
  · intro k t act t' _ _ hget hstep hbefore _ call hcall
    rcases step_call? hstep hcall with ⟨rfl, -, rfl, -, -⟩ | ⟨hact, hcall'⟩
    · exact ⟨k, ⟨t, hget, rfl⟩, Nat.lt_succ_self k, fun m _ hlow hhigh => by omega⟩
    · obtain ⟨i, hbegins, hlt, halone⟩ := hbefore call hcall'
      refine ⟨i, hbegins, Nat.lt_succ_of_lt hlt, fun m t'' hlow hhigh => ?_⟩
      rcases Nat.lt_or_eq_of_le (Nat.lt_succ_iff.mp hhigh) with hm | rfl
      · exact halone m t'' hlow hm
      · intro hget'
        exact hact (Prod.mk.inj (Option.some.inj (hget.symm.trans hget'))).2

theorem kept_at (hopened : start.Opened) (hrun : Run Step start steps s) (hsafe : ∀ e ∈ steps, e.1.Safe e.2)
    (hn : n ≤ steps.length) : Kept start (stateAt steps s n) :=
  hopened.kept.run hopened (hrun.upto hn) fun e he => hsafe e (List.mem_of_mem_take he)

/-- Only a step in a call changes a file, by what it puts into it. -/
theorem Kept.put_step (h : Kept start s) (hstep : s.Step act s') :
    s'.shared.fs.files = s.shared.fs.files ∧ s'.shared.journal = s.shared.journal ∨
      ∃ pid call p, act = .run pid ∧ (s.procs pid).phase.call? = some call ∧
        s'.shared.fs.files = passedOn s.shared.fs.files p ∧
        s'.shared.journal = s.shared.journal ++ (p.map fun p => { pid, call, inode := p.1, store := p.2 }).toList := by
  rcases step_storage hstep with hshared | ⟨pid, -, hshared⟩ | ⟨pid, call, loc, loc', hact, hphase, hrun⟩ |
    ⟨pid, n, stream, -, hphase, hstream, hpending, -⟩
  · rw [hshared]
    exact .inl ⟨rfl, rfl⟩
  · rw [hshared]
    exact .inl ⟨rfl, rfl⟩
  · have hcall := (h.calls pid call (by rw [hphase]; rfl)).2
    rw [hphase] at hcall
    obtain ⟨-, ⟨hfs, hjournal, -⟩ | ⟨c, choice, r, data, y, hlibc, hputs, hafter⟩⟩ :=
      hcall.2.puts hrun (fun r y hleft => hleft.1) h.td
    · exact .inl ⟨by rw [hfs], hjournal⟩
    · refine .inr ⟨pid, call, c.passes choice (s.shared.space pid data), hact, by rw [hphase]; rfl, ?_, by rw [hafter]; rfl⟩
      rw [hafter]
      exact libc_passes hputs.on hlibc
  · exact absurd (h.exited hphase hstream) hpending

/-- A step puts a byte into its file. -/
structure PutsAt (t : System (targets Pid)) (act : Act Pid) (t' : System (targets Pid)) (inode a : Nat) (pid : Pid)
    (call : Invocation) (byte : UInt8) : Prop where
  act : act = .run pid
  put : ∃ p : Put Pid, t'.shared.journal = t.shared.journal ++ [p] ∧ p.pid = pid ∧ p.call = call ∧ p.byte? inode a = some byte

/-- Where no byte is put the file keeps the one it has. -/
theorem Kept.same_byte (h : Kept start t) (hstep : t.Step act s')
    (hnot : ∀ pid call byte, (t.procs pid).phase.call? = some call → ¬ PutsAt t act s' inode a pid call byte) :
    (s'.shared.fs.files inode).bytes a = (t.shared.fs.files inode).bytes a := by
  rcases h.put_step hstep with ⟨hfiles, -⟩ | ⟨pid, call, p, hact, hcall, hfiles, hjournal⟩
  · rw [hfiles]
  · rw [hfiles, passedOn_byte]
    cases p with
    | none => rfl
    | some p =>
      have hnone : ∀ byte, (if p.1 = inode then p.2.byte? a else none) ≠ some byte := by
        intro byte hbyte
        exact hnot pid call byte hcall ⟨hact, _, hjournal, rfl, rfl, hbyte⟩
      rw [Option.bind_some, Option.eq_none_iff_forall_ne_some.mpr hnone, Option.getD_none]

/-- A byte that is put is there. -/
theorem PutsAt.there (h : PutsAt t act s' inode a pid call byte) (hkept : Kept start s') :
    (s'.shared.fs.files inode).bytes a = byte ∧ start.shared.MayPut pid call inode a byte := by
  obtain ⟨-, p, hjournal, rfl, rfl, hbyte⟩ := h
  refine ⟨?_, hkept.puts p (by rw [hjournal]; simp) inode a byte hbyte⟩
  exact hkept.byte hjournal hbyte (by simp)

/-- What is in the journal has been put there by a step. -/
theorem exists_put (hopened : start.Opened) (hrun : Run Step start steps s) (hsafe : ∀ e ∈ steps, e.1.Safe e.2)
    (hn : n ≤ m) (hm : m ≤ steps.length) {puts : List (Put Pid)} {p : Put Pid}
    (hjournal : (stateAt steps s m).shared.journal = (stateAt steps s n).shared.journal ++ puts) (hp : p ∈ puts)
    (hbyte : p.byte? inode a = some byte) :
    ∃ k t, n ≤ k ∧ k < m ∧ steps[k]? = some (t, .run p.pid) ∧
      PutsAt t (.run p.pid) (stateAt steps s (k + 1)) inode a p.pid p.call byte := by
  have hinvariant := hrun.invariant_since (P := fun m' t' => m' ≤ m → ∀ puts,
    t'.shared.journal = (stateAt steps s n).shared.journal ++ puts → p ∈ puts →
      ∃ k t, n ≤ k ∧ k < m' ∧ steps[k]? = some (t, .run p.pid) ∧
        PutsAt t (.run p.pid) (stateAt steps s (k + 1)) inode a p.pid p.call byte) hn hm ?_ ?_
  · exact hinvariant (Nat.le_refl m) puts hjournal hp
  · intro _ puts hsame hp
    rw [List.append_cancel_left (hsame.symm.trans (List.append_nil _).symm)] at hp
    cases hp
  · rintro k t act t' hnk hkm hget hstep hbefore rfl hle puts hputs hp
    have hkept : Kept start t := by
      have hkept' := kept_at hopened hrun hsafe (Nat.le_trans (Nat.le_of_lt hkm) hm)
      rwa [stateAt_of_get hget] at hkept'
    obtain ⟨earlier, hearlier⟩ : (stateAt steps s n).shared.journal <+: t.shared.journal := by
      have hbetween := hrun.between hnk (Nat.le_trans (Nat.le_of_lt hkm) hm)
      rw [stateAt_of_get hget] at hbetween
      exact journal_run hbetween
    have hmono (h : p ∈ earlier) : ∃ k' t, n ≤ k' ∧ k' < k + 1 ∧ steps[k']? = some (t, .run p.pid) ∧
          PutsAt t (.run p.pid) (stateAt steps s (k' + 1)) inode a p.pid p.call byte := by
      obtain ⟨k', t', hlow, hhigh, hrest⟩ := hbefore (Nat.le_of_lt hkm) earlier hearlier.symm h
      exact ⟨k', t', hlow, Nat.lt_succ_of_lt hhigh, hrest⟩
    rcases hkept.put_step hstep with ⟨-, hjournal'⟩ | ⟨pid, call, q, rfl, -, -, hjournal'⟩
    · rw [hjournal', ← hearlier] at hputs
      exact hmono (List.append_cancel_left hputs ▸ hp)
    · rw [hjournal', ← hearlier, List.append_assoc] at hputs
      rw [← List.append_cancel_left hputs] at hp
      rcases List.mem_append.mp hp with hp | hp
      · exact hmono hp
      · obtain ⟨q', rfl, rfl⟩ := Option.map_eq_some_iff.mp (Option.mem_toList.mp hp)
        exact ⟨k, t, hnk, Nat.lt_succ_self k, hget, rfl, _, hjournal', rfl, rfl, hbyte⟩

/-- A process that has begun a write passes on a byte once at most: not again if one has
been `seen`. -/
def Sole (x : Storage Pid) (pid : Pid) (call : Invocation) (inode a : Nat) (seen : Prop) : Phase Running → Prop
  | .running _ (.called call') => call' = call ∧ ¬ seen
  | .running _ (.executing call' code data) => call' = call ∧ Single inode a code seen (x.space pid data) fun _ _ _ => True
  | _ => True

omit [DecidableEq Pid] in
theorem Sole.stable {x x' : Storage Pid} {seen : Prop} {phase : Phase Running} (h : Sole x pid call inode a seen phase)
    (hstreams : x'.streams pid = x.streams pid) : Sole x' pid call inode a seen phase := by
  cases phase with
  | running call' loc =>
    cases loc with
    | called call'' => exact h
    | executing call'' code data => exact ⟨h.1, h.2.stable .trans (Storage.sameOwn hstreams data)⟩
    | returned status data => trivial
  | _ => trivial

/-- A step that puts a byte is in the journal. -/
theorem PutsAt.journal_ne (h : PutsAt t act s' inode a pid call byte) : s'.shared.journal ≠ t.shared.journal := by
  intro hsame
  obtain ⟨-, p, hjournal, -⟩ := h
  have hlength := congrArg List.length (hsame.symm.trans hjournal)
  simp at hlength

/-- A call to the C library that puts a byte passes it on. -/
theorem PutsAt.marks {c : lib.Call} {choice : Choice} (h : PutsAt t act s' inode a pid call byte)
    (hjournal : s'.shared.journal = t.shared.journal ++ ((c.passes choice (t.shared.space pid data)).map fun p =>
      { pid, call, inode := p.1, store := p.2 }).toList) : Marks inode a c choice (t.shared.space pid data) := by
  obtain ⟨-, p, hput, -, -, hbyte⟩ := h
  have hnew := List.append_cancel_left (hjournal.symm.trans hput)
  cases hpasses : c.passes choice (t.shared.space pid data) with
  | none =>
    rw [hpasses] at hnew
    cases hnew
  | some q =>
    rw [hpasses] at hnew
    obtain rfl := List.singleton_inj.mp hnew
    unfold Put.byte? at hbyte
    split at hbyte
    · rename_i hinode
      exact ⟨q, hpasses, hinode, by rw [hbyte]; exact Option.some_ne_none byte⟩
    · cases hbyte

/-- A write that is entered has the byte still to pass on. -/
theorem Kept.enter_single (h : Kept start s) (hopened : start.Opened)
    (hphase : (s.procs pid).phase = .running call' (.called call)) (hwrites : start.shared.Writes pid call) (fuel : Nat) :
    Single inode a (run_scsi_command fuel (s.shared.td pid) call.lun call.cdb call.data_size) False
      (s.shared.space pid call.data) fun _ _ _ => True := by
  have halive : (s.procs pid).phase ≠ .killed := by simp [hphase]
  have hcalled := (h.calls pid call' (by rw [hphase]; rfl)).2
  rw [hphase] at hcalled
  obtain ⟨hwrite, ld, lba, n, hblocks⟩ := hwrites
  rw [h.td]
  exact run_write_single (h.emulates hopened halive) hcalled.2.2 hwrite hblocks fuel call.data_size

/-- What passes on a byte makes it seen, and has not found it seen. -/
theorem Sole.step {seen : Prop} (h : Sole s.shared pid call inode a seen (s.procs pid).phase) (hkept : Kept start s)
    (hopened : start.Opened) (hwrites : start.shared.Writes pid call) (hstep : s.Step act s') (hact : act ≠ .start pid) :
    ∃ seen', (seen → seen') ∧ (∀ byte, PutsAt s act s' inode a pid call byte → ¬ seen ∧ seen') ∧
      Sole s'.shared pid call inode a seen' (s'.procs pid).phase := by
  by_cases hrun : act = .run pid
  · subst hrun
    obtain ⟨call', loc, loc', shared, hphase, hrun, rfl⟩ := hstep
    rw [hphase] at h
    rw [setProc_self]
    cases hrun with
    | enter call'' fuel =>
      obtain ⟨rfl, hseen⟩ := h
      obtain rfl : seen = False := eq_false hseen
      exact ⟨False, id, fun byte hputs => absurd rfl hputs.journal_ne, rfl, hkept.enter_single hopened hphase hwrites fuel⟩
    | libc call'' c next data _ choice r y hlibc =>
      obtain ⟨rfl, hsingle⟩ := h
      obtain ⟨hnot, hnext⟩ := hsingle.call (.refl _) hlibc
      have hspace : (s.shared.after pid call'' y.world (c.passes choice (s.shared.space pid data))).space pid y.data = y :=
        congrArg (Space.mk · y.data) (Storage.after_world s.shared pid call'' y.world _)
      rw [← hspace] at hnext
      refine ⟨seen ∨ Marks inode a c choice (s.shared.space pid data), Or.inl, fun byte hputs => ?_, rfl, hnext⟩
      have hmarks := hputs.marks rfl
      exact ⟨fun hseen => hnot hseen hmarks, .inr hmarks⟩
    | leave call'' status td data =>
      exact ⟨seen, id, fun byte hputs => absurd rfl hputs.journal_ne, trivial⟩
  · refine ⟨seen, id, fun byte hputs => absurd hputs.act hrun, ?_⟩
    cases step_progress hstep pid with
    | other hproc hstreams =>
      rw [hproc]
      exact h.stable hstreams
    | idle hbefore halive hlast hafter =>
      cases hphase : (s'.procs pid).phase with
      | running call' loc => exact absurd hphase (hafter call' loc)
      | _ => trivial
    | started hstart => exact absurd hstart hact
    | ran _ _ _ hact' => exact absurd hact' hrun
    | finished call' status data _ _ hphase' =>
      rw [hphase']
      trivial
    | killed _ hphase' =>
      rw [hphase']
      trivial
    | flushed n stream _ hphase hproc =>
      rw [hproc, hphase]
      trivial

theorem Begins.called (h : Begins steps i pid call) (hrun : Run Step start steps s) :
    ((stateAt steps s (i + 1)).procs pid).phase = .running call (.called call) := by
  obtain ⟨t, hget, rfl⟩ := h
  have hstep : t.Step (.start pid) (stateAt steps s (i + 1)) := hrun.step_at hget
  rw [hstep.2]
  exact afterStart_called t pid

/-- The run lemma of `Sole.step`. -/
theorem sole_at (hopened : start.Opened) (hrun : Run Step start steps s) (hsafe : ∀ e ∈ steps, e.1.Safe e.2)
    (hn : n ≤ steps.length) (hbegins : Begins steps i pid call) (hsince : Since steps i n pid)
    (hwrites : start.shared.Writes pid call) (inode a : Nat) :
    ∃ seen : Prop, (∀ m t byte, i < m → m < n → steps[m]? = some (t, .run pid) →
        PutsAt t (.run pid) (stateAt steps s (m + 1)) inode a pid call byte → seen) ∧
      Sole (stateAt steps s n).shared pid call inode a seen ((stateAt steps s n).procs pid).phase := by
  refine hrun.invariant_since (P := fun n t => ∃ seen : Prop, (∀ m t byte, i < m → m < n → steps[m]? = some (t, .run pid) →
      PutsAt t (.run pid) (stateAt steps s (m + 1)) inode a pid call byte → seen) ∧
    Sole t.shared pid call inode a seen (t.procs pid).phase) (Nat.succ_le_of_lt hsince.1) hn ?_ ?_
  · refine ⟨False, fun m t byte hlow hhigh => by omega, ?_⟩
    rw [hbegins.called hrun]
    exact ⟨rfl, not_false⟩
  · rintro k t act t' hik hkn hget hstep ⟨seen, hseen, hsole⟩ rfl
    have hkept := kept_at hopened hrun hsafe (Nat.le_trans (Nat.le_of_lt hkn) hn)
    rw [stateAt_of_get hget] at hkept
    have hact : act ≠ .start pid := by
      rintro rfl
      exact hsince.2 k t hik hkn hget
    obtain ⟨seen', hmono, hputs, hsole'⟩ := hsole.step hkept hopened hwrites hstep hact
    refine ⟨seen', fun m t' byte hlow hhigh hget' hput => ?_, hsole'⟩
    rcases Nat.lt_or_eq_of_le (Nat.lt_succ_iff.mp hhigh) with hm | rfl
    · exact hmono (hseen m t' byte hlow hm hget' hput)
    · obtain ⟨rfl, rfl⟩ := Prod.mk.inj (Option.some.inj (hget.symm.trans hget'))
      exact (hputs byte hput).2

/-- The call that has begun at a moment `i` puts a byte at another, `n`. -/
def Putting (steps : List (System (targets Pid) × Act Pid)) (s : System (targets Pid)) (inode a n i : Nat) (byte : UInt8) : Prop :=
  ∃ pid call t, Begins steps i pid call ∧ Since steps i n pid ∧ steps[n]? = some (t, .run pid) ∧
    PutsAt t (.run pid) (stateAt steps s (n + 1)) inode a pid call byte

theorem Putting.there (h : Putting steps s inode a n i byte) (hopened : start.Opened) (hrun : Run Step start steps s)
    (hsafe : ∀ e ∈ steps, e.1.Safe e.2) : ((stateAt steps s (n + 1)).shared.fs.files inode).bytes a = byte ∧
      (register start steps inode a).works i n ∧ (register start steps inode a).writes i byte := by
  obtain ⟨pid, call, t, hbegins, hsince, hget, hputs⟩ := h
  have hn : n < steps.length := (List.getElem?_eq_some_iff.mp hget).1
  obtain ⟨hbyte, hwrites, k, hcarries, hdata⟩ := hputs.there (kept_at hopened hrun hsafe hn)
  exact ⟨hbyte, ⟨pid, call, t, hbegins, hsince, hget⟩, pid, call, k, hbegins, hwrites, hcarries, hdata⟩

/-- A call does not put a byte again. -/
theorem Putting.not_again {byte' : UInt8} (h : Putting steps s inode a n i byte) (h' : Putting steps s inode a m i byte')
    (hopened : start.Opened) (hrun : Run Step start steps s) (hsafe : ∀ e ∈ steps, e.1.Safe e.2) : ¬ n < m := by
  intro hlt
  obtain ⟨pid, call, t, hbegins, hsince, hget, hputs⟩ := h
  obtain ⟨pid', call', t', hbegins', hsince', hget', hputs'⟩ := h'
  obtain ⟨rfl, rfl⟩ := hbegins.unique hbegins'
  have hm : m < steps.length := (List.getElem?_eq_some_iff.mp hget').1
  have hwrites := (hputs.there (kept_at hopened hrun hsafe (Nat.le_trans hlt (Nat.le_of_lt hm)))).2.1
  obtain ⟨seen, hseen, hsole⟩ := sole_at hopened hrun hsafe (Nat.le_of_lt hm) hbegins hsince' hwrites inode a
  have hkept := kept_at hopened hrun hsafe (Nat.le_of_lt hm)
  rw [stateAt_of_get hget'] at hsole hkept
  obtain ⟨seen', -, hnot, -⟩ := hsole.step hkept hopened hwrites (hrun.step_at hget') (by simp)
  exact (hnot byte' hputs').1 (hseen n t byte hsince.1 hlt hget hputs)

theorem Acknowledges.executes (h : Acknowledges steps i n pid call data) (hrun : Run Step start steps s) :
    (stateAt steps s (i + 1)).Executes pid call ((steps.drop (i + 1)).take (n - (i + 1))) 0 data (stateAt steps s n) := by
  obtain ⟨hbegins, hsince, t, hget, hphase⟩ := h
  have hn : n < steps.length := (List.getElem?_eq_some_iff.mp hget).1
  refine ⟨hbegins.called hrun, hrun.between (Nat.succ_le_of_lt hsince.1) (Nat.le_of_lt hn), fun e he hact => ?_, ?_⟩
  · obtain ⟨k, hlow, hhigh, hget'⟩ := mem_between he
    refine hsince.2 k e.1 hlow hhigh ?_
    rw [hget', ← hact]
  · rw [stateAt_of_get hget]
    exact hphase

/-- A write that is acknowledged has put its bytes. -/
theorem Acknowledges.put {k : Nat} (h : Acknowledges steps i n pid call data) (hopened : start.Opened)
    (hrun : Run Step start steps s) (hsafe : ∀ e ∈ steps, e.1.Safe e.2) (hwrites : start.shared.Writes pid call)
    (hcarries : start.shared.Carries pid call inode a k) : ∃ m byte, Putting steps s inode a m i byte := by
  have hexecutes := h.executes hrun
  obtain ⟨hbegins, hsince, t, hget, -⟩ := h
  have hn : n < steps.length := (List.getElem?_eq_some_iff.mp hget).1
  have hin : i + 1 ≤ n := Nat.succ_le_of_lt hsince.1
  have hcomplete : (stateAt steps s n).Safe (.complete pid) := by
    rw [stateAt_of_get hget]
    exact hsafe _ (List.mem_of_getElem? hget)
  obtain ⟨puts, hjournal, p, hp, rfl, rfl, hcovers⟩ := hexecutes.put
    (kept_at hopened hrun hsafe (Nat.le_trans hin (Nat.le_of_lt hn))) hopened
    (fun e he => hsafe e (List.mem_of_mem_drop (List.mem_of_mem_take he))) hcomplete hwrites hcarries
  obtain ⟨byte, hbyte⟩ := Option.ne_none_iff_exists'.mp hcovers
  obtain ⟨m, t', hlow, hhigh, hget', hputs⟩ := exists_put hopened hrun hsafe hin (Nat.le_of_lt hn) hjournal hp hbyte
  exact ⟨m, byte, p.pid, p.call, t', hbegins, ⟨hlow, fun k t hik hkm => hsince.2 k t hik (Nat.lt_trans hkm hhigh)⟩, hget', hputs⟩

/-- A read returns bytes that it has found in their file. -/
theorem Executes.found {trace : List (System (targets Pid) × Act Pid)} {k : Nat}
    (h : t.Executes pid call trace 0 data s) (hkept : Kept start t) (hopened : start.Opened)
    (hsafe : ∀ e ∈ trace, e.1.Safe e.2) (hread : call.cdb.get 0 = 0x28) (hcarries : start.shared.Carries pid call inode a k) :
    ∃ t', (t', .run pid) ∈ trace ∧ (t'.shared.fs.files inode).bytes a = data k := by
  obtain ⟨ld, lba, count, hblocks, rfl, hk⟩ := hcarries.blocks
  let found (b : Nat) (byte : UInt8) : Prop := ∃ t', (t', .run pid) ∈ trace ∧ (t'.shared.fs.files inode).bytes b = byte
  have henter : ∀ t, Kept start t → ∀ fuel, (t.shared.world pid).Flushed → (t.procs pid).phase ≠ .killed →
      Executing start.shared (Meeting found inode) pid call
        (run_scsi_command fuel (t.shared.td pid) call.lun call.cdb call.data_size) (t.shared.space pid call.data)
        fun r y => r.1 = 0 → ∀ k < count * ld.block_size.toNat, found (lba * ld.block_size.toNat + k) (y.data k) := by
    intro t ht fuel hflushed halive
    have hon := ht.on pid halive
    rw [ht.td]
    refine Prog.Among.weaken (run_read_found (ht.emulates hopened halive) hflushed hread hblocks (hcarries.on hon).file found
      fuel call.data_size) ?_
    exact fun c choice y _ hputs => ⟨hputs.on, fun p hp a byte hb => (hputs.bytes p hp a byte hb).on hon.symm⟩
  have hstable : ∀ (r : UInt8 × TargetData) (y y' : Space),
      (r.1 = 0 → ∀ k < count * ld.block_size.toNat, found (lba * ld.block_size.toNat + k) (y.data k)) → SameOwn y y' →
        r.1 = 0 → ∀ k < count * ld.block_size.toNat, found (lba * ld.block_size.toNat + k) (y'.data k) := by
    intro r y y' hy hsame hstatus
    rw [hsame.data]
    exact hy hstatus
  rcases h.result hkept hopened hsafe hstable henter with
    ⟨td, hgot⟩ | ⟨t', c, next, choice, data', hmem, hphase, hallowed, -⟩
  · exact hgot rfl k hk
  · refine absurd ⟨fun b => ⟨t', hmem, rfl⟩, ?_⟩ hallowed
    rintro i count n stream rfl hstream
    exact hsafe _ hmem call call i count n next data' stream hphase hstream

theorem Acknowledges.found {k : Nat} (h : Acknowledges steps i n pid call data) (hopened : start.Opened)
    (hrun : Run Step start steps s) (hsafe : ∀ e ∈ steps, e.1.Safe e.2) (hread : call.cdb.get 0 = 0x28)
    (hcarries : start.shared.Carries pid call inode a k) :
    ∃ m, (register start steps inode a).works i m ∧ ((stateAt steps s m).shared.fs.files inode).bytes a = data k := by
  have hexecutes := h.executes hrun
  obtain ⟨hbegins, hsince, t, hget, -⟩ := h
  have hn : n < steps.length := (List.getElem?_eq_some_iff.mp hget).1
  have hkept := kept_at hopened hrun hsafe (Nat.le_trans (Nat.succ_le_of_lt hsince.1) (Nat.le_of_lt hn))
  obtain ⟨t', hmem, hbyte⟩ := hexecutes.found hkept hopened
    (fun e he => hsafe e (List.mem_of_mem_drop (List.mem_of_mem_take he))) hread hcarries
  obtain ⟨m, hlow, hhigh, hget'⟩ := mem_between hmem
  refine ⟨m, ⟨pid, call, t', hbegins, ⟨hlow, fun k t hik hkm => hsince.2 k t hik (Nat.lt_trans hkm hhigh)⟩, hget'⟩, ?_⟩
  rw [stateAt_of_get hget']
  exact hbyte

/-- A process that has completed a call is in none. -/
theorem completed_call? (hstep : t.Step (.complete pid) s') : (s'.procs pid).phase.call? = none := by
  obtain ⟨-, -, rfl⟩ := hstep
  rw [afterComplete, setProc_self]
  unfold check
  split <;> rfl

/-- A call is not acknowledged again. -/
theorem Acknowledges.not_again {data' : Mem} (h : Acknowledges steps i n pid call data)
    (h' : Acknowledges steps i m pid call data') (hrun : Run Step start steps s) : ¬ n < m := by
  intro hlt
  obtain ⟨-, hsince, t, hget, -⟩ := h
  obtain ⟨-, hsince', t', hget', hphase'⟩ := h'
  have hm : m < steps.length := (List.getElem?_eq_some_iff.mp hget').1
  have hnone := hrun.invariant_since (P := fun _ t => (t.procs pid).phase.call? = none) (Nat.succ_le_of_lt hlt) (Nat.le_of_lt hm)
    (completed_call? (hrun.step_at hget)) fun k t act t' hnk hkm hget'' hstep hbefore _ => by
      by_contra hin
      obtain ⟨call', hcall⟩ := Option.ne_none_iff_exists'.mp hin
      rcases step_call? hstep hcall with ⟨rfl, -⟩ | ⟨-, hcall'⟩
      · exact hsince'.2 k t (Nat.lt_trans hsince.1 hnk) hkm hget''
      · rw [hbefore] at hcall'
        cases hcall'
  rw [stateAt_of_get hget', hphase'] at hnone
  cases hnone

theorem Acknowledges.same {data' : Mem} (h : Acknowledges steps i n pid call data)
    (h' : Acknowledges steps i m pid call data') (hrun : Run Step start steps s) : data' = data := by
  obtain rfl : n = m := Nat.le_antisymm (Nat.not_lt.mp (h'.not_again h hrun)) (Nat.not_lt.mp (h.not_again h' hrun))
  obtain ⟨-, -, t, hget, hphase⟩ := h
  obtain ⟨-, -, t', hget', hphase'⟩ := h'
  obtain ⟨rfl, -⟩ := Prod.mk.inj (Option.some.inj (hget.symm.trans hget'))
  exact (Phase.completing.inj (hphase'.symm.trans hphase)).2.2

/-- The bytes of the files are kept as those of registers. -/
theorem register_keeps (hopened : start.Opened) (hrun : Run Step start steps s) (hsafe : ∀ e ∈ steps, e.1.Safe e.2)
    (inode a : Nat) : (register start steps inode a).Keeps ((start.shared.fs.files inode).bytes a)
      (fun n => ((stateAt steps s n).shared.fs.files inode).bytes a) (Putting steps s inode a) where
  init := by rw [hrun.stateAt_zero]
  put n i byte hput := (hput.there hopened hrun hsafe).1
  keep n hnone := by
    rcases Nat.lt_or_ge n steps.length with hn | hn
    · obtain ⟨⟨t, act⟩, hget⟩ : ∃ e, steps[n]? = some e := ⟨_, List.getElem?_eq_getElem hn⟩
      have hkept := kept_at hopened hrun hsafe (Nat.le_of_lt hn)
      rw [stateAt_of_get hget] at hkept ⊢
      refine hkept.same_byte (hrun.step_at hget) fun pid call byte hcall hputs => ?_
      obtain rfl := hputs.act
      have hcall' : ((stateAt steps s n).procs pid).phase.call? = some call := by rwa [stateAt_of_get hget]
      obtain ⟨i, hbegins, hsince⟩ := begun hopened hrun (Nat.le_of_lt hn) hcall'
      exact hnone i byte ⟨pid, call, t, hbegins, hsince, hget, hputs⟩
    · rw [stateAt_end hn, stateAt_end (Nat.le_succ_of_le hn)]
  works n i byte hput := (hput.there hopened hrun hsafe).2
  once n m i v w hput hput' := Nat.le_antisymm (Nat.not_lt.mp (hput'.not_again hput hopened hrun hsafe))
    (Nat.not_lt.mp (hput.not_again hput' hopened hrun hsafe))
  own i j n h h' := by
    obtain ⟨pid, call, t, hbegins, hsince, hget⟩ := h
    obtain ⟨pid', call', t', hbegins', hsince', hget'⟩ := h'
    obtain ⟨-, hact⟩ := Prod.mk.inj (Option.some.inj (hget.symm.trans hget'))
    obtain rfl := Act.run.inj hact
    exact Since.unique hbegins hbegins' hsince hsince'
  finished i h := by
    obtain ⟨pid, call, n, data, k, hacknowledges, hwrites, hcarries⟩ := h
    exact hacknowledges.put hopened hrun hsafe hwrites hcarries
  reads i v h := by
    obtain ⟨pid, call, n, data, k, hacknowledges, hread, hcarries, rfl⟩ := h
    refine ⟨fun w hwrites => ?_, hacknowledges.found hopened hrun hsafe hread hcarries⟩
    obtain ⟨pid', call', k', hbegins, hwrites, -⟩ := hwrites
    obtain ⟨rfl, rfl⟩ := hacknowledges.1.unique hbegins
    exact hwrites.1 hread
  unique i v w h h' := by
    obtain ⟨pid, call, n, data, k, hacknowledges, -, hcarries, rfl⟩ := h
    obtain ⟨pid', call', n', data', k', hacknowledges', -, hcarries', rfl⟩ := h'
    obtain ⟨rfl, rfl⟩ := hacknowledges.1.unique hacknowledges'.1
    rw [carries_unique hcarries hcarries', hacknowledges.same hacknowledges' hrun]

/-- However many targets share the files, and whenever they are killed: in a run of
safe steps each byte is as if every write, and every read, of it took effect at one
moment between its beginning and its end. -/
theorem bytes_atomic (start s : System (targets Pid)) (steps : List (System (targets Pid) × Act Pid)) (hopened : start.Opened)
    (hrun : Run Step start steps s) (hsafe : ∀ e ∈ steps, e.1.Safe e.2) (inode a : Nat) :
    (register start steps inode a).Atomic ((start.shared.fs.files inode).bytes a) :=
  (register_keeps hopened hrun hsafe inode a).atomic

section OneBlock

variable {w : System (targets Unit)} {x : Storage Unit} {stream : Stream} {block : List UInt8}

/-- What the stream of the disk has for the first block. -/
structure Shown (x : Storage Unit) (stream : Stream) (block : List UInt8) : Prop where
  target : x.td () = diskTarget 1
  opened : x.streams () 0 = some stream
  coherent : stream.Coherent (x.fs.files stream.inode)
  block : (stream.contents (x.fs.files stream.inode)).pread 0 512 = block

theorem not_restarts (lun : UInt8) (cdb : Cdb) : ¬ Restarts (diskTarget 1) lun cdb := by
  rintro ⟨ld, cmds, hlun, hcmds, rfl, -⟩
  obtain rfl := List.mem_singleton.mp (List.mem_of_find?_eq_some hlun)
  cases hcmds

theorem Brings.safe {cmnd : ScsiCmnd} {act : Act Unit} (h : Brings cmnd w act) (htd : w.shared.td () = diskTarget 1) :
    w.Safe act := by
  cases act with
  | start pid =>
    rw [Safe, show w.shared.td pid = diskTarget 1 from htd]
    exact not_restarts _ _
  | run pid => exact h.elim
  | complete pid => exact h.elim
  | _ => trivial

theorem Shown.seek (h : Shown x stream block) (call : Invocation) (data : Mem) (next : Unit → Code (UInt8 × TargetData)) :
    ∃ x', Running.Step () (.executing call (.call (.fseeko (some 0) 0 .set) next) data) x (.executing call (next ()) data) x' ∧
      Shown x' (stream.seek 0) block := by
  obtain ⟨x', hstep, htd, hopened, hfile, -⟩ := seek_step call data h.opened next
  have hfile' : x'.fs.files (stream.seek 0).inode = stream.contents (x.fs.files stream.inode) := hfile
  refine ⟨x', hstep, by rw [htd, h.target], hopened, ?_, ?_⟩
  · rw [hfile']
    exact h.coherent.seek 0
  · rw [hfile', Stream.contents_seek, h.block]

/-- A read of a call at the start of the file gets the block. -/
theorem Shown.read (h : Shown x stream block) (hpos : stream.pos = 0) (hlength : block.length = 512) (call : Invocation)
    (data : Mem) (next : Nat → Code (UInt8 × TargetData)) :
    ∃ x', Running.Step () (.executing call (.call (.fread 0 512 (some 0)) next) data) x
      (.executing call (next block.length) (blit data 0 block)) x' ∧ x'.td () = diskTarget 1 := by
  have hfound : stream.found (stream.contents (x.fs.files stream.inode)) 512 .whole = block := by
    rw [h.coherent.found_eq, hpos, h.block]
    exact List.take_of_length_le (by rw [hlength]; decide)
  have hread := libc_fread (x := x.space () data) h.opened 0 512 .whole
  rw [show (x.space () data).world.file stream = x.fs.files stream.inode from rfl, hfound] at hread
  exact ⟨_, .libc call (.fread 0 512 (some 0)) next data x .whole block.length _ hread, h.target⟩

theorem Shown.safe (h : Shown w.shared stream block) {next : Nat → Code (UInt8 × TargetData)}
    (hphase : (w.procs ()).phase = .running call (.executing call (.call (.fread 0 512 (some 0)) next) data)) :
    w.Safe (.run ()) := by
  intro call₁ call₂ i count n next' data' stream' hreading hstream'
  rw [hphase] at hreading
  cases hreading
  obtain rfl := Option.some.inj (h.opened.symm.trans hstream')
  exact h.coherent.served_eq 512

/-- A call that reads the first block gets it. -/
theorem Shown.executes (h : Shown w.shared stream block) (hlength : block.length = 512) {call : Invocation}
    (hphase : (w.procs ()).phase = .running call (.called call)) (hlun : call.lun = 0) (hopcode : call.cdb.get 0 = 0x28)
    (hblocks : blocks .sbc call.cdb = some (0, 1)) :
    ∃ during s, Run Step w during s ∧ (∀ e ∈ during, e.1.Safe e.2) ∧ s.hba = w.hba ∧
      (s.procs ()).phase = .completing call 0 (blit call.data 0 block) := by
  have hfields : blocks .sbc call.cdb = some (MediaCommand.lba call.cdb, MediaCommand.read10.length call.cdb) := by
    simp only [blocks, hopcode]
    rfl
  obtain ⟨hlba, hcount⟩ := Prod.mk.inj (Option.some.inj (hfields.symm.trans hblocks))
  have hcode : run_scsi_command 1 (w.shared.td ()) call.lun call.cdb call.data_size =
      .call (.fseeko (some 0) 0 .set) fun _ => .call (.fread 0 512 (some 0)) (blockMoved .read10) := by
    rw [h.target, hlun, one_block (show call.cdb.get 0 = MediaCommand.read10.opcode from hopcode) hlba hcount]
    exact congrArg (Prog.call _) (funext fun _ => Prog.perform_bind _ _)
  have henter : Running.Step () (.called call) w.shared _ w.shared := .enter call 1 w.shared
  rw [hcode] at henter
  obtain ⟨x₁, hseek, hshown₁⟩ := h.seek call call.data fun _ => .call (.fread 0 512 (some 0)) (blockMoved .read10)
  obtain ⟨x₂, hread, htd₂⟩ := hshown₁.read (Stream.pos_seek stream 0) hlength call call.data (blockMoved .read10)
  rw [hlength, blockMoved_all] at hread
  have hleave : Running.Step () _ x₂ _ _ := .leave call 0 (diskTarget 1) (blit call.data 0 block) x₂
  obtain ⟨s₁, hstep₁, hphase₁, hshared₁, hhba₁⟩ := ran hphase rfl henter
  obtain ⟨s₂, hstep₂, hphase₂, hshared₂, hhba₂⟩ := ran hphase₁ hshared₁ hseek
  obtain ⟨s₃, hstep₃, hphase₃, hshared₃, hhba₃⟩ := ran hphase₂ hshared₂ hread
  obtain ⟨s₄, hstep₄, hphase₄, hshared₄, hhba₄⟩ := ran hphase₃ hshared₃ hleave
  have hfinish : s₄.Step (.finish ()) (s₄.setProc () (.completing call 0 (blit call.data 0 block))
      ((s₄.procs ()).task.finished 0 (blit call.data 0 block))) :=
    ⟨call, .returned 0 (blit call.data 0 block), 0, blit call.data 0 block, hphase₄, rfl, rfl⟩
  have hsafe : w.Safe (.run ()) := safe_called hphase
  have hsafe₁ : s₁.Safe (.run ()) := safe_calls hphase₁ fun i count n next h => by cases h
  have hsafe₂ : s₂.Safe (.run ()) := by
    rw [← hshared₂] at hshown₁
    exact hshown₁.safe hphase₂
  have hsafe₃ : s₃.Safe (.run ()) := safe_calls hphase₃ fun i count n next h => by cases h
  refine ⟨_, _, ((((Run.nil.snoc hstep₁).snoc hstep₂).snoc hstep₃).snoc hstep₄).snoc hfinish, fun e he => ?_,
    hhba₄.trans (hhba₃.trans (hhba₂.trans hhba₁)), by rw [setProc_self]⟩
  simp only [List.nil_append, List.cons_append, List.mem_cons, List.not_mem_nil, or_false] at he
  rcases he with rfl | rfl | rfl | rfl | rfl
  · exact hsafe
  · exact hsafe₁
  · exact hsafe₂
  · exact hsafe₃
  · trivial

/-- A target that waits reads its first block for the mid layer. -/
theorem one_block_read (h : w.Waits) (hshown : Shown w.shared stream block) (hlength : block.length = 512) :
    ∃ during s call data, Run Step w during s ∧ (∀ e ∈ during, e.1.Safe e.2) ∧ (s.procs ()).phase = .completing call 0 data ∧
      call.lun = 0 ∧ call.cdb.get 0 = 0x28 ∧ blocks .sbc call.cdb = some (0, 1) ∧ slice data 0 512 = block ∧
      s.Step (.complete ()) (s.afterComplete ()) := by
  obtain ⟨before, s₁, call, sub, hrun, hbrings, hcalled, hphase, hcalls, hrequest, -⟩ :=
    h.calls (show (oneBlock .read10 0).SCp_ptr = none from rfl) (oneBlock_plain .read10 0) fun _ => 0
  have hnumber : call.lun = 0 := by
    rw [← UInt8.toNat_inj, hcalls.lun, hrequest]
    rfl
  have hagree : Agree (needs ((oneBlock .read10 0).request.cmnd.get 0)) call.cdb (oneBlock .read10 0).request.cmnd := by
    have hcdb := hcalls.cdb
    rw [hrequest] at hcdb
    have hneeds : needs 0x28 ≤ (10 : UInt8).toNat := by decide
    exact fun i hi => hcdb i (Nat.lt_of_lt_of_le hi hneeds)
  have hopcode : call.cdb.get 0 = 0x28 := hagree 0 (needs_pos _)
  have hblocks : blocks .sbc call.cdb = some (0, 1) := (blocks_agree hagree).trans (by decide)
  have htarget := hshown.target
  rw [← hcalled.shared] at hshown
  obtain ⟨during, s₂, hexecutes, hsafe, hhba, hcompleting⟩ := hshown.executes hlength hphase hnumber hopcode hblocks
  have hserving := hcalled.detour.sound.serving
  rw [← hhba] at hserving
  refine ⟨_, s₂, call, _, hrun.append hexecutes, fun e he => ?_, hcompleting, hnumber, hopcode, hblocks,
    by rw [← hlength, slice_blit], ⟨hserving.listed, hserving.unlocked⟩, ⟨call, 0, _, hcompleting⟩, rfl⟩
  rcases List.mem_append.mp he with he | he
  · exact (hbrings e he).1.safe (by rw [(hbrings e he).2, htarget])
  · exact hsafe e he

end OneBlock

/-- The write of one block is acknowledged, with its bytes in the file, and the target
waits again. -/
theorem one_block_acknowledged : ∃ steps n s stream, Run Step (diskAlone oneTarget) steps s ∧ (∀ e ∈ steps, e.1.Safe e.2) ∧
    Acknowledges steps 7 n () writeCall writeCall.data ∧ s.Waits ∧ Shown s.shared stream (List.replicate 512 0xff) ∧
    slice writeCall.data 0 512 = List.replicate 512 0xff := by
  obtain ⟨during, s, hexecutes, hlabels, hhba, htd, ⟨stream, hstream, hinode, hcache, hpending⟩, hfile, -⟩ :=
    one_block_executes { Choice.whole with flushed := 512 } (by decide)
  have hcomplete := (write_killed hexecutes (fun e he => (hlabels e he).2) hhba).1
  have hrun := write_run.append hexecutes.run
  have hdetour : s.Detour := by
    refine hrun.invariant_of_steps (.attached diskAlone_opened.attached) (fun _ _ _ hd hp hstep => hd.step hp hstep) ?_
    intro e he
    rcases List.mem_append.mp he with he | he
    · exact (writeTrace_plain e he).1
    · obtain ⟨t, act⟩ := e
      rcases (hlabels _ he).2 with rfl | rfl <;> trivial
  have hsingle : s.hba.Single 8 (writeStarted.hba.held 8) := ⟨by rw [hhba]; rfl, by rw [hhba]⟩
  obtain ⟨-, hwaits, hshared, r, hr, hrequest, hsent⟩ := single_completes hdetour hsingle hexecutes.completing
  have hbytes : slice writeCall.data 0 512 = List.replicate 512 0xff := by
    obtain ⟨addr, r', -, hr', -, hfrom⟩ := hdetour.returned hexecutes.completing
    obtain rfl := Option.some.inj (hr.symm.trans hr')
    have hlen : (writeStarted.hba.cmnds (writeStarted.hba.tasks 8).sc).request_bufflen.toNat = 512 := rfl
    have hlen' : (writeStarted.hba.held 8).request.request_bufflen.toNat = 512 := hlen
    have hmem : writeStarted.hba.mem = fun _ => 0xff := rfl
    have hflat : (writeStarted.hba.cmnds (writeStarted.hba.tasks 8).sc).request_buffer = .flat 0 := rfl
    have hbuffer : (writeStarted.hba.held 8).sent = slice (fun _ => 0xff) 0 512 := by
      simp only [Hba.held, Hba.buffer, hflat, hlen, hmem, RequestBuffer.contents]
    have hcalled := hfrom.sent (by rw [hrequest]; rfl)
    rw [hrequest, hsent, hlen', hbuffer] at hcalled
    exact hcalled.trans (slice_const 0xff 0 512)
  have hflushed : stream.pending = [] := hpending.trans (List.drop_of_length_le (by rw [slice_length]))
  refine ⟨_, (writeTrace ++ during).length, _, stream, hrun.snoc hcomplete, fun e he => ?_, ⟨?_, ?_, s, ?_, hexecutes.completing⟩,
    hwaits, ?_, hbytes⟩
  · rcases List.mem_append.mp he with he | he
    · exact (List.mem_append.mp he).elim (writeTrace_safe e) fun he => (hlabels e he).1
    · obtain rfl := List.mem_singleton.mp he
      intro call' data' n stream' hphase hputs hn hstream'
      obtain ⟨rfl, -, -⟩ := Phase.completing.inj (hexecutes.completing.symm.trans hphase)
      have hzero : lunStream (diskStorage.td ()) 0 = some 0 := rfl
      rw [htd, writeCall_lun, hzero] at hn
      obtain rfl := Option.some.inj hn
      obtain rfl := Option.some.inj (hstream.symm.trans hstream')
      exact hflushed
  · exact ⟨writeReceived, rfl, rfl⟩
  · have hlength : writeTrace.length = 8 := rfl
    refine ⟨by rw [List.length_append, hlength]; omega, fun m t hlow hhigh hget => ?_⟩
    rw [List.getElem?_append_left hhigh, List.getElem?_append_right (by rw [hlength]; exact hlow)] at hget
    rcases (hlabels _ (List.mem_of_getElem? hget)).2 with hact | hact <;> cases hact
  · exact List.getElem?_concat_length
  · rw [hshared]
    refine ⟨by rw [htd]; rfl, hstream, ?_, ?_⟩
    · rw [Stream.Coherent, hcache, List.length_nil, File.pread, Nat.zero_min, slice_zero]
    · have hput : (slice writeCall.data 0 512).take 512 = slice writeCall.data 0 512 :=
        List.take_of_length_le (by rw [slice_length])
      have hnil : slice writeCall.data 0 512 ≠ [] := List.ne_nil_of_length_pos (by rw [slice_length]; decide)
      have hsize : 0 + 512 ≤ ((diskStorage.fs.files 0).pwrite 0 (slice writeCall.data 0 512)).size := by
        simp only [File.pwrite, if_neg hnil, slice_length]
        exact Nat.le_max_right _ _
      have hsame := slice_blit (diskStorage.fs.files 0).bytes 0 (slice writeCall.data 0 512)
      rw [slice_length] at hsame
      rw [Stream.contents, hinode, hflushed, File.pwrite_nil, hfile, hput, File.pread_eq _ _ hsize, File.pwrite_bytes, hsame,
        hbytes]

/-- A block is written, and then read. -/
theorem bytes_atomic_one_block : ∃ steps s n i, Run Step (diskAlone oneTarget) steps s ∧
    Acknowledges steps 7 n () writeCall writeCall.data ∧ n < i ∧ (register (diskAlone oneTarget) steps 0 0).writes 7 0xff ∧
    (register (diskAlone oneTarget) steps 0 0).finished 7 ∧ (register (diskAlone oneTarget) steps 0 0).returned i 0xff ∧
    ∀ inode a, (register (diskAlone oneTarget) steps inode a).Atomic (((diskAlone oneTarget).shared.fs.files inode).bytes a) := by
  obtain ⟨first, n, s, stream, hwrite, hsafe, hacknowledged, hwaits, hshown, hbytes⟩ := one_block_acknowledged
  obtain ⟨during, s', call, data, hread, hsafe', hcompleting, hlun, hopcode, hblocks, hdata, hcomplete⟩ :=
    one_block_read hwaits hshown List.length_replicate
  let steps := first ++ during ++ [(s', .complete ())]
  have hrun : Run Step (diskAlone oneTarget) steps (s'.afterComplete ()) := (hwrite.append hread).snoc hcomplete
  have hwritten : Acknowledges steps 7 n () writeCall writeCall.data :=
    (hacknowledged.append during).append [(s', .complete ())]
  have hlast : steps[(first ++ during).length]? = some (s', .complete ()) := List.getElem?_concat_length
  have hcall : ((stateAt steps (s'.afterComplete ()) (first ++ during).length).procs ()).phase.call? = some call := by
    rw [stateAt_of_get hlast, hcompleting]
    rfl
  obtain ⟨i, hbegins, hsince⟩ := begun diskAlone_opened hrun (by simp [steps]) hcall
  have hlater : n < i := by
    by_contra hle
    have hearlier : n < (first ++ during).length := by
      rw [List.length_append]
      exact Nat.lt_add_right _ hacknowledged.lt_length
    obtain ⟨⟨t, hstart, hinvocation⟩, hsince₇, t', hend, -⟩ := hwritten
    obtain ⟨t'', hagain, -⟩ := id hbegins
    rcases Nat.lt_trichotomy i 7 with hlow | rfl | hhigh
    · exact hsince.2 7 t hlow (Nat.lt_trans hsince₇.1 hearlier) hstart
    · rw [(Begins.unique ⟨t, hstart, hinvocation⟩ hbegins).2, writeCall_cdb] at hopcode
      exact absurd hopcode (by decide)
    · rcases Nat.lt_or_eq_of_le (Nat.not_lt.mp hle) with hbefore | rfl
      · exact hsince₇.2 i t'' hhigh hbefore hagain
      · cases hend.symm.trans hagain
  have hfirst {mem : Mem} (h : slice mem 0 (511 + 1) = List.replicate (511 + 1) 0xff) : mem 0 = 0xff := by
    rw [slice_succ, List.replicate_succ] at h
    exact (List.cons.inj h).1
  have hcarries : diskStorage.Carries () call 0 0 0 := by
    refine ⟨by rw [hlun]; rfl, newLun 0 "disk".toList .hd 1 0 (some 0), 0, 1, ⟨by rw [hlun]; rfl, .sbc, rfl, hblocks⟩, rfl, ?_⟩
    decide
  refine ⟨steps, _, n, i, hrun, hwritten, hlater,
    ⟨(), writeCall, 0, hwritten.1, writeCall_writes, writeCall_carries, (hfirst hbytes).symm⟩,
    ⟨(), writeCall, _, _, 0, hwritten, writeCall_writes, writeCall_carries⟩,
    ⟨(), call, _, data, 0, ⟨hbegins, hsince, s', hlast, hcompleting⟩, hopcode, hcarries, (hfirst hdata).symm⟩,
    bytes_atomic _ _ _ diskAlone_opened hrun fun e he => ?_⟩
  simp only [steps, List.mem_append, List.mem_singleton] at he
  rcases he with (he | he) | rfl
  · exact hsafe e he
  · exact hsafe' e he
  · intro call' data' n stream' hphase hputs
    obtain ⟨rfl, -, -⟩ := Phase.completing.inj (hcompleting.symm.trans hphase)
    exact absurd hopcode hputs.1

end System

end vscsi
