import Vscsi.Scsi.Interleaved

open lib lib.Code

namespace vscsi

/-- What the stream of a LUN makes of its file. -/
def HasFile (ld : LunData) (w : World) (inode : Nat) (writable : Bool) (f : File) : Prop :=
  ∃ fh, ld.lun_fh = some fh ∧ w.Content fh inode writable f

theorem HasFile.unique {ld : LunData} {w : World} {inode inode' : Nat} {writable writable' : Bool} {f f' : File}
    (h : HasFile ld w inode writable f) (h' : HasFile ld w inode' writable' f') :
    inode' = inode ∧ writable' = writable ∧ f' = f := by
  obtain ⟨fh, hfh, s, hs⟩ := h
  obtain ⟨fh', hfh', s', hs'⟩ := h'
  obtain rfl : fh' = fh := Option.some.inj (hfh'.symm.trans hfh)
  obtain rfl : s' = s := Option.some.inj (hs'.opened.symm.trans hs.opened)
  obtain rfl : inode' = inode := hs'.on.symm.trans hs.on
  exact ⟨rfl, hs'.mode.symm.trans hs.mode, hs'.contents.symm.trans hs.contents⟩

namespace LunData

/-- Where a LUN has the blocks of a command: the first byte and the number of bytes. -/
def extent? (ld : LunData) (cdb : Cdb) : Option (Nat × Nat) :=
  (ld.cmds.bind (scsi.blocks · cdb)).map fun b => (b.1 * ld.block_size.toNat, b.2 * ld.block_size.toNat)

/-- The status of a command for a range of bytes: a check condition beyond the end. -/
def answer (ld : LunData) (e : Nat × Nat) : UInt8 := if scsi.bound ld < (e.1 + e.2 : Nat) then 2 else 0

/-- What a command answered with status 0 puts into a LUN. -/
def put? (ld : LunData) (lun : UInt8) (cdb : Cdb) (status : UInt8) (data : Mem) : Option Store :=
  if ld.lun = lun ∧ status = 0 ∧ cdb.get 0 ≠ 0x28 then
    (ld.extent? cdb).map fun e => { start := e.1, bytes := slice data 0 e.2 }
  else none

theorem put?_none {ld : LunData} {lun : UInt8} {cdb : Cdb} {status : UInt8}
    (h : ld.lun ≠ lun ∨ status ≠ 0 ∨ cdb.get 0 = 0x28 ∨ ld.extent? cdb = none) (data : Mem) :
    ld.put? lun cdb status data = none := by
  unfold put?
  split
  · rename_i hput
    obtain ⟨hlun, hstatus, hwrite⟩ := hput
    rcases h with h | h | h | h
    · exact absurd hlun h
    · exact absurd hstatus h
    · exact absurd h hwrite
    · rw [h, Option.map_none]
  · rfl

end LunData

namespace scsi

theorem needs_pos (opcode : UInt8) : 0 < needs opcode := by
  unfold needs
  split <;> exact Nat.succ_pos _

/-- The bytes of a CDB that a command takes part of say which blocks it is for. -/
theorem blocks_agree {cmds : CommandTable} {cdb sent : Cdb} (h : Agree (needs (sent.get 0)) cdb sent) :
    blocks cmds cdb = blocks cmds sent := by
  have hop : cdb.get 0 = sent.get 0 := h 0 (needs_pos _)
  have hfield {opcode : UInt8} (hsent : sent.get 0 = opcode) {i count : Nat} (hn : i + count ≤ needs opcode) :
      cdb.field i count = sent.field i count := h.field hsent hn
  unfold blocks
  rw [hop]
  split
  · rename_i hsent
    rw [hfield hsent (by decide), hfield hsent (by decide)]
  · rename_i hsent
    rw [hfield hsent (by decide), hfield hsent (by decide)]
  · rename_i hsent
    rw [hfield hsent (by decide), h.get hsent 4 (by decide)]
  · rename_i hsent
    rw [hfield hsent (by decide), hfield hsent (by decide)]
  · rfl

theorem extent?_agree (ld : LunData) {cdb sent : Cdb} (h : Agree (needs (sent.get 0)) cdb sent) :
    ld.extent? cdb = ld.extent? sent := by
  have hblocks : (scsi.blocks · cdb) = (scsi.blocks · sent) := funext fun _ => blocks_agree h
  rw [LunData.extent?, hblocks, LunData.extent?]

end scsi

namespace scsi_target

open scsi

/-- A target whose LUNs have numbers, streams and files of their own. -/
structure Volumes (td : TargetData) (w : World) : Prop where
  type : td.type = TARGET_TYPE_EMULATION
  cmds : ∀ ld ∈ td.luns, ∃ cmds, ld.cmds = some cmds
  numbers : ∀ ld ∈ td.luns, ∀ ld' ∈ td.luns, ld.lun = ld'.lun → ld = ld'
  streams : ∀ ld ∈ td.luns, ∀ ld' ∈ td.luns, ld ≠ ld' → ld.lun_fh ≠ ld'.lun_fh
  files : ∀ ld ∈ td.luns, ∀ ld' ∈ td.luns, ld ≠ ld' → ∀ fh fh' inode, ld.lun_fh = some fh → ld'.lun_fh = some fh' →
    w.inode? fh = some inode → w.inode? fh' ≠ some inode
  holds : ∀ ld ∈ td.luns, ∃ inode writable f, HasFile ld w inode writable f

/-- What a command that has come to its end leaves of its target. -/
structure RunsTo (td : TargetData) (lun : UInt8) (cdb : Cdb) (x : Space) (r : UInt8 × TargetData) (x' : Space) : Prop where
  target : r.2 = td
  volumes : Volumes td x'.world
  status : ∀ ld e, newest td lun = some ld → ld.extent? cdb = some e → r.1 = ld.answer e
  contents : ∀ ld ∈ td.luns, ∀ inode writable f, HasFile ld x.world inode writable f →
    HasFile ld x'.world inode writable (f.put (ld.put? lun cdb r.1 x.data))
  read : ∀ ld e inode writable f, newest td lun = some ld → ld.extent? cdb = some e → HasFile ld x.world inode writable f →
    cdb.get 0 = 0x28 → r.1 = 0 → slice x'.data 0 e.2 = slice f.bytes e.1 e.2

variable {td : TargetData} {ld : LunData} {lun : UInt8} {cdb : Cdb} {x : Space} {w w' : World} {inode : Nat}
  {writable : Bool} {f : File}

/-- A change to the stream and the file of one LUN leaves the others alone. -/
theorem Volumes.other (h : Volumes td w) {ld' : LunData} (hld : ld ∈ td.luns) (hld' : ld' ∈ td.luns) (hne : ld ≠ ld')
    (helsewhere : World.Elsewhere ld'.lun_fh w w') (hholds : HasFile ld w inode writable f) :
    HasFile ld w' inode writable f := by
  obtain ⟨fh, hfh, hcontent⟩ := hholds
  refine ⟨fh, hfh, helsewhere.content ?_ (fun n hn => ?_) hcontent⟩
  · rw [← hfh]
    exact h.streams ld hld ld' hld' hne
  · exact h.files ld hld ld' hld' hne fh n inode hfh hn hcontent.inode?

theorem Volumes.changed (h : Volumes td w) (hld : ld ∈ td.luns) (helsewhere : World.Elsewhere ld.lun_fh w w')
    (hholds : HasFile ld w' inode writable f) : Volumes td w' where
  type := h.type
  cmds := h.cmds
  numbers := h.numbers
  streams := h.streams
  files ld₁ h₁ ld₂ h₂ hne fh fh' inode hfh hfh' := by
    rw [helsewhere.inode?_eq, helsewhere.inode?_eq]
    exact h.files ld₁ h₁ ld₂ h₂ hne fh fh' inode hfh hfh'
  holds ld' hld' := by
    by_cases heq : ld' = ld
    · rw [heq]
      exact ⟨inode, writable, f, hholds⟩
    · obtain ⟨inode', writable', f', hholds'⟩ := h.holds ld' hld'
      exact ⟨inode', writable', f', h.other hld' hld heq helsewhere hholds'⟩

/-- What a command does to the LUN it is for. -/
structure Accessed (ld : LunData) (cdb : Cdb) (x : Space) (inode : Nat) (writable : Bool) (f : File) (o : Outcome)
    (x' : Space) : Prop where
  lun : o.ld = ld
  status : ∀ e, ld.extent? cdb = some e → o.status = ld.answer e
  contents : HasFile ld x'.world inode writable (f.put (ld.put? ld.lun cdb o.status x.data))
  read : ∀ e, ld.extent? cdb = some e → cdb.get 0 = 0x28 → o.status = 0 → slice x'.data 0 e.2 = slice f.bytes e.1 e.2

/-- A command that moves blocks. -/
theorem access_settles {lba n : Nat} (hextent : ld.extent? cdb = some (lba * ld.block_size.toNat, n * ld.block_size.toNat))
    (hholds : HasFile ld x.world inode writable f) (fuel : Nat) (data_size : Int) :
    Settles (access (mover cdb ld.lun_fh) fuel ld data_size lba n) x (Accessed ld cdb x inode writable f) := by
  have hanswer : ∀ e, ld.extent? cdb = some e →
      ld.answer e = if bound ld < ((lba + n) * ld.block_size.toNat : Nat) then 2 else 0 := by
    intro e he
    obtain rfl := Option.some.inj (hextent.symm.trans he)
    rw [LunData.answer, Nat.add_mul]
  rw [access_eq]
  by_cases hbeyond : bound ld < ((lba + n) * ld.block_size.toNat : Nat)
  · have hrefused : (2 : UInt8) ≠ 0 := by decide
    simp only [if_pos hbeyond] at hanswer ⊢
    refine ⟨rfl, fun e he => (hanswer e he).symm, ?_, fun _ _ _ hstatus => absurd hstatus hrefused⟩
    rw [LunData.put?_none (.inr (.inl hrefused))]
    exact hholds
  · have hlen := access_len hbeyond
    obtain ⟨fh, hfh, hcontent⟩ := hholds
    simp only [if_neg hbeyond] at hanswer ⊢
    rw [hfh]
    by_cases hread : cdb.get 0 = 0x28
    · rw [mover_read hread]
      refine Prog.Meets.bind (transfer_fread_settles hlen fuel hcontent) ?_
      rintro _ x' ⟨hcontent', hdata⟩
      refine ⟨rfl, fun e he => (hanswer e he).symm, ?_, fun e he _ _ => ?_⟩
      · rw [LunData.put?_none (.inr (.inr (.inl hread)))]
        exact ⟨fh, hfh, hcontent'⟩
      · obtain rfl := Option.some.inj (hextent.symm.trans he)
        have hslice := slice_blit x.data 0 (slice f.bytes (lba * ld.block_size.toNat) (n * ld.block_size.toNat))
        rw [slice_length] at hslice
        rw [hdata, hslice]
    · rw [mover_write hread]
      refine Prog.Meets.bind (transfer_fwrite_settles hlen fuel hcontent) fun _ x' hcontent' => ?_
      refine ⟨rfl, fun e he => (hanswer e he).symm, ⟨fh, hfh, ?_⟩, fun _ _ h => absurd h hread⟩
      rw [LunData.put?, if_pos ⟨rfl, rfl, hread⟩, hextent]
      exact hcontent'

/-- Any other command, but one that starts a new image. -/
theorem reads_settles {p : Code Outcome} (hreads : ReadsOnly ld.lun_fh (·.ld = ld) p) (hnone : ld.extent? cdb = none)
    (hholds : HasFile ld x.world inode writable f) : Settles p x (Accessed ld cdb x inode writable f) := by
  obtain ⟨fh, hfh, hcontent⟩ := hholds
  rw [hfh] at hreads
  have hkept : Settles p x fun o x' => o.ld = ld ∧ x'.world.Content fh inode writable f :=
    Prog.Within.meets (I := fun x => x.world.Content fh inode writable f) hreads hcontent
      fun c choice y r y' hcall hy hsem => libc_reads_content hcall hsem hy
  refine hkept.mono (fun _ h => h) ?_
  rintro o x' ⟨hlun, hcontent'⟩
  refine ⟨hlun, fun e he => ?_, ⟨fh, hfh, ?_⟩, fun e he => ?_⟩
  · exact Option.some_ne_none e (he.symm.trans hnone) |>.elim
  · rw [LunData.put?_none (.inr (.inr (.inr hnone)))]
    exact hcontent'
  · exact Option.some_ne_none e (he.symm.trans hnone) |>.elim

theorem mover_only (cdb : Cdb) (fh : Option Nat) (i count : Nat) : (mover cdb fh i count).Only (Call.On fh) := by
  unfold mover
  split <;> exact ⟨rfl, fun _ => trivial⟩

/-- A handler works on the stream of its LUN, and does there what its command says. -/
theorem handler_settles (td : TargetData) {cmds : CommandTable} {func : Handler} (hcmds : ld.cmds = some cmds)
    (hfunc : cmds.func (cdb.get 0) = some func) (hstarts : ¬ StartsImage cmds ld cdb)
    (hholds : HasFile ld x.world inode writable f) (fuel : Nat) (data_size : Int) :
    (func fuel td ld cdb data_size).Only (Call.On ld.lun_fh) ∧
      Settles (func fuel td ld cdb data_size) x (Accessed ld cdb x inode writable f) := by
  cases hblocks : blocks cmds cdb with
  | none =>
    have hextent : ld.extent? cdb = none := by rw [LunData.extent?, hcmds, Option.bind_some, hblocks, Option.map_none]
    have hreads : ReadsOnly ld.lun_fh (·.ld = ld) (func fuel td ld cdb data_size) :=
      func_reads hfunc (.inl hblocks) hstarts
    exact ⟨hreads.only fun _ hcall => hcall.on, reads_settles hreads hextent hholds⟩
  | some b =>
    obtain ⟨lba, n⟩ := b
    have hextent : ld.extent? cdb = some (lba * ld.block_size.toNat, n * ld.block_size.toNat) := by
      rw [LunData.extent?, hcmds, Option.bind_some, hblocks, Option.map_some]
    obtain ⟨func', hfunc', haccess⟩ := blocks_access hblocks
    obtain rfl : func = func' := Option.some.inj (hfunc.symm.trans hfunc')
    rw [haccess]
    refine ⟨?_, access_settles hextent hholds fuel data_size⟩
    rw [access_eq]
    split
    · trivial
    · exact Prog.Only.bind (transfer_only (mover_only cdb ld.lun_fh) _ _ _ _) fun _ => trivial

/-- What a command does to the LUN it is for is all that it does. -/
theorem Accessed.ran (h : Volumes td x.world) (hfind : newest td lun = some ld) (hholds : HasFile ld x.world inode writable f)
    {o : Outcome} {x' : Space} (ho : Accessed ld cdb x inode writable f o x')
    (helsewhere : World.Elsewhere ld.lun_fh x.world x'.world) :
    RunsTo td lun cdb x (o.status, putLun td lun o.ld) x' := by
  have hld := List.mem_of_find?_eq_some hfind
  have hlun : ld.lun = lun := by simpa using List.find?_some hfind
  refine ⟨?_, h.changed hld helsewhere ho.contents, fun ld' e hfind' he => ?_, fun ld' hld' inode' writable' f' hholds' => ?_,
    fun ld' e inode' writable' f' hfind' he hholds' hread hstatus => ?_⟩
  · rw [ho.lun, putLun_self hfind]
  · obtain rfl := Option.some.inj (hfind.symm.trans hfind')
    exact ho.status e he
  · by_cases heq : ld' = ld
    · subst heq
      obtain ⟨rfl, rfl, rfl⟩ := hholds.unique hholds'
      rw [← hlun]
      exact ho.contents
    · have hne : ld'.lun ≠ lun := fun hsame => heq (h.numbers ld' hld' ld hld (hsame.trans hlun.symm))
      rw [LunData.put?_none (.inl hne)]
      exact h.other hld' hld heq helsewhere hholds'
  · obtain rfl := Option.some.inj (hfind.symm.trans hfind')
    obtain ⟨rfl, rfl, rfl⟩ := hholds.unique hholds'
    exact ho.read e he hread hstatus

/-- What any command does, but one that starts a new image, if it comes to an
end: a write puts its data into its LUN, a read returns what is there, and
nothing else happens to any LUN. -/
theorem run_settles (h : Volumes td x.world) (hrestarts : ¬ Restarts td lun cdb) (fuel : Nat) (data_size : Int) :
    Settles (run_scsi_command fuel td lun cdb data_size) x (RunsTo td lun cdb x) := by
  cases hfind : newest td lun with
  | none =>
    rw [run_scsi_command_crashes h.type hfind]
    trivial
  | some ld =>
    have hld := List.mem_of_find?_eq_some hfind
    obtain ⟨cmds, hcmds⟩ := h.cmds ld hld
    obtain ⟨inode, writable, f, hholds⟩ := h.holds ld hld
    cases hfunc : cmds.func (cdb.get 0) with
    | none =>
      have hextent : ld.extent? cdb = none := by
        cases hblocks : blocks cmds cdb with
        | none => rw [LunData.extent?, hcmds, Option.bind_some, hblocks, Option.map_none]
        | some b =>
          obtain ⟨func, hfunc', -⟩ := blocks_access (show blocks cmds cdb = some (b.1, b.2) from hblocks)
          rw [hfunc] at hfunc'
          cases hfunc'
      simp only [run_scsi_command, h.type, findLun_eq hfind, hcmds, hfunc, if_true]
      have hsame : Accessed ld cdb x inode writable f { ld, data_size, status := 2 } x := by
        refine ⟨rfl, fun e he => Option.some_ne_none e (he.symm.trans hextent) |>.elim, ?_,
          fun e he => Option.some_ne_none e (he.symm.trans hextent) |>.elim⟩
        rw [LunData.put?_none (.inr (.inr (.inr hextent)))]
        exact hholds
      have hran := hsame.ran h hfind hholds (.refl _ _)
      rwa [putLun_self hfind] at hran
    | some func =>
      obtain ⟨honly, hsettles⟩ := handler_settles td hcmds hfunc
        (fun hstarts => hrestarts ⟨ld, cmds, hfind, hcmds, hstarts⟩) hholds fuel data_size
      have hframe := hsettles.frame (fun x x' => World.Elsewhere ld.lun_fh x.world x'.world) (fun x => .refl _ x.world)
        (fun x x' _ (hfirst : World.Elsewhere ld.lun_fh x.world x'.world) hsecond => hfirst.trans hsecond)
        (fun _ _ _ _ _ hon hcall => libc_elsewhere hon hcall) honly
      rw [run_scsi_command_eq h.type (findLun_eq hfind) hcmds hfunc]
      refine Prog.Meets.bind hframe ?_
      rintro o x' ⟨ho, helsewhere⟩
      exact ho.ran h hfind hholds helsewhere

end scsi_target

end vscsi
