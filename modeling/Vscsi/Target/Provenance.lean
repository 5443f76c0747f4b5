import Vscsi.Scsi.WriteForms
import Vscsi.Target.Loaded

open lib

namespace vscsi

open hba device api scsi scsi_target

/-- The main loop with a claimed header: the command runs, unless it is dropped. -/
inductive Executed (fuel : Nat) (td : TargetData) (k : Hba) (task : UserScsitapTask) (m : Machine Choice Space) :
    Machine Choice Space → Prop where
  | dropped (h : loaded k task = none) : Executed fuel td k task m m
  | ran (task' : UserScsitapTask) (h : loaded k task = some task') (status : UInt8) (td' : TargetData)
      (m' : Machine Choice Space)
      (hexec : (run_scsi_command fuel td task'.invocation.lun task'.invocation.cdb task'.invocation.data_size).exec libc
        { m with state := { m.state with data := task'.invocation.data } } = .ok ((status, td'), m')) :
      Executed fuel td k task m m'

/-- A CDB of a write command, with the blocks its handler takes from it. -/
inductive Writes (cdb : Cdb) : (lba n : Nat) → Prop where
  | write6 (h : cdb.get 0 = 0x0a) : Writes cdb (beNat (cdb.field 2 2)) (cdb.get 4).toNat
  | write10 (h : cdb.get 0 = 0x2a) : Writes cdb (beNat (cdb.field 2 4)) (beNat (cdb.field 7 2))
  | write12 (h : cdb.get 0 = 0xaa) : Writes cdb (beNat (cdb.field 2 4)) (beNat (cdb.field 6 4))

/-- Whatever session and earlier commands it comes after, a command that goes
through the main loop stores bytes delivered for it, at its place, and none when
it is not outbound or asks for more than its buffer has. -/
def StoresDelivered (td : TargetData) (ld : LunData) (w : World) (task : UserScsitapTask) (lba n : Nat) : Prop :=
  ∀ (fuel : Nat) (k : Hba) (cmd_number : UInt32) (request_buffer data : Mem) (choices : Nat → Choice)
    (m' : Machine Choice Space) (f : File),
    k.Reachable → (∀ i, (choices i).Progress) → Backs ld w f →
    Executed fuel td k { task with cmd_number, request_buffer } { state := { world := w, data }, choices } m' →
    ∃ bytes, Backs ld m'.state.world (f.pwrite (lba * 512) bytes) ∧
      bytes <+: delivered k { task with cmd_number, request_buffer } ∧
      (task.direction ≠ 79 ∨ task.request_bufflen < (n * 512 : Nat) → bytes = [])

variable {task : UserScsitapTask} {td : TargetData} {ld : LunData} {w : World} {fh inode : Nat} {f : File} {lba n : Nat}

theorem Writes.blocks {cdb : Cdb} (h : Writes cdb lba n) : cdb.get 0 ≠ 0x28 ∧ blocks .sbc cdb = some (lba, n) := by
  cases h with
  | write6 h => exact ⟨by rw [h]; decide, by simp only [scsi.blocks, h]⟩
  | write10 h => exact ⟨by rw [h]; decide, by simp only [scsi.blocks, h]⟩
  | write12 h => exact ⟨by rw [h]; decide, by simp only [scsi.blocks, h]⟩

/-- All write commands of a hard disk are one access with blocks of their own. -/
theorem Writes.access {cdb : Cdb} (h : Writes cdb lba n) : ∃ func, CommandTable.sbc.func (cdb.get 0) = some func ∧
    ∀ fuel td ld data_size, func fuel td ld cdb data_size =
      access (Code.fwrite · · ld.lun_fh) fuel ld data_size lba n := by
  obtain ⟨hwrite, hblocks⟩ := h.blocks
  obtain ⟨func, hfunc, haccess⟩ := blocks_access hblocks
  refine ⟨func, hfunc, fun fuel td ld data_size => ?_⟩
  rw [haccess, mover_write hwrite]

/-- The bytes that a write command for `n` blocks stores: all of them or none. -/
def stored (ld : LunData) (lba n : Nat) : Nat := if bound ld < ((lba + n) * 512 : Nat) then 0 else n * 512

/-- A write command that has run has stored its bytes, from where `data` starts. -/
theorem Writes.exec {cdb : Cdb} (h : Writes cdb lba n) {lun : UInt8} (hserves : Serves td lun ld)
    {m m' : Machine Choice Space} (hmounted : Mounted ld m.state.world fh inode f) (hfair : m.Fair Choice.Progress)
    {fuel : Nat} {data_size : Int} {r : UInt8 × TargetData}
    (hexec : (run_scsi_command fuel td lun cdb data_size).exec libc m = .ok (r, m')) :
    Backs ld m'.state.world (f.pwrite (lba * 512) (slice m.state.data 0 (stored ld lba n))) := by
  obtain ⟨func, hfunc, haccess⟩ := h.access
  unfold stored
  split
  · rename_i hbeyond
    rw [write_beyond hserves hmounted hfunc (haccess _ _ _ _) hbeyond] at hexec
    cases hexec
    rw [slice_zero, File.pwrite_nil]
    exact ⟨fh, inode, hmounted.lun_fh, hmounted.volume⟩
  · rename_i hinside
    rcases (write_inside hserves hmounted hfunc (haccess fuel td ld data_size) (Int.not_lt.mp hinside)
      m.state.data).exec hfair with ⟨r', m'', hexec', -, -, hvolume⟩ | ⟨e, hexec', -⟩
    · obtain ⟨-, rfl⟩ := Prod.mk.inj (Except.ok.inj (hexec.symm.trans hexec'))
      exact ⟨fh, inode, hmounted.lun_fh, hvolume⟩
    · cases hexec.symm.trans hexec'

/-- A write command that is dropped, stores nothing or asks for no more than was
delivered stores delivered bytes. -/
theorem stores_delivered (hserves : Serves td (UInt8.ofNat task.lun.toNat) ld) (hmounted : Mounted ld w fh inode f)
    (hwrites : Writes task.cdb lba n)
    (hcond : task.direction ≠ 73 ∧ task.direction ≠ 79 ∨ stored ld lba n = 0 ∨
      task.direction = 79 ∧ (n * 512 : Nat) ≤ task.request_bufflen) : StoresDelivered td ld w task lba n := by
  intro fuel k cmd_number request_buffer data choices m' f' hreach hfair hbacks hexecuted
  obtain rfl := hbacks.unique ⟨fh, inode, hmounted.lun_fh, hmounted.volume⟩
  cases hexecuted with
  | dropped hdropped =>
    refine ⟨[], ?_, List.nil_prefix, fun _ => rfl⟩
    rw [File.pwrite_nil]
    exact ⟨fh, inode, hmounted.lun_fh, hmounted.volume⟩
  | ran task' hloaded status td' m' hexec =>
    obtain ⟨hlun, hcdb, -, hdata⟩ := loaded_invocation hloaded
    rw [hlun, hcdb] at hexec
    have hbacks' := hwrites.exec (m := { state := { world := w, data := task'.invocation.data }, choices })
      hserves hmounted hfair hexec
    have hrun : stored ld lba n = 0 ∨ task.direction = 79 ∧ (n * 512 : Nat) ≤ task.request_bufflen := by
      rcases hcond with ⟨hin, hout⟩ | hrest
      · rcases hdata with h | ⟨h, -⟩
        · exact absurd h hin
        · exact absurd h hout
      · exact hrest
    refine ⟨_, hbacks', ?_, fun hnone => ?_⟩
    · rcases hrun with hzero | ⟨hout, hle⟩
      · rw [hzero, slice_zero]
        exact List.nil_prefix
      · have hdelivered := hdata.resolve_left (by simp [hout])
        have hshort : stored ld lba n ≤ task.request_bufflen.toNat := by
          unfold stored
          split <;> omega
        rw [← hdelivered.2, ← min_eq_left hshort, ← take_slice]
        exact List.take_prefix _ _
    · have hzero : stored ld lba n = 0 := by
        rcases hrun with hzero | ⟨hout, hle⟩
        · exact hzero
        · exact absurd hle (Int.not_le.mpr (hnone.resolve_left (not_not.mpr hout)))
      rw [hzero, slice_zero]

/-- A write command of which a byte is neither dropped nor delivered stores what
is left in the buffer there. -/
theorem stores_leftover (hserves : Serves td (UInt8.ofNat task.lun.toNat) ld) (hmounted : Mounted ld w fh inode f)
    (hwrites : Writes task.cdb lba n) (hbounded : task.Bounded) (hinside : ((lba + n) * 512 : Nat) ≤ bound ld)
    (hpos : 1 ≤ n)
    (hbeyond : task.direction = 73 ∨ task.direction = 79 ∧ task.request_bufflen < (n * 512 : Nat)) :
    ¬ StoresDelivered td ld w task lba n := by
  intro hstores
  have hbacks : Backs ld w f := ⟨fh, inode, hmounted.lun_fh, hmounted.volume⟩
  -- the byte left in the buffer differs from the one in the file that it replaces
  obtain ⟨last, hlast⟩ : ∃ last, last = n * 512 - 1 := ⟨_, rfl⟩
  have hunfilled : task.direction = 73 ∨ task.direction = 79 ∧ task.request_bufflen ≤ last :=
    hbeyond.imp id fun ⟨hout, hless⟩ => ⟨hout, by omega⟩
  obtain ⟨k, cmd_number, buffer, request_buffer, hreach, hloaded, hbyte⟩ :=
    leftover hbounded hunfilled (f.bytes (lba * 512 + last) + 1)
  obtain ⟨func, hfunc, haccess⟩ := hwrites.access
  have hcode : func (n * 512) td ld task.cdb task.request_bufflen =
      access (Code.fwrite · · ld.lun_fh) (n * 512) ld task.request_bufflen lba n := haccess _ _ _ _
  have hgives := gives_write hserves hmounted hfunc hcode (Nat.le_refl (n * 512))
    (fromPointer request_buffer task.dataOffset)
  rw [if_neg (Int.not_lt.mpr hinside)] at hgives
  obtain ⟨m', hexec, hbacks'⟩ := hgives (fun _ => .whole) fun _ => Choice.whole_progress
  obtain ⟨bytes, hsame, -, hnone⟩ := hstores (n * 512) k cmd_number buffer (fun _ => 0) (fun _ => .whole) m' f hreach
    (fun _ => Choice.whole_progress) hbacks (.ran _ hloaded 0 td m' hexec)
  have hnot : task.direction ≠ 79 ∨ task.request_bufflen < (n * 512 : Nat) :=
    hbeyond.imp (fun hin => by rw [hin]; decide) And.right
  rw [hnone hnot, File.pwrite_nil] at hsame
  have hread := congrArg (fun g : File => g.bytes (lba * 512 + last)) (hbacks'.unique hsame)
  simp only [File.pwrite_bytes] at hread
  rw [blit_add _ _ (by simp; omega)] at hread
  simp only [slice, List.getElem_map, List.getElem_range, Nat.zero_add, fromPointer, hbyte] at hread
  exact absurd hread (by simp)

/-- The main loop gives the disk delivered bytes only, exactly when the command
is dropped or turned away, is for no blocks, or is outbound with a buffer of at
least its blocks. -/
theorem stores_delivered_iff (hserves : Serves td (UInt8.ofNat task.lun.toNat) ld) (hmounted : Mounted ld w fh inode f)
    (hwrites : Writes task.cdb lba n) (hbounded : task.Bounded) :
    StoresDelivered td ld w task lba n ↔
      task.direction ≠ 73 ∧ task.direction ≠ 79 ∨ bound ld < ((lba + n) * 512 : Nat) ∨ n = 0 ∨
        task.direction = 79 ∧ (n * 512 : Nat) ≤ task.request_bufflen := by
  constructor
  · intro hstores
    by_contra hcond
    obtain ⟨hdata, hcond⟩ := not_or.mp hcond
    obtain ⟨hinside, hcond⟩ := not_or.mp hcond
    obtain ⟨hpos, hmore⟩ := not_or.mp hcond
    refine stores_leftover hserves hmounted hwrites hbounded (Int.not_lt.mp hinside)
      (Nat.one_le_iff_ne_zero.mpr hpos) ?_ hstores
    by_cases hin : task.direction = 73
    · exact .inl hin
    · have hout : task.direction = 79 := by
        by_contra hout
        exact hdata ⟨hin, hout⟩
      exact .inr ⟨hout, Int.not_le.mp fun hbuffer => hmore ⟨hout, hbuffer⟩⟩
  · intro hcond
    apply stores_delivered hserves hmounted hwrites
    unfold stored
    rcases hcond with hnot | hbeyond | hzero | hout
    · exact .inl hnot
    · exact .inr (.inl (if_pos hbeyond))
    · exact .inr (.inl (by simp [hzero]))
    · exact .inr (.inr hout)

/-- A WRITE(10) of the first block, of a direction and with a buffer length. -/
def writeTask (direction : UInt8) (request_bufflen : Int) : UserScsitapTask :=
  { register_scsi_host with direction, request_bufflen, cdblen := 10, cdb := cdb10 0x2a 0 1 }

theorem writeTask_writes (direction : UInt8) (request_bufflen : Int) :
    Writes (writeTask direction request_bufflen).cdb 0 1 := .write10 rfl

theorem stores_delivered_one_block :
    StoresDelivered (diskTarget 1) (newLun 0 "disk".toList .hd 1 0 (some 0)) (diskWorld 1) (writeTask 79 512) 0 1 := by
  obtain ⟨-, fh, inode, f, hmounted⟩ := (disk_made 1).mounted
  exact (stores_delivered_iff (disk_made 1).serves hmounted (writeTask_writes 79 512) ⟨by decide, by decide⟩).mpr
    (.inr (.inr (.inr ⟨rfl, by decide⟩)))

/-- Marked as inbound, or with a buffer one byte too short, it stores what an
earlier command has left. -/
theorem stores_leftover_one_block :
    ¬ StoresDelivered (diskTarget 1) (newLun 0 "disk".toList .hd 1 0 (some 0)) (diskWorld 1) (writeTask 73 512) 0 1 ∧
      ¬ StoresDelivered (diskTarget 1) (newLun 0 "disk".toList .hd 1 0 (some 0)) (diskWorld 1) (writeTask 79 511) 0 1 := by
  obtain ⟨-, fh, inode, f, hmounted⟩ := (disk_made 1).mounted
  constructor
  · exact stores_leftover (disk_made 1).serves hmounted (writeTask_writes 73 512) ⟨by decide, by decide⟩
      (by decide) (by decide) (.inl rfl)
  · exact stores_leftover (disk_made 1).serves hmounted (writeTask_writes 79 511) ⟨by decide, by decide⟩
      (by decide) (by decide) (.inr ⟨rfl, by decide⟩)

end vscsi
