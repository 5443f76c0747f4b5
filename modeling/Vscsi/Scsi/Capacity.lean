import Vscsi.Scsi.Commands
import Vscsi.Scsi.Attach

open lib lib.Code

namespace vscsi.scsi_target

open scsi

/-- `add_lun` has added the LUN to the target, as a hard disk of `mb` MiB. -/
def Made (mb : Nat) (td : TargetData) (ld : LunData) (w : World) : Prop :=
  ∃ t lun lunfile m m', t.type = TARGET_TYPE_EMULATION ∧ td = { t with luns := ld :: t.luns } ∧
    (add_lun t lun lunfile .hd mb).exec libc m = .ok (td, m') ∧ m'.state.world = w

/-- The last LBA that READ CAPACITY(10) has left in `data`. -/
def lastLba (data : Mem) : Nat := beNat (slice data 0 4)

/-- A command has come back with status 2. -/
def TurnedAway (run : Except Fault ((UInt8 × TargetData) × Machine Choice Space)) : Prop :=
  ∃ td m, run = .ok ((2, td), m)

/-- After READ CAPACITY(10), the commands for one block or more that are not
turned away are those that end at the last LBA or before; they succeed, given
the rounds they may need, and those turned away change no file. -/
def BoundsAgree (td : TargetData) (ld : LunData) (w : World) : Prop :=
  ∀ (fuel : Nat) (cdb : Cdb) (data_size : Int) (before : Machine Choice Space),
    cdb.get 0 = 0x25 → before.state.world = w → before.Fair Choice.Progress →
    ∃ m, (run_scsi_command fuel td ld.lun cdb data_size).exec libc before = .ok ((0, td), m) ∧
      ∀ (c : MediaCommand) (fuel : Nat) (cdb : Cdb) (data_size : Int) (data : Mem),
        cdb.get 0 = c.opcode → 1 ≤ c.length cdb →
        let run := (run_scsi_command fuel td ld.lun cdb data_size).exec libc { m with state := { m.state with data } }
        (¬ TurnedAway run ↔ MediaCommand.lba cdb + c.length cdb ≤ lastLba m.state.data + 1) ∧
        (¬ TurnedAway run → c.length cdb * 512 ≤ fuel → ∃ m', run = .ok ((0, td), m')) ∧
        ∀ td' m', run = .ok ((2, td'), m') → m'.state.world = m.state.world

variable {mb : Nat} {td : TargetData} {ld : LunData} {w : World} {fh inode : Nat} {f : File}

theorem Made.serves (h : Made mb td ld w) : Serves td ld.lun ld := by
  obtain ⟨t, lun, lunfile, m, m', htype, rfl, hexec, rfl⟩ := h
  exact ⟨htype, by simp⟩

theorem Made.mounted (h : Made mb td ld w) : ld.lunsizeinmb = mb ∧ ∃ fh inode f, Mounted ld w fh inode f := by
  obtain ⟨t, lun, lunfile, m, m', htype, rfl, hexec, rfl⟩ := h
  exact add_lun_mounted hexec

/-- A command within the bound is not turned away, and succeeds with enough fuel. -/
theorem run_media_accepted {lun : UInt8} {c : MediaCommand} {cdb : Cdb} (hserves : Serves td lun ld)
    {m : Machine Choice Space} (h : Mounted ld m.state.world fh inode f) (hfair : m.Fair Choice.Progress)
    (hopcode : cdb.get 0 = c.opcode) (fuel : Nat) (data_size : Int)
    (hbound : ((MediaCommand.lba cdb + c.length cdb) * 512 : Nat) ≤ bound ld) :
    ¬ TurnedAway ((run_scsi_command fuel td lun cdb data_size).exec libc m) ∧
      (c.length cdb * 512 ≤ fuel →
        ∃ m', (run_scsi_command fuel td lun cdb data_size).exec libc m = .ok ((0, td), m')) := by
  have hends : Ends (OutOfFuel fuel (c.length cdb * 512)) (run_scsi_command fuel td lun cdb data_size) m.state
      fun r _ => r = (0, td) := by
    by_cases hread : c = .read10
    · subst hread
      exact (run_read_ends hserves h hopcode fuel data_size hbound).mono (fun _ h => h) fun _ _ h => h.1
    · exact (run_write_ends hserves h hopcode hread fuel data_size hbound).mono (fun _ h => h) fun _ _ h => h.1
  rcases hends.exec hfair with ⟨r, m', hexec, -, rfl⟩ | ⟨e, hexec, hfuel⟩
  · refine ⟨?_, fun _ => ⟨m', hexec⟩⟩
    rintro ⟨td', m'', hturned⟩
    rw [hexec] at hturned
    cases hturned
  · refine ⟨?_, fun henough => absurd hfuel.2 (by omega)⟩
    rintro ⟨td', m'', hturned⟩
    rw [hexec] at hturned
    cases hturned

/-- What decides is the bound, whatever READ CAPACITY(10) says. -/
theorem turnedAway_iff {lun : UInt8} {c : MediaCommand} {cdb : Cdb} (hserves : Serves td lun ld)
    {m : Machine Choice Space} (h : Mounted ld m.state.world fh inode f) (hfair : m.Fair Choice.Progress)
    (hopcode : cdb.get 0 = c.opcode) (fuel : Nat) (data_size : Int) :
    TurnedAway ((run_scsi_command fuel td lun cdb data_size).exec libc m) ↔
      bound ld < ((MediaCommand.lba cdb + c.length cdb) * 512 : Nat) := by
  by_cases hbeyond : bound ld < ((MediaCommand.lba cdb + c.length cdb) * 512 : Nat)
  · rw [run_media_rejected hserves h hopcode fuel data_size hbeyond]
    exact ⟨fun _ => hbeyond, fun _ => ⟨td, m, rfl⟩⟩
  · have haccepted := run_media_accepted hserves h hfair hopcode fuel data_size (Int.not_lt.mp hbeyond)
    exact ⟨fun hturned => absurd hturned haccepted.1, fun h => absurd h hbeyond⟩

/-- READ CAPACITY(10) returns the last of the file's blocks. -/
theorem capacity_lastLba {m : Machine Choice Space} (hserves : Serves td ld.lun ld)
    (h : Mounted ld m.state.world fh inode f) (hfair : m.Fair Choice.Progress) (hmb : ld.lunsizeinmb = mb)
    (hpos : 1 ≤ mb) (hmax : mb * 2048 ≤ 2 ^ 32) {cdb : Cdb} (hopcode : cdb.get 0 = 0x25) (fuel : Nat) (data_size : Int) :
    ∃ m', (run_scsi_command fuel td ld.lun cdb data_size).exec libc m = .ok ((0, td), m') ∧
      m'.Fair Choice.Progress ∧ Mounted ld m'.state.world fh inode f ∧ lastLba m'.state.data + 1 = mb * 2048 := by
  have hblocks : f.size = mb * 2048 * 512 := by
    have hsize := h.size
    rw [hmb] at hsize
    omega
  obtain ⟨r, m', hexec, hfair', rfl, hvolume, hdata⟩ :=
    (run_capacity_ends hserves h hopcode fuel data_size hblocks (by omega) hmax).exec_ok hfair
  refine ⟨m', hexec, hfair', ⟨h.lun_fh, h.block_size, h.cmds, h.size, hvolume⟩, ?_⟩
  have hfour : slice m'.state.data 0 4 = be 4 (mb * 2048 - 1) := by
    have htake := congrArg (List.take 4) hdata
    rwa [take_slice, List.take_append_of_le_length (by simp), List.take_of_length_le (by simp)] at htake
  rw [lastLba, hfour, beNat_be]
  omega

/-- For a LUN that `add_lun` has made, capacity and bounds agree exactly up to
the largest size an `int` can hold in bytes. -/
theorem bounds_agree_iff (h : Made mb td ld w) (hpos : 1 ≤ mb) (hmax : mb * 2048 ≤ 2 ^ 32) :
    BoundsAgree td ld w ↔ mb ≤ 2047 := by
  have hserves := h.serves
  obtain ⟨hmb, fh, inode, f, hmounted⟩ := h.mounted
  have hbound : bound ld = int32 (mb * 1024 * 1024) := by rw [bound_eq, hmb]
  constructor
  · intro hagree
    let before : Machine Choice Space := { state := { world := w, data := fun _ => 0 }, choices := fun _ => .whole }
    have hfair : before.Fair Choice.Progress := fun _ => Choice.whole_progress
    obtain ⟨m, hexec, haccess⟩ := hagree 0 (cdb10 0x25 0 0) 8 before rfl rfl hfair
    obtain ⟨m', hexec', hfair', hmounted', hlast⟩ :=
      capacity_lastLba hserves hmounted hfair hmb hpos hmax (rfl : (cdb10 0x25 0 0)[0] = 0x25) 0 8
    obtain ⟨-, rfl⟩ := Prod.mk.inj (Except.ok.inj (hexec.symm.trans hexec'))
    -- the last block, which the capacity promises
    have hlba : MediaCommand.lba (cdb10 0x28 (mb * 2048 - 1) 1) = mb * 2048 - 1 := by
      rw [lba_cdb10]
      omega
    have hlength : MediaCommand.read10.length (cdb10 0x28 (mb * 2048 - 1) 1) = 1 :=
      length_cdb10 (c := .read10) (nofun) _ _ _
    obtain ⟨hiff, -⟩ := haccess .read10 0 (cdb10 0x28 (mb * 2048 - 1) 1) 512 m.state.data rfl (by rw [hlength])
    rw [turnedAway_iff (c := .read10) (m := { m with state := { m.state with data := m.state.data } }) hserves hmounted' hfair' rfl,
      hlba, hlength, hlast] at hiff
    have hlt := bound_lt ld
    have hinside := Int.not_lt.mp (hiff.mpr (by omega))
    omega
  · intro hsmall fuel cdb data_size before hopcode hworld hfair
    subst hworld
    obtain ⟨m, hexec, hfair', hmounted', hlast⟩ :=
      capacity_lastLba hserves hmounted hfair hmb hpos hmax hopcode fuel data_size
    refine ⟨m, hexec, fun c fuel cdb data_size data hopcode _ => ?_⟩
    have hexact : bound ld = mb * 1024 * 1024 := by
      rw [hbound]
      exact int32_of_range (by omega) (by omega)
    have hiff := turnedAway_iff (m := { m with state := { m.state with data } }) hserves hmounted' hfair'
      hopcode fuel data_size
    refine ⟨?_, fun hpasses => ?_, fun td' m' hturned => ?_⟩
    · rw [hiff, hexact, hlast]
      omega
    · exact (run_media_accepted (m := { m with state := { m.state with data } }) hserves hmounted' hfair' hopcode fuel
        data_size (Int.not_lt.mp (mt hiff.mpr hpasses))).2
    · have hbeyond := hiff.mp ⟨td', m', hturned⟩
      rw [run_media_rejected (x := { m.state with data }) hserves hmounted' hopcode fuel data_size hbeyond] at hturned
      cases hturned
      rfl

/-- The target of one disk image. -/
def diskTarget (mb : Nat) : TargetData :=
  { add_target "virtual20mhd".toList TARGET_TYPE_EMULATION with
    luns := [newLun 0 "disk".toList .hd mb 0 (some 0)] }

/-- An image file, empty at first, that `add_lun` has opened and extended. -/
def diskWorld (mb : Nat) : World :=
  ({ World.oneFile "disk".toList .empty with
      streams := Function.update (fun _ => none) 0 (some (.opened 0 true)), next := 1 } : World).truncate
    "disk".toList (mb * 1024 * 1024)

theorem disk_made (mb : Nat) : Made mb (diskTarget mb) (newLun 0 "disk".toList .hd mb 0 (some 0)) (diskWorld mb) :=
  ⟨add_target "virtual20mhd".toList TARGET_TYPE_EMULATION, 0, "disk".toList,
    { state := { world := .oneFile "disk".toList .empty, data := fun _ => 0 }, choices := fun _ => .whole },
    _, rfl, rfl, rfl, rfl⟩

theorem bounds_agree_one_mib :
    BoundsAgree (diskTarget 1) (newLun 0 "disk".toList .hd 1 0 (some 0)) (diskWorld 1) :=
  (bounds_agree_iff (disk_made 1) (by decide) (by decide)).mpr (by decide)

/-- On a disk of 2048 MiB even one block at LBA 0 is turned away. -/
theorem bounds_disagree_two_gib : 2048 * 2048 ≤ 2 ^ 32 ∧
    Made 2048 (diskTarget 2048) (newLun 0 "disk".toList .hd 2048 0 (some 0)) (diskWorld 2048) ∧
    ¬ BoundsAgree (diskTarget 2048) (newLun 0 "disk".toList .hd 2048 0 (some 0)) (diskWorld 2048) := by
  refine ⟨by decide, disk_made 2048, fun hagree => ?_⟩
  obtain ⟨m, -, haccess⟩ := hagree 0 (cdb10 0x25 0 0) 8
    { state := { world := diskWorld 2048, data := fun _ => 0 }, choices := fun _ => .whole } rfl rfl
    fun _ => Choice.whole_progress
  have hiff := (haccess .read10 512 (cdb10 0x28 0 1) 512 m.state.data rfl (by decide)).1
  refine hiff.mpr ?_ ⟨_, _, rfl⟩
  have hlba : MediaCommand.lba (cdb10 0x28 0 1) = 0 := by decide
  have hlength : MediaCommand.read10.length (cdb10 0x28 0 1) = 1 := by decide
  omega

end vscsi.scsi_target

namespace vscsi

open scsi_target

/-- The target of one DVD. -/
def dvdTarget (luntype : LunType) : TargetData :=
  { add_target "virtualdvd".toList TARGET_TYPE_EMULATION with luns := [newLun 0 "dvd".toList luntype 1 0 (some 0)] }

end vscsi
