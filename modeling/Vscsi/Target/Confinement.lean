import Vscsi.Scsi.Confined
import Vscsi.Target.Loaded
import Vscsi.Scsi.Capacity

open lib

namespace vscsi

open hba device api scsi scsi_target

/-- The size of a request buffer. -/
def BUFFER_SIZE : Nat := 135168

/-- A command of a LUN asks for lengths that some room has: in READ TOC one that
a `short` can hold, and no more bytes than the room has in blocks that the LUN
has. -/
structure Fits (room : Nat) (ld : LunData) (cdb : Cdb) : Prop where
  toc : ld.cmds = some .mmc → cdb.get 0 = 0x43 → beNat (cdb.field 7 2) < 2 ^ 15
  moved : ∀ cmds lba n, ld.cmds = some cmds → blocks cmds cdb = some (lba, n) →
    ((lba + n) * ld.block_size.toNat : Nat) ≤ bound ld → n * ld.block_size.toNat ≤ room

/-- A LUN that `add_lun` has added on a stream, whatever its kind and size. -/
def Added (ld : LunData) : Prop :=
  ∃ lun lunfile luntype lunsizeinmb time fh, ld = newLun lun lunfile luntype lunsizeinmb time (some fh)

/-- Whatever comes before it and whatever is in the files, a command that the
main loop runs loads and stores bytes of the request buffer only. -/
def StaysInside (td : TargetData) (task : UserScsitapTask) : Prop :=
  ∀ (fuel : Nat) (k : Hba) (cmd_number : UInt32) (request_buffer : Mem) (task' : UserScsitapTask) (w : World),
    k.Reachable → loaded k { task with cmd_number, request_buffer } = some task' →
    Confined (BUFFER_SIZE - task.dataOffset)
      (run_scsi_command fuel td task'.invocation.lun task'.invocation.cdb task'.invocation.data_size)
      { world := w, data := task'.invocation.data }

section Lun

variable {ld : LunData}

theorem hex8_length (n : Nat) : (hex8 n).length = 8 := by
  have hdigits : (Nat.toDigits 16 (n % 2 ^ 32)).length ≤ 8 :=
    (Nat.length_toDigits_le_iff (by decide) (by decide)).mpr (Nat.mod_lt n (by decide))
  simp only [hex8, List.length_append, List.length_replicate]
  omega

theorem Added.serial_number (h : Added ld) : ld.serial_number.length = 8 := by
  obtain ⟨lun, lunfile, luntype, lunsizeinmb, time, fh, rfl⟩ := h
  cases luntype <;> exact hex8_length time

theorem Added.lun_fh (h : Added ld) : ∃ fh, ld.lun_fh = some fh := by
  obtain ⟨lun, lunfile, luntype, lunsizeinmb, time, fh, rfl⟩ := h
  exact ⟨fh, by cases luntype <;> rfl⟩

theorem Added.cmds (h : Added ld) : ∃ cmds, ld.cmds = some cmds := by
  obtain ⟨lun, lunfile, luntype, lunsizeinmb, time, fh, rfl⟩ := h
  cases luntype
  · exact ⟨.sbc, rfl⟩
  · exact ⟨.mmc, rfl⟩
  · exact ⟨.mmc, rfl⟩

end Lun

section Tables

variable {cdb : Cdb} {func : Handler} {ld : LunData} {lba n room : Nat}

/-- The handlers for the commands that move blocks are accesses. -/
theorem blocks_some {cmds : CommandTable} (h : blocks cmds cdb = some (lba, n)) (ld : LunData) :
    ∃ func, cmds.func (cdb.get 0) = some func ∧ ∃ move, Moves move ∧ ∀ fuel td data_size,
      func fuel td ld cdb data_size = access move fuel ld data_size lba n := by
  obtain ⟨func, hfunc, haccess⟩ := blocks_access h
  have hmoves : Moves (mover cdb ld.lun_fh) := by
    by_cases hop : cdb.get 0 = 0x28
    · rw [mover_read hop]
      exact fread_moves _
    · rw [mover_write hop]
      exact fwrite_moves _
  exact ⟨func, hfunc, _, hmoves, fun fuel td data_size => haccess fuel td ld data_size⟩

/-- The other handlers, but for READ TOC, keep to the room of a buffer. -/
theorem blocks_none {cmds : CommandTable} (hfunc : cmds.func (cdb.get 0) = some func) (h : blocks cmds cdb = none)
    (htoc : ¬ (cmds = .mmc ∧ cdb.get 0 = 0x43)) (hroom : 131073 ≤ room) (hserial : ld.serial_number.length ≤ 8)
    (fuel : Nat) (td : TargetData) {data_size : Int} (hsize : data_size ≤ 131072) (x : Space) :
    Confined room (func fuel td ld cdb data_size) x := by
  have hdone : Confined room (pure { ld, data_size := 0, status := 0 } : Code Outcome) x := .pure _ x
  cases cmds with
  | sbc =>
    simp only [CommandTable.func, scsi_sbc_commands] at hfunc
    split at hfunc <;> simp only [Option.some.injEq, reduceCtorEq] at hfunc <;> subst hfunc
    · exact hdone
    · exact spc_request_sense_confined hroom x
    · rename_i hop; simp [blocks, hop] at h
    · exact spc_inquiry_confined hroom x
    · exact spc_mode_sense6_confined hroom x
    · exact hdone
    · exact sbc_read_capacity10_confined hroom x
    · rename_i hop; simp [blocks, hop] at h
    · rename_i hop; simp [blocks, hop] at h
    · exact hdone
    · exact hdone
    · exact spc_persistent_reserve_in_confined hroom x
    · exact spc_persistent_reserve_out_confined hroom x
    · exact hdone
    · exact spc_report_luns_confined hroom x hsize
    · rename_i hop; simp [blocks, hop] at h
    · exact hdone
  | mmc =>
    simp only [CommandTable.func, scsi_mmc_commands] at hfunc
    split at hfunc <;> simp only [Option.some.injEq, reduceCtorEq] at hfunc <;> subst hfunc
    · exact hdone
    · exact spc_request_sense_confined hroom x
    · exact spc_inquiry_confined hroom x
    · exact spc_mode_sense6_confined hroom x
    · exact mmc_start_stop_unit_confined x
    · exact hdone
    · exact sbc_read_capacity10_confined hroom x
    · rename_i hop; simp [blocks, hop] at h
    · rename_i hop; simp [blocks, hop] at h
    · exact hdone
    · rename_i hop; exact absurd ⟨rfl, hop⟩ htoc
    · exact mmc_get_configuration_confined hroom x hserial
    · exact mmc_read_disc_information_confined hroom x
    · exact mmc_read_track_information_confined hroom x
    · exact hdone
    · exact hdone
    · exact hdone
    · exact mmc_read_buffer_capacity_confined hroom x
    · exact spc_report_luns_confined hroom x hsize
    · exact mmc_report_key_confined hroom x
    · exact mmc_get_performance_confined hroom x
    · exact mmc_read_dvd_structure_confined hroom x
    · exact hdone
    · exact hdone

end Tables

section Command

variable {td : TargetData} {lun : UInt8} {ld : LunData} {cdb : Cdb} {room : Nat}

/-- What decides whether a command stays in its room is its handler. -/
theorem run_confined_iff (hserves : Serves td lun ld) {cmds : CommandTable} (hcmds : ld.cmds = some cmds) {func : Handler}
    (hfunc : cmds.func (cdb.get 0) = some func) (fuel : Nat) (data_size : Int) (x : Space) :
    Confined room (run_scsi_command fuel td lun cdb data_size) x ↔ Confined room (func fuel td ld cdb data_size) x := by
  rw [run_scsi_command_eq hserves.type (findLun_eq hserves.find) hcmds hfunc]
  exact ⟨Confined.of_bind, fun h => h.bind fun _ => .pure _⟩

/-- A command that fits stays in its room. -/
theorem Fits.confined (h : Fits room ld cdb) (hserves : Serves td lun ld) (hadded : Added ld) (hroom : 131073 ≤ room)
    (fuel : Nat) {data_size : Int} (hsize : data_size ≤ 131072) (x : Space) :
    Confined room (run_scsi_command fuel td lun cdb data_size) x := by
  obtain ⟨cmds, hcmds⟩ := hadded.cmds
  cases hfunc : cmds.func (cdb.get 0) with
  | none =>
    simp only [run_scsi_command, hserves.type, findLun_eq hserves.find, hcmds, hfunc, if_true]
    exact .pure _ x
  | some func =>
    rw [run_confined_iff hserves hcmds hfunc]
    cases hblocks : blocks cmds cdb with
    | some pair =>
      obtain ⟨lba, n⟩ := pair
      obtain ⟨func', hfunc', move, hmove, heq⟩ := blocks_some hblocks ld
      obtain rfl := Option.some.inj (hfunc.symm.trans hfunc')
      rw [heq]
      exact access_confined hmove (h.moved cmds lba n hcmds hblocks) x
    | none =>
      by_cases htoc : cmds = .mmc ∧ cdb.get 0 = 0x43
      · obtain ⟨rfl, hop⟩ := htoc
        rw [hop] at hfunc
        obtain rfl := Option.some.inj hfunc
        have hshort := h.toc hcmds hop
        rw [← cdb.ntohs_short (by decide)] at hshort
        exact (mmc_read_toc_confined_iff hroom x).mpr hshort
      · exact blocks_none hfunc hblocks htoc hroom (Nat.le_of_eq hadded.serial_number) fuel td hsize x

/-- A command that does not fit leaves its room, on a stream that is open. -/
theorem Fits.of_confined (hserves : Serves td lun ld) (hroom : 131073 ≤ room) {fh : Nat} (hfh : ld.lun_fh = some fh)
    {x : Space} {s : Stream} (hstream : x.world.streams fh = some s) {fuel : Nat} {data_size : Int}
    (h : Confined room (run_scsi_command (fuel + 1) td lun cdb data_size) x) : Fits room ld cdb where
  toc := by
    intro hcmds hop
    have hfunc : CommandTable.mmc.func (cdb.get 0) = some mmc_read_toc := by rw [hop]; rfl
    rw [run_confined_iff hserves hcmds hfunc, mmc_read_toc_confined_iff hroom, cdb.ntohs_short (by decide)] at h
    exact h
  moved := by
    intro cmds lba n hcmds hblocks hbound
    obtain ⟨func, hfunc, move, hmove, heq⟩ := blocks_some hblocks ld
    rw [run_confined_iff hserves hcmds hfunc, heq] at h
    exact access_inside hmove hfh hstream hbound h

end Command

variable {td : TargetData} {task task' : UserScsitapTask} {ld : LunData}

theorem dataOffset_le (task : UserScsitapTask) : task.dataOffset ≤ 31 := by
  unfold UserScsitapTask.dataOffset
  split <;> decide

theorem room_le (task : UserScsitapTask) : 131073 ≤ BUFFER_SIZE - task.dataOffset := by
  have hoffset := dataOffset_le task
  simp only [BUFFER_SIZE]
  omega

/-- A command that the main loop runs and that does not fit leaves the buffer. -/
theorem leaves_buffer (hserves : Serves td (UInt8.ofNat task.lun.toNat) ld) (hadded : Added ld) (hbounded : task.Bounded)
    (hdirection : task.direction = 73 ∨ task.direction = 79)
    (hfits : ¬ Fits (BUFFER_SIZE - task.dataOffset) ld task.cdb) : ¬ StaysInside td task := by
  intro hstays
  obtain ⟨k, cmd_number, buffer, request_buffer, hreach, hloaded, -⟩ := leftover hbounded
    (hdirection.imp id fun hout => ⟨hout, Int.self_le_toNat _⟩) 0
  obtain ⟨fh, hfh⟩ := hadded.lun_fh
  have hconfined := hstays 1 k cmd_number buffer _
    { World.oneFile [] .empty with streams := fun _ => some (.opened 0 true) } hreach hloaded
  exact hfits (Fits.of_confined hserves (room_le task) hfh rfl hconfined)

/-- A command keeps to the request buffer exactly when it is dropped or fits into
what the buffer has from `data` on. -/
theorem stays_inside_iff (hserves : Serves td (UInt8.ofNat task.lun.toNat) ld) (hadded : Added ld)
    (hbounded : task.Bounded) : StaysInside td task ↔
      task.direction ≠ 73 ∧ task.direction ≠ 79 ∨ Fits (BUFFER_SIZE - task.dataOffset) ld task.cdb := by
  constructor
  · intro hstays
    by_contra hcond
    obtain ⟨hdirection, hfits⟩ := not_or.mp hcond
    refine leaves_buffer hserves hadded hbounded ?_ hfits hstays
    by_cases hin : task.direction = 73
    · exact .inl hin
    · exact .inr (not_not.mp fun hout => hdirection ⟨hin, hout⟩)
  · intro hcond fuel k cmd_number request_buffer task' w _ hloaded
    obtain ⟨hlun, hcdb, hsize, hdata⟩ := loaded_invocation hloaded
    rw [hlun, hcdb, hsize]
    rcases hcond with ⟨hin, hout⟩ | hfits
    · rcases hdata with h | ⟨h, -⟩
      · exact absurd h hin
      · exact absurd h hout
    · exact hfits.confined hserves hadded (room_le task) fuel hbounded.2 _

/-- An inbound command for LUN 0 with a buffer of 512 bytes. -/
def inboundTask (cdb : Cdb) : UserScsitapTask :=
  { register_scsi_host with direction := 73, request_bufflen := 512, cdblen := 10, cdb }

theorem stays_inside_one_block : StaysInside (diskTarget 1) (inboundTask (cdb10 0x28 0 1)) := by
  refine (stays_inside_iff (disk_made 1).serves ⟨_, _, _, _, _, _, rfl⟩ ⟨by decide, by decide⟩).mpr (.inr ⟨?_, ?_⟩)
  · intro hcmds
    cases hcmds
  · intro cmds lba n hcmds hblocks _
    cases hcmds
    cases hblocks
    decide

/-- A READ(10) of 265 blocks runs over the end of the buffer, and READ TOC with an
allocation length of 32768 clears all memory from `data` on. -/
theorem leaves_buffer_read_and_toc : ¬ StaysInside (diskTarget 1) (inboundTask (cdb10 0x28 0 265)) ∧
    ¬ StaysInside (dvdTarget .dvd_rom) (inboundTask (cdb10 0x43 0 32768)) := by
  constructor
  · refine leaves_buffer (disk_made 1).serves ⟨_, _, _, _, _, _, rfl⟩ ⟨by decide, by decide⟩ (.inl rfl) fun hfits => ?_
    exact absurd (hfits.moved .sbc 0 265 rfl rfl (by decide)) (by decide)
  · refine leaves_buffer ⟨rfl, rfl⟩ ⟨_, _, _, _, _, _, rfl⟩ ⟨by decide, by decide⟩ (.inl rfl) fun hfits => ?_
    exact absurd (hfits.toc rfl rfl) (by decide)

end vscsi
