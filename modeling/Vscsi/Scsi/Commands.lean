import Vscsi.Scsi.HardDisk

open lib lib.Code

namespace vscsi

open scsi scsi_target

/-- The commands that move blocks, with ten and twelve byte CDBs. -/
inductive MediaCommand where
  | read10
  | write10
  | write12
deriving DecidableEq

namespace MediaCommand

def opcode : MediaCommand → UInt8
  | read10 => 0x28
  | write10 => 0x2a
  | write12 => 0xaa

def handler : MediaCommand → Handler
  | read10 => sbc_read10
  | write10 => sbc_write10
  | write12 => sbc_write12

/-- The call that moves the bytes. -/
def move : MediaCommand → (fh : Option Nat) → Nat → Nat → Code Nat
  | read10, fh => (fread · · fh)
  | _, fh => (fwrite · · fh)

/-- The first block, as the CDB has it. -/
def lba (cdb : Cdb) : Nat := beNat (cdb.field 2 4)

/-- The number of blocks, as the CDB has it. -/
def length : MediaCommand → Cdb → Nat
  | write12, cdb => beNat (cdb.field 6 4)
  | _, cdb => beNat (cdb.field 7 2)

theorem handler_eq (c : MediaCommand) (fuel : Nat) (td : TargetData) (ld : LunData) (cdb : Cdb) (data_size : Int) :
    c.handler fuel td ld cdb data_size = access (c.move ld.lun_fh) fuel ld data_size (lba cdb) (c.length cdb) := by
  have hlba := cdb.ntohl_long (i := 2) (by decide)
  have hshort := cdb.ntohs_short (i := 7) (by decide)
  have hlong := cdb.ntohl_long (i := 6) (by decide)
  cases c with
  | read10 => simp only [handler, sbc_read10, hlba, hshort, move, lba, length]
  | write10 => simp only [handler, sbc_write10, hlba, hshort, move, lba, length]
  | write12 => simp only [handler, sbc_write12, hlba, hlong, move, lba, length]

theorem func_sbc (c : MediaCommand) : CommandTable.sbc.func c.opcode = some c.handler := by
  cases c <;> rfl

end MediaCommand

/-- A ten byte CDB for blocks of a medium. -/
def cdb10 (opcode : UInt8) (lba n : Nat) : Cdb :=
  #v[opcode, 0, UInt8.ofNat (lba / 2 ^ 24), UInt8.ofNat (lba / 2 ^ 16), UInt8.ofNat (lba / 2 ^ 8), UInt8.ofNat lba,
    0, UInt8.ofNat (n / 2 ^ 8), UInt8.ofNat n, 0, 0, 0, 0, 0, 0, 0]

@[simp] theorem lba_cdb10 (opcode : UInt8) (lba n : Nat) : MediaCommand.lba (cdb10 opcode lba n) = lba % 2 ^ 32 := by
  have hfield : (cdb10 opcode lba n).field 2 4 = be 4 lba := by
    simp [cdb10, Cdb.field, be, List.range, List.range.loop]
  rw [MediaCommand.lba, hfield, beNat_be]

theorem length_cdb10 {c : MediaCommand} (h : c ≠ .write12) (opcode : UInt8) (lba n : Nat) :
    c.length (cdb10 opcode lba n) = n % 2 ^ 16 := by
  have hfield : (cdb10 opcode lba n).field 7 2 = be 2 n := by
    simp [cdb10, Cdb.field, be, List.range, List.range.loop]
  cases c with
  | read10 => simp only [MediaCommand.length, hfield, beNat_be]
  | write10 => simp only [MediaCommand.length, hfield, beNat_be]
  | write12 => exact absurd rfl h

namespace scsi_target

variable {td : TargetData} {lun : UInt8} {ld : LunData}

/-- A command on a LUN with a handler for it runs the handler. -/
theorem run_scsi_command_eq (htype : td.type = TARGET_TYPE_EMULATION) (hfind : findLun td lun = some ld)
    {cmds : CommandTable} (hcmds : ld.cmds = some cmds) {cdb : Cdb} {func : Handler}
    (hfunc : cmds.func (cdb.get 0) = some func) (fuel : Nat) (data_size : Int) :
    run_scsi_command fuel td lun cdb data_size = do
      let outcome ← func fuel td ld cdb data_size
      return (outcome.status, putLun td lun outcome.ld) := by
  simp only [run_scsi_command, htype, hfind, hcmds, hfunc, if_true]

/-- A LUN that is in the list may be put back. -/
theorem putLun_self (hfind : td.luns.find? (·.lun = lun) = some ld) : putLun td lun ld = td := by
  have hset : ∀ luns : List LunData, luns.find? (·.lun = lun) = some ld →
      luns.set (luns.findIdx (·.lun = lun)) ld = luns := by
    intro luns h
    induction luns with
    | nil => cases h
    | cons head rest ih =>
      by_cases hhead : head.lun = lun
      · simp only [List.find?_cons, hhead, decide_true, Option.some.injEq] at h
        subst h
        simp [List.findIdx_cons, hhead]
      · simp only [List.find?_cons, hhead, decide_false] at h
        simp [List.findIdx_cons, hhead, ih h]
  simp only [putLun, hset td.luns hfind]

/-- The LUN a number stands for is the first in the list with it. -/
theorem findLun_eq (h : td.luns.find? (·.lun = lun) = some ld) : findLun td lun = some ld := by
  rw [findLun, h, Option.some_or]

/-- Commands with a number go to this LUN of the target. -/
structure Serves (td : TargetData) (lun : UInt8) (ld : LunData) : Prop where
  type : td.type = TARGET_TYPE_EMULATION
  find : td.luns.find? (·.lun = lun) = some ld

variable {fh inode : Nat} {f : File} {x : Space} {c : MediaCommand} {cdb : Cdb}

/-- On a hard disk a command on blocks is an access. -/
theorem run_media_eq (hserves : Serves td lun ld) (hcmds : ld.cmds = some .sbc) (hopcode : cdb.get 0 = c.opcode)
    (fuel : Nat) (data_size : Int) :
    run_scsi_command fuel td lun cdb data_size = do
      let outcome ← access (c.move ld.lun_fh) fuel ld data_size (MediaCommand.lba cdb) (c.length cdb)
      return (outcome.status, putLun td lun outcome.ld) := by
  have hfunc : CommandTable.sbc.func (cdb.get 0) = some c.handler := by rw [hopcode, c.func_sbc]
  rw [run_scsi_command_eq hserves.type (findLun_eq hserves.find) hcmds hfunc, c.handler_eq]

/-- Beyond the bound the command returns status 2 and does nothing. -/
theorem run_media_rejected (hserves : Serves td lun ld) (h : Mounted ld x.world fh inode f)
    (hopcode : cdb.get 0 = c.opcode) (fuel : Nat) (data_size : Int)
    (hbeyond : bound ld < ((MediaCommand.lba cdb + c.length cdb) * 512 : Nat)) :
    run_scsi_command fuel td lun cdb data_size = .ret (2, td) := by
  rw [run_media_eq hserves h.cmds hopcode, access_rejected _ fuel h.block_size data_size hbeyond]
  simp only [Prog.pure_eq, Prog.ret_bind, putLun_self hserves.find]

theorem run_read_ends (hserves : Serves td lun ld) (h : Mounted ld x.world fh inode f)
    (hopcode : cdb.get 0 = MediaCommand.read10.opcode) (fuel : Nat) (data_size : Int)
    (hbound : ((MediaCommand.lba cdb + MediaCommand.read10.length cdb) * 512 : Nat) ≤ bound ld) :
    Ends (OutOfFuel fuel (MediaCommand.read10.length cdb * 512)) (run_scsi_command fuel td lun cdb data_size) x
      fun r x' => r = (0, td) ∧ x'.world.Volume fh inode f ∧ x'.data =
        blit x.data 0 (slice f.bytes (MediaCommand.lba cdb * 512) (MediaCommand.read10.length cdb * 512)) := by
  rw [run_media_eq hserves h.cmds hopcode]
  refine Prog.Meets.bind (read_ends h fuel data_size hbound) ?_
  rintro o x' ⟨rfl, hvolume, hdata⟩
  exact ⟨by rw [putLun_self hserves.find], hvolume, hdata⟩

theorem run_write_ends (hserves : Serves td lun ld) (h : Mounted ld x.world fh inode f)
    (hopcode : cdb.get 0 = c.opcode) (hwrite : c ≠ .read10) (fuel : Nat) (data_size : Int)
    (hbound : ((MediaCommand.lba cdb + c.length cdb) * 512 : Nat) ≤ bound ld) :
    Ends (OutOfFuel fuel (c.length cdb * 512)) (run_scsi_command fuel td lun cdb data_size) x
      fun r x' => r = (0, td) ∧
        x'.world.Volume fh inode (f.pwrite (MediaCommand.lba cdb * 512) (slice x.data 0 (c.length cdb * 512))) ∧
        x'.data = x.data := by
  have hmove : c.move ld.lun_fh = (fwrite · · ld.lun_fh) := by
    cases c with
    | read10 => exact absurd rfl hwrite
    | write10 => rfl
    | write12 => rfl
  rw [run_media_eq hserves h.cmds hopcode, hmove]
  refine Prog.Meets.bind (write_ends h fuel data_size hbound) ?_
  rintro o x' ⟨rfl, hvolume, hdata⟩
  exact ⟨by rw [putLun_self hserves.find], hvolume, hdata⟩

/-- READ CAPACITY(10) through the command table. -/
theorem run_capacity_ends (hserves : Serves td lun ld) (h : Mounted ld x.world fh inode f) (hopcode : cdb.get 0 = 0x25)
    (fuel : Nat) (data_size : Int) {blocks : Nat} (hblocks : f.size = blocks * 512) (hpos : 1 ≤ blocks)
    (hmax : blocks ≤ 2 ^ 32) :
    Ends (fun _ => False) (run_scsi_command fuel td lun cdb data_size) x
      fun r x' => r = (0, td) ∧ x'.world.Volume fh inode f ∧ slice x'.data 0 8 = be 4 (blocks - 1) ++ be 4 512 := by
  have hfunc : CommandTable.sbc.func (cdb.get 0) = some sbc_read_capacity10 := by rw [hopcode]; rfl
  rw [run_scsi_command_eq hserves.type (findLun_eq hserves.find) h.cmds hfunc]
  refine Prog.Meets.bind (sbc_read_capacity10_ends h fuel td cdb data_size hblocks hpos hmax) ?_
  rintro o x' ⟨rfl, hvolume, hdata⟩
  exact ⟨by rw [putLun_self hserves.find], hvolume, hdata⟩

end scsi_target

end vscsi
