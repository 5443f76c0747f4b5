import Vscsi.Scsi.Mmc

open lib lib.Code

namespace vscsi

namespace scsi

/-- The commands of a CD/DVD device. -/
def scsi_mmc_commands (opcode : UInt8) : Option Handler :=
  match opcode with
  | 0x00 => some spc_test_unit_ready
  | 0x03 => some spc_request_sense
  | 0x12 => some spc_inquiry
  | 0x1a => some spc_mode_sense6
  | 0x1b => some mmc_start_stop_unit
  | 0x1e => some mmc_prevent_allow_media_removal
  | 0x25 => some sbc_read_capacity10
  | 0x28 => some sbc_read10
  | 0x2a => some sbc_write10
  | 0x35 => some mmc_synchronize_cache
  | 0x43 => some mmc_read_toc
  | 0x46 => some mmc_get_configuration
  | 0x51 => some mmc_read_disc_information
  | 0x52 => some mmc_read_track_information
  | 0x53 => some mmc_reserve_track
  | 0x55 => some spc_mode_select10
  | 0x5a => some spc_mode_sense10
  | 0x5c => some mmc_read_buffer_capacity
  | 0xa0 => some spc_report_luns
  | 0xa4 => some mmc_report_key
  | 0xac => some mmc_get_performance
  | 0xad => some mmc_read_dvd_structure
  | 0xb6 => some mmc_set_streaming
  | 0xbb => some mmc_set_cd_speed
  | _ => none

/-- The commands of a hard disk. -/
def scsi_sbc_commands (opcode : UInt8) : Option Handler :=
  match opcode with
  | 0x00 => some spc_test_unit_ready
  | 0x03 => some spc_request_sense
  | 0x0a => some sbc_write6
  | 0x12 => some spc_inquiry
  | 0x1a => some spc_mode_sense6
  | 0x1e => some spc_prevent_allow_media_removal
  | 0x25 => some sbc_read_capacity10
  | 0x28 => some sbc_read10
  | 0x2a => some sbc_write10
  | 0x2f => some sbc_verify10
  | 0x55 => some spc_mode_select10
  | 0x5e => some spc_persistent_reserve_in
  | 0x5f => some spc_persistent_reserve_out
  | 0x8f => some sbc_verify16
  | 0xa0 => some spc_report_luns
  | 0xaa => some sbc_write12
  | 0xaf => some sbc_verify12
  | _ => none

end scsi

/-- The handler for an opcode. -/
def CommandTable.func : CommandTable → UInt8 → Option Handler
  | .sbc => scsi.scsi_sbc_commands
  | .mmc => scsi.scsi_mmc_commands

namespace scsi_target

/-- Stands in for LUN 0 on a target without one. All of it is zero. -/
def DUMMY_LUN_0 : LunData where
  device_type := 0
  block_size := 0
  vendor := []
  productid := []
  revision := []
  serial_number := []
  lun := 0
  lunsizeinmb := 0
  filename := []
  lun_fh := none
  cmds := none
  is_blank := false
  current_profile := 0

/-- The LUN that commands with a number go to. -/
def findLun (td : TargetData) (lun : UInt8) : Option LunData :=
  (td.luns.find? (·.lun = lun)).or (if lun = 0 then some DUMMY_LUN_0 else none)

/-- The target after a command has changed the LUN with a number. -/
def putLun (td : TargetData) (lun : UInt8) (ld : LunData) : TargetData :=
  { td with luns := td.luns.set (td.luns.findIdx (·.lun = lun)) ld }

/-- The status and the target, whose LUN the command may have changed. -/
def run_scsi_command (fuel : Nat) (td : TargetData) (lun : UInt8) (cdb : Cdb) (data_size : Int) :
    Code (UInt8 × TargetData) :=
  let opcode := cdb.get 0
  let ld := findLun td lun
  if td.type = TARGET_TYPE_EMULATION then
    match ld with
    | none => .fail .crash
    | some ld =>
      match ld.cmds with
      | none => .fail .crash
      | some cmds =>
        match cmds.func opcode with
        | some func => do
          let outcome ← func fuel td ld cdb data_size
          return (outcome.status, putLun td lun outcome.ld)
        | none => return (2, td)
  else return (0, td)

def add_target (targetname : List Char) (targettype : Int) : TargetData where
  type := targettype
  targetname
  luns := []

/-- Fields that depend on the kind of a LUN. -/
def newLun (lun : UInt8) (lunfile : FileName) (luntype : LunType) (lunsizeinmb : Int) (time : Nat)
    (lun_fh : Option Nat) : LunData :=
  match luntype with
  | .hd =>
    { device_type := 0x00, is_blank := false, block_size := 512, vendor := "VirtualHD".toList
      productid := "VHD".toList, revision := "0".toList, serial_number := hex8 time, cmds := some .sbc
      filename := lunfile, lun_fh, current_profile := 0, lun, lunsizeinmb }
  | .dvd_r =>
    { device_type := 0x05, current_profile := 0x0011, is_blank := true, block_size := 2048
      vendor := "VirtualDVDR".toList, productid := "VdR".toList, revision := "0".toList
      serial_number := hex8 time, cmds := some .mmc, filename := lunfile, lun_fh, lun, lunsizeinmb }
  | .dvd_rom =>
    { device_type := 0x05, current_profile := 0x0010, is_blank := false, block_size := 2048
      vendor := "VirtualDVDROM".toList, productid := "VdROM".toList, revision := "0".toList
      serial_number := hex8 time, cmds := some .mmc, filename := lunfile, lun_fh, lun, lunsizeinmb }

/-- A hard disk's file is opened for update or, failing that, created. -/
def openDisk (lunfile : FileName) : Code (Option Nat) := do
  let lun_fh ← fopen lunfile .r_plus
  if lun_fh.isSome then return lun_fh
  else fopen lunfile .w_plus

/-- The target is returned with the new LUN in front, or as it was when the file
could not be opened. -/
def add_lun (t : TargetData) (lun : Int) (lunfile : FileName) (luntype : LunType) (lunsizeinmb : Int) :
    Code TargetData := do
  let lunsize := lunsizeinmb * 1024 * 1024
  let time ← time
  let l := newLun (UInt8.ofInt lun) lunfile luntype lunsizeinmb time
  match luntype with
  | .hd =>
    let lun_fh ← openDisk lunfile
    if lun_fh.isNone then return t
    else
      truncate lunfile lunsize
      return { t with luns := l lun_fh :: t.luns }
  | .dvd_r =>
    let lun_fh ← fopen lunfile .w_plus
    if lun_fh.isNone then return t else return { t with luns := l lun_fh :: t.luns }
  | .dvd_rom =>
    let lun_fh ← fopen lunfile .r
    if lun_fh.isNone then return t else return { t with luns := l lun_fh :: t.luns }

end scsi_target

end vscsi
