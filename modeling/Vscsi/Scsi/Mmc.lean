import Vscsi.Scsi.Spc
import Vscsi.Scsi.Sbc

open lib lib.Code

namespace vscsi

/-- A number as `%08x` prints it. -/
def hex8 (n : Nat) : List Char :=
  let digits := Nat.toDigits 16 (n % 2 ^ 32)
  List.replicate (8 - digits.length) '0' ++ digits

namespace scsi_target

/-- Archives the image if it is not empty and starts a new one; the LUN is
returned with its new stream. -/
def insert_new_dvd_r (ld : LunData) : Code LunData := do
  if ld.lun_fh.isSome then
    fseeko ld.lun_fh 0 .end_
    let total_size ← ftello ld.lun_fh
    fclose ld.lun_fh
    if total_size ≠ 0 then
      let time ← time
      let getpid ← getpid
      rename ld.filename (hex8 time ++ '_' :: (Nat.toDigits 10 getpid ++ ".iso".toList))
  let lun_fh ← fopen ld.filename .w_plus
  if lun_fh.isNone then .fail (.exit 10)
  else return { ld with lun_fh }

end scsi_target

namespace scsi

def mmc_read_buffer_capacity : Handler := fun _ _ ld cdb data_size =>
  let block := cdb.get 1 &&& 0x01
  if block ≠ 0 then return { ld, data_size, status := 2 }
  else do
    store 0 [0x00, 0x0a, 0x00, 0x00, 0x00, 0x13, 0x00, 0x00, 0x00, 0x13, 0x00, 0x00]
    return { ld, data_size := 12, status := 0 }

def mmc_synchronize_cache : Handler := fun _ _ ld _ _ => return { ld, data_size := 0, status := 0 }

def mmc_reserve_track : Handler := fun _ _ ld _ _ => return { ld, data_size := 0, status := 0 }

def mmc_read_disc_information : Handler := fun _ _ ld cdb _ => do
  let alloc_len := (ntohs (cdb.short 7)).toNat
  clear 0 alloc_len
  match ld.current_profile with
  | 0x0011 => store 0 [0x00, 0x20, 0x00, 0x01, 0x01, 0x01, 0x01, 0x20, 0x00, 0x00, 0x00, 0x00]
  | 0x0010 => store 0 [0x00, 0x20, 0x0e, 0x01, 0x01, 0x01, 0x01, 0x20, 0x00, 0x00, 0x00, 0x00]
  | _ => pure ()
  return { ld, data_size := alloc_len, status := 0 }

/-- For a DVD-ROM the track size comes from wherever the stream is. -/
def mmc_read_track_information : Handler := fun _ _ ld cdb data_size =>
  let address := cdb.get 1 &&& 0x03
  let lba := ntohl (cdb.long 2)
  let alloc_len := (ntohs (cdb.short 7)).toNat
  if address ≠ 1 ∨ lba = 0 then return { ld, data_size, status := 2 }
  else do
    clear 0 alloc_len
    match ld.current_profile with
    | 0x0011 =>
      store 0 [0x00, 0x22, 0x01, 0x01, 0x00, 0x04, 0x61, 0x03, 0x00, 0x00, 0x00, 0x00, 0x00, 0x00, 0x00, 0x00,
        0x00, 0x23, 0x10, 0x20, 0x00, 0x00, 0x00, 0x10, 0x00, 0x23, 0x10, 0x20, 0x00, 0x00, 0x00, 0x00, 0x00, 0x00]
    | 0x0010 =>
      store 0 [0x00, 0x22, 0x01, 0x01, 0x00, 0x04, 0x01, 0x00, 0x00, 0x00, 0x00, 0x00, 0x00, 0x00, 0x00, 0x00,
        0x00, 0x00, 0x00, 0x00, 0x00, 0x00, 0x00, 0x10]
      store 32 [0x00, 0x00]
      let total_size ← ftello ld.lun_fh
      let blocks := wholeBlocks total_size ld
      store 24 [byteAt blocks 24, byteAt blocks 16, byteAt blocks 8, byteAt blocks 0, 0x00, 0x00, 0x00, 0x00]
    | _ => pure ()
    return { ld, data_size := alloc_len, status := 0 }

def mmc_prevent_allow_media_removal : Handler := fun _ _ ld _ _ => return { ld, data_size := 0, status := 0 }

def mmc_start_stop_unit : Handler := fun _ _ ld _ _ => do
  match ld.current_profile with
  | 0x0011 =>
    let ld ← scsi_target.insert_new_dvd_r ld
    return { ld, data_size := 0, status := 0 }
  | _ => return { ld, data_size := 0, status := 0 }

def mmc_set_cd_speed : Handler := fun _ _ ld _ _ => return { ld, data_size := 0, status := 0 }

def mmc_set_streaming : Handler := fun _ _ ld _ _ => return { ld, data_size := 0, status := 0 }

/-- A `short` allocation length; a blank disc has sense data instead of a table. -/
def mmc_read_toc : Handler := fun _ _ ld cdb data_size => do
  let format := cdb.get 2 &&& 0x0f
  let alloc_len : Int := Int.bmod (ntohs (cdb.short 7)).toNat (2 ^ 16)
  clear 0 alloc_len
  if ld.is_blank then
    store 0 [0x00, 0x12, 0x70, 0x00, 0x05, 0x00, 0x00, 0x00, 0x00, 0x12, 0x00, 0x00, 0x00, 0x00, 0x24, 0x00, 0x00,
      0x00, 0x00, 0x00]
    return { ld, data_size := 20, status := 2 }
  else
    clear 0 alloc_len
    if format ≠ 0 then return { ld, data_size, status := 2 }
    else
      store 0 [0x00, 0x0a, 1, 1, 0, 0x14, 0x01, 0, 0, 0, 0, 0]
      return { ld, data_size := alloc_len, status := 0 }

def mmc_get_performance : Handler := fun _ _ ld cdb data_size =>
  let type := cdb.get 10
  match ld.current_profile with
  | 0x0011 =>
    match type with
    | 0 => do
      store 0 [0x00, 0x00, 0x00, 0x14, 0x02, 0x00, 0x00, 0x00,
        0x00, 0x00, 0x00, 0x00, 0x00, 0x00, 0x15, 0xa4, 0x00, 0x23, 0x10, 0x1f, 0x00, 0x00, 0x15, 0xa4]
      return { ld, data_size := 24, status := 0 }
    | 3 => do
      store 0 [0x00, 0x00, 0x00, 0x24, 0x00, 0x00, 0x00, 0x00,
        0x00, 0x00, 0x00, 0x00, 0x00, 0x23, 0x10, 0x1f, 0x00, 0x00, 0x12, 0xb3, 0x00, 0x00, 0x15, 0xa4,
        0x00, 0x00, 0x00, 0x00, 0x00, 0x23, 0x10, 0x1f, 0x00, 0x00, 0x12, 0xb3, 0x00, 0x00, 0x0c, 0xfc]
      return { ld, data_size := 40, status := 0 }
    | _ => return { ld, data_size, status := 2 }
  | 0x0010 =>
    match type with
    | 0 => do
      store 0 [0x00, 0x00, 0x00, 0x04, 0x02, 0x00, 0x00, 0x00]
      return { ld, data_size := 8, status := 0 }
    | _ => illegalRequest ld
  | _ => return { ld, data_size := 0, status := 0 }

/-- Formats 0, 1, 0x0d and 0x0e. -/
def mmc_read_dvd_structure : Handler := fun _ _ ld cdb data_size => do
  let alloc_len := (ntohs (cdb.short 8)).toNat
  let format := cdb.get 7
  let done : Outcome := { ld, data_size := alloc_len, status := 0 }
  clear 0 alloc_len
  match format with
  | 0x00 =>
    store 0 [8, 2, 0, 0]
    match ld.current_profile with
    | 0x0011 =>
      store 4 [0x25, 0x0f, 0x02, 0x00]
      store 9 [0x03, 0x00, 0x00]
      return done
    | 0x0010 =>
      store 4 [0x01, 0x02, 0x01, 0x00]
      store 9 [0x03, 0x00, 0x00]
      fseeko ld.lun_fh 0 .end_
      let total_size ← ftello ld.lun_fh
      let blocks := wholeBlocks total_size ld
      store 13 [byteAt blocks 24, byteAt blocks 16, byteAt blocks 0]
      return done
    | _ => return done
  | 0x01 =>
    store 0 [0, 6]
    return done
  | 0x0d =>
    match ld.current_profile with
    | 0x0011 =>
      store 0 [0x80, 0x06]
      return done
    | 0x0010 => illegalRequest ld
    | _ => return done
  | 0x0e =>
    match ld.current_profile with
    | 0x0011 =>
      store 0 [0x00, 0x6c, 0x00, 0x00,
        0x01, 0x40, 0xc1, 0xfd, 0x9e, 0xd8, 0x58, 0x00, 0x02, 0x35, 0x0d, 0x0e, 0x88, 0x9a, 0x80, 0x00,
        0x03, 0x43, 0x4d, 0x43, 0x20, 0x4d, 0x41, 0x00, 0x04, 0x47, 0x2e, 0x20, 0x41, 0x45, 0x31, 0x00,
        0x05, 0x00, 0x00, 0x00, 0x00, 0x00, 0x02, 0x00, 0x06, 0x09, 0x0d, 0x11, 0x87, 0x78, 0x90, 0x00,
        0x07, 0x88, 0x80, 0x00, 0x00, 0x00, 0x00, 0x00, 0x08, 0x05, 0x15, 0x0d, 0x0f, 0x0a, 0x09, 0x00]
      return done
    | 0x0010 => illegalRequest ld
    | _ => return done
  | 0x11 => illegalRequest ld
  | _ => return { ld, data_size, status := 2 }

def mmc_report_key : Handler := fun _ _ ld cdb data_size =>
  let alloc_len := (ntohs (cdb.short 8)).toNat
  let key_format := cdb.get 10 &&& 0x3f
  if key_format ≠ 8 then return { ld, data_size, status := 2 }
  else do
    clear 0 alloc_len
    store 0 [0, 6]
    store 4 [0x63, 0xf7, 0x01]
    return { ld, data_size := alloc_len, status := 0 }

def profile_list : List Nat := [0x0008, 0x0009, 0x000a, 0x0010, 0x0011, 0x0014, 0x001a, 0x001b]

/-- A flag byte that depends on the profile; for any other profile it is left out. -/
def profileFlag (ld : LunData) (dvd_r dvd_rom : UInt8) : List UInt8 :=
  match ld.current_profile with
  | 0x0011 => [dvd_r]
  | 0x0010 => [dvd_rom]
  | _ => []

/-- The flags of a feature and what follows its additional length. -/
def feature (ld : LunData) : (starting_feature_number : Nat) → Option (List UInt8 × List UInt8)
  | 0x0000 => some ([0x03], profile_list.flatMap fun profile =>
      [byteAt profile 8, byteAt profile 0, if (profile : Int) = ld.current_profile then 0x01 else 0x00, 0])
  | 0x0001 => some ([0x07], [0, 0, 0, 1, 0, 0, 0, 0])
  | 0x0002 => some ([0x03], [0, 0, 0, 0])
  | 0x0003 => some ([0x03], [0x29, 0, 0, 0])
  | 0x0010 => some (profileFlag ld 0x00 0x01,
      [byteAt ld.block_size.toNat 24, byteAt ld.block_size.toNat 16, byteAt ld.block_size.toNat 8,
        byteAt ld.block_size.toNat 0, 0, 0x10, 0, 0])
  | 0x001f => some (profileFlag ld 0x00 0x01, [])
  | 0x0021 => some (profileFlag ld 0x05 0x04, [0x3f, 0x0b, 0x01, 0x01, 0, 0, 0, 0])
  | 0x002f => some (profileFlag ld 0x05 0x04, [0x46, 0, 0, 0])
  | 0x0100 => some ([0x03], [])
  | 0x0105 => some ([0x03], [0x00, 0, 0, 0])
  | 0x0107 => some ([0x0d], [0x1f, 0, 0, 0])
  | 0x0108 =>
    let padding := (4 - ld.serial_number.length % 4) % 4
    some ([0x03], chars (ld.serial_number ++ List.replicate padding ' '))
  | _ => none

/-- The additional length is the distance of the last byte from its own, and the
data length that of the last byte from byte three. -/
def mmc_get_configuration : Handler := fun _ _ ld cdb _ => do
  let starting_feature_number := (ntohs (cdb.short 2)).toNat
  let alloc_len := (ntohs (cdb.short 7)).toNat
  clear 0 alloc_len
  store 8 [byteAt starting_feature_number 8, byteAt starting_feature_number 0]
  let last : Nat ← match feature ld starting_feature_number with
    | some (flags, body) => do
      store 10 (flags ++ UInt8.ofNat body.length :: body)
      pure (10 + flags.length + body.length)
    | none => pure 7
  let i : Int := last - 3
  store 0 [byteAt i 24, byteAt i 16, byteAt i 8, byteAt i 0, 0, 0, byteAt ld.current_profile 8,
    byteAt ld.current_profile 0]
  return { ld, data_size := alloc_len, status := 0 }

end scsi

end vscsi
