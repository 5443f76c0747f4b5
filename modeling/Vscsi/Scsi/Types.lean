import Vscsi.Lib.Stdio
import Vscsi.Lib.CInt
import Vscsi.Lib.Bytes

open lib lib.Code

namespace vscsi

/-- `LUN_TYPE_HD`, `LUN_TYPE_DVD_R` and `LUN_TYPE_DVD_ROM`. -/
inductive LunType where
  | hd
  | dvd_r
  | dvd_rom
deriving DecidableEq

/-- The two tables a LUN may point to. -/
inductive CommandTable where
  | sbc
  | mmc
deriving DecidableEq

/-- `lun_data_t`, without the fields that nothing reads. -/
structure LunData where
  device_type : UInt8
  block_size : UInt16
  vendor : List Char
  productid : List Char
  revision : List Char
  serial_number : List Char
  lun : UInt8
  lunsizeinmb : Int
  filename : FileName
  /-- `none` for a null pointer -/
  lun_fh : Option Nat
  /-- `none` for a null pointer -/
  cmds : Option CommandTable
  is_blank : Bool
  /-- not set for a hard disk, none of whose commands reads it -/
  current_profile : Int
deriving DecidableEq

def TARGET_TYPE_EMULATION : Int := 0

/-- `target_data_t`, with its LUNs from the newest on. -/
structure TargetData where
  type : Int
  targetname : List Char
  luns : List LunData
deriving DecidableEq

/-- A command descriptor block. -/
abbrev Cdb := Vector UInt8 16

/-- Its bytes are counted from zero. -/
instance (priority := 2000) Cdb.neZero : @NeZero Nat Zero.ofOfNat0 16 := ⟨Nat.succ_ne_zero 15⟩

namespace Cdb

/-- The `long` that is loaded from a place of the CDB. -/
def long (cdb : Cdb) (i : Nat) : UInt32 := UInt32.ofNat (leNat ((cdb.toList.drop i).take 8))

/-- The `short` that is loaded from a place of the CDB. -/
def short (cdb : Cdb) (i : Nat) : UInt16 := UInt16.ofNat (leNat ((cdb.toList.drop i).take 2))

/-- The bytes of a field. -/
def field (cdb : Cdb) (i count : Nat) : List UInt8 := (cdb.toList.drop i).take count

theorem field_length (cdb : Cdb) {i count : Nat} (h : i + count ≤ 16) : (cdb.field i count).length = count := by
  simp [field]
  omega

/-- A `long` swapped into host order is the four-byte field it starts with. -/
theorem ntohl_long (cdb : Cdb) {i : Nat} (h : i + 4 ≤ 16) : (ntohl (cdb.long i)).toNat = beNat (cdb.field i 4) := by
  have hfour : ∀ bytes : List UInt8, 4 ≤ bytes.length →
      (ntohl (UInt32.ofNat (leNat (bytes.take 8)))).toNat = beNat (bytes.take 4) := by
    intro bytes hbytes
    match bytes with
    | b0 :: b1 :: b2 :: b3 :: rest => exact ntohl_leNat b0 b1 b2 b3 _
  exact hfour _ (by simp; omega)

theorem ntohs_short (cdb : Cdb) {i : Nat} (h : i + 2 ≤ 16) : (ntohs (cdb.short i)).toNat = beNat (cdb.field i 2) := by
  have htwo : ∀ bytes : List UInt8, 2 ≤ bytes.length →
      (ntohs (UInt16.ofNat (leNat (bytes.take 2)))).toNat = beNat (bytes.take 2) := by
    intro bytes hbytes
    match bytes with
    | b0 :: b1 :: rest => exact ntohs_leNat b0 b1 []
  exact htwo _ (by simp; omega)

end Cdb

/-- What a handler leaves in its reference parameters: the LUN, the size of the
data and the status. -/
structure Outcome where
  ld : LunData
  data_size : Int
  status : UInt8

/-- The handlers of the command tables. Those that loop take the rounds they may
go through as fuel. -/
abbrev Handler := (fuel : Nat) → TargetData → LunData → Cdb → (data_size : Int) → Code Outcome

namespace scsi

/-- `memset(data+i, 0, count)`. A negative count becomes a size beyond all memory. -/
def clear (i : Nat) (count : Int) : Code Unit :=
  if count < 0 then .fail .crash else store i (List.replicate count.toNat 0)

/-- The bytes of a string. -/
def chars (s : List Char) : List UInt8 := s.map fun c => UInt8.ofNat c.toNat

end scsi

end vscsi
