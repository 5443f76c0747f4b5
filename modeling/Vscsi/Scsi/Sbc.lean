import Vscsi.Scsi.Types

open lib lib.Code

namespace vscsi.scsi

def sbc_verify10 : Handler := fun _ _ ld _ _ => return { ld, data_size := 0, status := 0 }

def sbc_verify12 : Handler := fun _ _ ld _ _ => return { ld, data_size := 0, status := 0 }

def sbc_verify16 : Handler := fun _ _ ld _ _ => return { ld, data_size := 0, status := 0 }

/-- The count of blocks in a file. The test whether the count was cut comes to
nothing, since the division is the same. -/
def wholeBlocks (total_size : Nat) (ld : LunData) : Int :=
  let blocks : Int := total_size / ld.block_size.toNat
  if (total_size : Int) / ld.block_size.toNat ≠ blocks then blocks - 1 else blocks

/-- Each of the two `long` stores is eight bytes wide, so twelve bytes are written. -/
def sbc_read_capacity10 : Handler := fun _ _ ld _ _ => do
  clear 0 8
  fseeko ld.lun_fh 0 .end_
  let total_size ← ftello ld.lun_fh
  let blocks := wholeBlocks total_size ld - 1
  store 0 (le64 (htonl (UInt32.ofInt blocks)).toNat)
  store 4 (le64 (htonl (UInt32.ofNat ld.block_size.toNat)).toNat)
  return { ld, data_size := 8, status := 0 }

/-- The loop of a transfer: it seeks to the first byte not moved yet and moves
what is left, until `count` has reached `len`. -/
def transfer (move : (i count : Nat) → Code Nat) (fh : Option Nat) (lba len : Int) :
    (fuel : Nat) → (count : Int) → Code Unit
  | 0, count => if count < len then .fail .diverge else return ()
  | fuel + 1, count =>
    if count < len then do
      fseeko fh (lba + count) .set
      let res ← move count.toNat (size_t (len - count))
      transfer move fh lba len fuel (int32 (count + res))
    else return ()

/-- The bound of a LUN in bytes, computed in `int`. -/
def bound (ld : LunData) : Int := int32 (int32 (ld.lunsizeinmb * 1024) * 1024)

/-- The common body of the commands that move blocks between `data` and a LUN. -/
def access (move : (i count : Nat) → Code Nat) (fuel : Nat) (ld : LunData) (data_size lba transfer_len : Int) :
    Code Outcome :=
  let lba := lba * ld.block_size.toNat
  let transfer_len := transfer_len * ld.block_size.toNat
  if lba + transfer_len > bound ld then return { ld, data_size, status := 2 }
  else do
    transfer move ld.lun_fh lba transfer_len fuel 0
    return { ld, data_size := int32 transfer_len, status := 0 }

def sbc_read10 : Handler := fun fuel _ ld cdb data_size =>
  access (fread · · ld.lun_fh) fuel ld data_size (ntohl (cdb.long 2)).toNat (ntohs (cdb.short 7)).toNat

def sbc_write12 : Handler := fun fuel _ ld cdb data_size =>
  access (fwrite · · ld.lun_fh) fuel ld data_size (ntohl (cdb.long 2)).toNat (ntohl (cdb.long 6)).toNat

def sbc_write10 : Handler := fun fuel _ ld cdb data_size =>
  access (fwrite · · ld.lun_fh) fuel ld data_size (ntohl (cdb.long 2)).toNat (ntohs (cdb.short 7)).toNat

def sbc_write6 : Handler := fun fuel _ ld cdb data_size =>
  access (fwrite · · ld.lun_fh) fuel ld data_size (ntohs (cdb.short 2)).toNat (cdb.get 4).toNat

end vscsi.scsi
