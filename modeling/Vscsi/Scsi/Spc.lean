import Vscsi.Scsi.Types

open lib lib.Code

namespace vscsi.scsi

/-- The sense data of an illegal request, behind its length. -/
def illegal_request : List UInt8 :=
  [0x00, 0x1c,
    0x70, 0x00, 0x05, 0x00, 0x00, 0x00, 0x00, 0x12, 0x00, 0x00, 0x00, 0x00, 0x24, 0x00, 0x00, 0x00,
    0x00, 0x00, 0x00, 0x01, 0x02, 0x03, 0x04, 0x05, 0x06, 0x07]

/-- `ILLEGAL_REQUEST`, with which a handler returns. -/
def illegalRequest (ld : LunData) : Code Outcome := do
  store 0 illegal_request
  return { ld, data_size := 28, status := 2 }

/-- The byte that starts at a bit of a number. -/
def byteAt (x : Int) (bit : Nat) : UInt8 := UInt8.ofInt (x / 2 ^ bit)

theorem byteAt_natCast (n bit : Nat) : byteAt n bit = UInt8.ofNat (n / 2 ^ bit) := by
  have hdiv : ((n : Int) / 2 ^ bit % 2 ^ 8).toNat = n / 2 ^ bit % 2 ^ 8 := by
    norm_cast
  rw [byteAt, UInt8.ofInt, hdiv]
  apply UInt8.toNat_inj.mp
  simp

theorem byteAt_two (n : Nat) : [byteAt n 8, byteAt n 0] = be 2 n := by
  simp only [byteAt_natCast]
  simp [be, List.range, List.range.loop]

theorem byteAt_four (n : Nat) : [byteAt n 24, byteAt n 16, byteAt n 8, byteAt n 0] = be 4 n := by
  simp only [byteAt_natCast]
  simp [be, List.range, List.range.loop]

/-- The entries of `spc_report_luns`. The index may be equal to the length. -/
def reportEntries (alloc_len : Int) : (numluns : Nat) → List LunData → Code Nat
  | numluns, [] => return numluns
  | numluns, tmplun :: luns => do
    if (8 + 1 + numluns * 8 : Nat) ≤ alloc_len then store (8 + 1 + numluns * 8) [tmplun.lun]
    reportEntries alloc_len (numluns + 1) luns

def spc_report_luns : Handler := fun _ td ld cdb data_size =>
  let alloc_len : Int := (ntohl (cdb.long 6)).toNat
  if alloc_len > data_size then return { ld, data_size, status := 2 }
  else do
    clear 0 alloc_len
    let numluns ← reportEntries alloc_len 0 td.luns
    store 0 (le64 (htonl (UInt32.ofNat (numluns * 8))).toNat)
    return { ld, data_size := int32 alloc_len, status := 0 }

def spc_test_unit_ready : Handler := fun _ _ ld _ _ => return { ld, data_size := 0, status := 0 }

def sense_is_ok : List UInt8 :=
  [0x70, 0x00, 0x00, 0x00, 0x00, 0x00, 0x00, 0x12, 0x00, 0x00, 0x00, 0x00, 0x00, 0x00, 0x00, 0x00,
    0x00, 0x00, 0x00, 0x01, 0x02, 0x03, 0x04, 0x05, 0x06, 0x07]

def spc_request_sense : Handler := fun _ _ ld cdb data_size =>
  let desc := cdb.get 1 &&& 0x01
  let alloc_len := cdb.get 4
  if desc ≠ 0 then return { ld, data_size, status := 2 }
  else do
    store 0 sense_is_ok
    return { ld, data_size := alloc_len.toNat, status := 0 }

/-- Everything behind the header of the answer with all mode pages. -/
def modePages : List UInt8 :=
  -- block descriptor
  [0, 0, 0, 0, 0, 0, 0x02, 0] ++
  -- read write recovery
  [0x01, 0x0a, 0xe4, 0, 0, 0, 0, 0, 0, 0, 0, 0] ++
  -- disconnect reconnect
  [0x02, 0x0e, 0, 0, 0, 0, 0, 0, 0, 0, 0x08, 0, 0, 0, 0, 0] ++
  -- format device
  [0x03, 0x16, 0, 0x01, 0, 0, 0, 0, 0, 0, 0, 0x10, 0x02, 0, 0, 0x01, 0, 0, 0, 0, 0x40, 0, 0, 0] ++
  -- rigid disk geometry
  [0x04, 0x16, 0x02, 0, 0, 0x01, 0, 0, 0, 0, 0, 0, 0, 0, 0, 0, 0, 0, 0, 0, 0x11, 0x30, 0, 0] ++
  -- control
  [0x0a, 0x0a, 0, 0, 0, 0, 0, 0, 0xff, 0xff, 0, 0] ++
  -- protocol specific, of the lun and the port
  [0x18, 0x01, 0x05, 0x19, 0x01, 0x05]

def spc_mode_sense6 : Handler := fun _ _ ld cdb _ =>
  let dbd := cdb.get 1 >>> 3 &&& 0x01
  let pc := cdb.get 2 >>> 6 &&& 0x03
  let pcode := cdb.get 2 &&& 0x3f
  let numblocks := 1
  let pos := 4 + modePages.length
  if dbd = 0 ∧ pc = 0 ∧ pcode = 0x3f then do
    store 4 modePages
    store 0 [UInt8.ofNat (pos - 1), 0x00, 0x00, UInt8.ofNat (numblocks * 8)]
    return { ld, data_size := pos, status := 0 }
  else do
    clear 0 18
    return { ld, data_size := 18, status := 0 }

def spc_mode_sense10 : Handler := fun _ _ ld _ _ => return { ld, data_size := 0, status := 0 }

def spc_prevent_allow_media_removal : Handler := fun _ _ ld _ _ => return { ld, data_size := 0, status := 0 }

def spc_mode_select10 : Handler := fun _ _ ld _ _ => return { ld, data_size := 0, status := 0 }

def spc_persistent_reserve_out : Handler := fun _ _ ld cdb _ =>
  let sa := cdb.get 1 &&& 0x1f
  let alloc_len := beNat [cdb.get 5, cdb.get 6, cdb.get 7, cdb.get 8]
  if sa.toNat ≤ 0x03 then return { ld, data_size := int32 alloc_len, status := 0 }
  else illegalRequest ld

def spc_persistent_reserve_in : Handler := fun _ _ ld cdb _ => do
  let sa := cdb.get 1 &&& 0x1f
  let alloc_len := beNat [cdb.get 7, cdb.get 8]
  clear 0 alloc_len
  if sa.toNat ≤ 0x03 then return { ld, data_size := alloc_len, status := 0 }
  else illegalRequest ld

/-- A field of the inquiry data: blanks, and over them the start of a string. -/
def inquiryField (i width : Nat) (s : List Char) : Code Unit := do
  store i (List.replicate width 0x20)
  store i (chars (s.take width))

def spc_inquiry : Handler := fun _ _ ld cdb data_size => do
  let evpd := cdb.get 1
  let page_code := cdb.get 2
  let alloc_len := beNat [cdb.get 3, cdb.get 4]
  clear 0 alloc_len
  if evpd &&& 0x01 ≠ 0 then
    match page_code with
    | 0x00 =>
      store 0 [0x05, 0, 0, 1, 0]
      return { ld, data_size := alloc_len, status := 0 }
    | 0x83 =>
      store 0 [0x05, 0x83]
      return { ld, data_size := alloc_len, status := 0 }
    | _ => return { ld, data_size, status := 2 }
  else
    store 0 [ld.device_type, 0x00, 0x05, 0x02, 31, 0, 0x80, 0]
    inquiryField 8 8 ld.vendor
    inquiryField 16 16 ld.productid
    inquiryField 32 4 ld.revision
    return { ld, data_size := alloc_len, status := 0 }

end vscsi.scsi
