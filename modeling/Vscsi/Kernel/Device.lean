import Vscsi.Kernel.Hba
import Vscsi.Lib.Bytes
import Vscsi.Lib.UserCopy

open lib

namespace vscsi.device

open hba

/-- The direction letter of the header: 'O' for data out, 'I' for the rest. -/
def directionChar (direction : DataDirection) : UInt8 :=
  if direction = .dma_to_device then 79 else 73

/-- Copies bytes to user space and goes on, or gives up with `-EFAULT`. -/
def copyOrFault (user : UserMem) (i : Nat) (bytes : List UInt8)
    (next : UserMem → Int × UserMem) : Int × UserMem :=
  match copy_to_user user i bytes with
  | (0, user) => next user
  | (_, user) => (-EFAULT, user)

/-- The faults of `put_user` go unnoticed, those of the copies do not. -/
def scsitap_task_to_user (k : Hba) (task : Addr) (user : UserMem) (type : UInt8) : Int × UserMem :=
  let t := k.tasks task
  let sc := k.cmnds t.sc
  let user := put_user user 0 type
  let user := put_user user 1 (directionChar sc.sc_data_direction)
  copyOrFault user 2 (le32 t.cmd_number) fun user =>
  copyOrFault user 6 (le32 t.lun) fun user =>
  let user := put_user user 10 sc.cmd_len
  copyOrFault user 11 sc.cmnd.toList fun user =>
  copyOrFault user 27 (le32 sc.request_bufflen) fun user =>
  (31, user)

/-- Returns the number of bytes not copied in the segment that failed, 1 for an
unmapped page, 0 when all segments are copied. -/
def copy_to_user_sg (user : UserMem) (buffer : Nat) (mem : Mem) : List Scatterlist → Nat × UserMem
  | [] => (0, user)
  | sg :: rest =>
    match sg.page_address with
    | none => (1, user)
    | some kaddr =>
      match copy_to_user user buffer (slice mem (kaddr + sg.offset) sg.length) with
      | (0, user) => copy_to_user_sg user (buffer + sg.length) mem rest
      | (r, user) => (r, user)

def copy_from_user_sg (mem : Mem) (user : UserMem) (buffer : Nat) : List Scatterlist → Nat × Mem
  | [] => (0, mem)
  | sg :: rest =>
    match sg.page_address with
    | none => (1, mem)
    | some kaddr =>
      let bytes := copy_from_user user buffer sg.length
      let mem := blit mem (kaddr + sg.offset) bytes
      if bytes.length = sg.length then copy_from_user_sg mem user (buffer + sg.length) rest
      else (sg.length - bytes.length, mem)

/-- What the read system call does once it has passed the wait for a queued
task. `f_pos` is the file position, `user` the memory from the caller's buffer
on. -/
def scsitap_ctl_read (k : Hba) (f_pos : Nat) (user : UserMem) (count : Nat) : Int × UserMem :=
  if k.session.flags ≠ .ready then (-EINVAL, user)
  else if count = SCSITAP_UHEADER_SIZE then
    match k.session.scsitap_queue.find? fun task => (k.tasks task).flags = .submitted with
    | some task => scsitap_task_to_user k task user (k.tasks task).type
    | none => (0, user)
  else if count > SCSITAP_UHEADER_SIZE then
    match task_of_cmd k (UInt32.ofNat f_pos) with
    | none => (0, user)
    | some task =>
      let sc := k.cmnds (k.tasks task).sc
      if (k.tasks task).flags ≠ .received then (0, user)
      -- the sum is one of unsigned integers
      else if count ≠ (UInt32.ofNat SCSITAP_UHEADER_SIZE + sc.request_bufflen).toNat then (-EBADF, user)
      else
        match scsitap_task_to_user k task user 68 with
        | (ret, user) =>
          if ret < 0 then (ret, user)
          else if sc.request_bufflen > 0 then
            match sc.request_buffer with
            | .flat address =>
              match copy_to_user user ret.toNat (slice k.mem address sc.request_bufflen.toNat) with
              | (0, user) => (ret, user)
              | (_, user) => (-EFAULT, user)
            | .sg table =>
              match copy_to_user_sg user ret.toNat k.mem table with
              | (0, user) => (ret, user)
              | (_, user) => (-EFAULT, user)
          else (ret, user)
  else (-EINVAL, user)

/-- The length that a data read has to ask for does not wrap round to one that
is longer than a header. -/
theorem count_of_more {count : Nat} (hmore : SCSITAP_UHEADER_SIZE < count) (bufflen : UInt32) :
    count = (UInt32.ofNat SCSITAP_UHEADER_SIZE + bufflen).toNat ↔
      count = SCSITAP_UHEADER_SIZE + bufflen.toNat ∧ count < 2 ^ 32 := by
  have hheader : (UInt32.ofNat SCSITAP_UHEADER_SIZE).toNat = 31 := rfl
  have hsize : SCSITAP_UHEADER_SIZE = 31 := rfl
  have hbound := bufflen.toNat_lt
  rw [UInt32.toNat_add, hheader, hsize]
  omega

/-- The part of a completion that takes the caller's bytes: the data of a
command without error, or its sense. `none` is the exit with `-EFAULT`,
otherwise the result is the status to report. -/
def receivePayload (k : Hba) (sc : Addr) (user : UserMem) (count : Nat) (scsi_status : UInt8) :
    Option UInt8 × Hba :=
  let bufflen := (k.cmnds sc).request_bufflen.toNat
  if scsi_status = 0 then
    if count > 6 then
      match (k.cmnds sc).request_buffer with
      | .flat address =>
        let bytes := copy_from_user user 6 bufflen
        let k := { k with mem := blit k.mem address bytes }
        if bytes.length = bufflen then (some 0, k.modifyCmnd sc set_sensedata) else (none, k)
      | .sg table =>
        match copy_from_user_sg k.mem user 6 table with
        | (0, mem) => (some 0, { k with mem }.modifyCmnd sc set_sensedata)
        | (_, mem) => (none, { k with mem })
    else (some 0, k.modifyCmnd sc set_sensedata)
  else if scsi_status >>> 7 = 0 then (some scsi_status, k.modifyCmnd sc set_sensedata_illegal)
  else
    let bytes := copy_from_user user 6 14
    let k := k.modifyCmnd sc fun c => { c with sense_buffer := blit c.sense_buffer 0 bytes }
    if bytes.length = 14 then (some (scsi_status &&& 0x1f), k) else (none, k)

/-- The fault of either `get_user` goes unnoticed and leaves a zero. -/
def scsitap_ctl_write (k : Hba) (user : UserMem) (count : Nat) : Int × Hba :=
  if k.session.flags ≠ .ready then (-EINVAL, k)
  else if get_user user 0 = 68 then
    let bytes := copy_from_user user 1 4
    if bytes.length ≠ 4 then (-EFAULT, k)
    else
      match task_of_cmd k (unle32 bytes) with
      | none => (int32 count, k)
      | some task =>
        let sc := (k.tasks task).sc
        match receivePayload k sc user count (get_user user 5) with
        | (none, k) => (-EFAULT, k)
        | (some scsi_status, k) =>
          let k := k.modifyCmnd sc fun c => { c with result := scsi_status.toUInt32 }
          (int32 count, scsitap_complete_task k task)
  else (0, k)

/-- `SCSITAP_IOCTL_RECEIVE_TASK`. The branch for a session that is not ready
returns without releasing the queue lock. -/
def scsitap_ioctl_receive_task (k : Hba) (arg : Nat) : Int × Hba :=
  if k.session.flags ≠ .ready then
    (-1, { k with session := { k.session with scsitap_queue_lock := true } })
  else
    match task_of_cmd k (UInt32.ofNat arg) with
    | some task => (SUCCESS, k.setFlags task .received)
    | none => (0, k)

/-- `SCSITAP_IOCTL_REGISTER_CLIENT` on a session that exists. -/
def scsitap_ioctl_register_client (k : Hba) (arg : UInt32) : Int × Hba :=
  (SUCCESS, { k with session := { k.session with
    Device_Open := k.session.Device_Open + 1, pid := arg, flags := .ready } })

/-- `SCSITAP_IOCTL_UNREGISTER_CLIENT` on a session that exists. -/
def scsitap_ioctl_unregister_client (k : Hba) : Int × Hba :=
  match scsitap_destroy_session k with
  | (0, k) => (SUCCESS, k)
  | (_, k) => (-1, k)

/-- The close of a file registered with the session. -/
def scsitap_ctl_release (k : Hba) : Int × Hba :=
  let Device_Open := k.session.Device_Open - 1
  (0, { k with session := { k.session with
    Device_Open, flags := if Device_Open = 0 then .not_ready else k.session.flags } })

end vscsi.device
