import Vscsi.Kernel.Device

open lib

namespace vscsi

/-- `struct user_scsitap_task` without the file descriptor. -/
structure UserScsitapTask where
  cmd_number : UInt32
  type : UInt8
  direction : UInt8
  lun : UInt32
  cdblen : UInt8
  cdb : Vector UInt8 16
  request_bufflen : Int
  request_buffer : Mem
  status : Int

namespace api

open device

/-- Decodes a header. A `cdblen` over 16 makes the copy run over the fields that
follow `cdb`, for which there is no result. -/
def task_buffer_to_task (task_buffer : Mem) (task : UserScsitapTask) : Option UserScsitapTask :=
  let cdblen := task_buffer 10
  if cdblen.toNat ≤ 16 then
    some { task with
      type := task_buffer 0
      direction := task_buffer 1
      cmd_number := unle32 (slice task_buffer 2 4)
      lun := unle32 (slice task_buffer 6 4)
      cdblen
      cdb := .ofFn fun i => if i.val < cdblen.toNat then task_buffer (11 + i.val) else task.cdb.get i
      request_bufflen := int32 (unle32 (slice task_buffer 27 4)).toNat }
  else none

/-- The task as `register_scsi_host` leaves it: static storage and a cleared
request buffer. -/
def register_scsi_host : UserScsitapTask where
  cmd_number := 0
  type := 0
  direction := 0
  lun := 0
  cdblen := 0
  cdb := Vector.replicate 16 0
  request_bufflen := 0
  request_buffer := fun _ => 0
  status := 0

/-- How the read in `get_scsi_task` ends: with the function's result, with a
decoded header and the ioctl still to come, or with the overrun of `cdb`. -/
inductive HeaderRead where
  | returned (x : Int)
  | offered (task : UserScsitapTask)
  | overrun

/-- `get_scsi_task` up to its read; `f_pos` is the position of the file. -/
def get_scsi_task_header (k : Hba) (f_pos : Nat) (task : UserScsitapTask) : HeaderRead :=
  match scsitap_ctl_read k f_pos (.mapped fun _ => 0) SCSITAP_UHEADER_SIZE with
  | (x, task_buffer) =>
    if x ≠ SCSITAP_UHEADER_SIZE then
      if x = 0 then .returned 1 else .returned (-1)
    else
      match task_buffer_to_task task_buffer.contents task with
      | some task => .offered task
      | none => .overrun

/-- `get_scsi_task` from its ioctl on. -/
def get_scsi_task_claim (k : Hba) (task : UserScsitapTask) : Int × Hba :=
  match scsitap_ioctl_receive_task k task.cmd_number.toNat with
  | (x, k) => (if x < 0 then -1 else 0, k)

def complete_scsi_task (k : Hba) (task : UserScsitapTask) : Int × Hba × UserScsitapTask :=
  let request_buffer := blit task.request_buffer 0 [68]
  let request_buffer := blit request_buffer 1 (le32 task.cmd_number)
  let request_buffer := blit request_buffer 5 [UInt8.ofInt task.status]
  let count := int32 (task.request_bufflen + 6)
  match scsitap_ctl_write k (.mapped request_buffer) (size_t count) with
  | (x, k) => (if x ≠ count then -1 else 0, k, { task with request_buffer })

/-- Sets the file position and reads the data behind a header. -/
def receive_scsi_data (k : Hba) (task : UserScsitapTask) : Int × UserScsitapTask :=
  if task.direction ≠ 79 then (1, task)
  else
    let count := size_t (int32 (task.request_bufflen + SCSITAP_UHEADER_SIZE))
    match scsitap_ctl_read k task.cmd_number.toNat (.mapped task.request_buffer) count with
    | (x, user) =>
      (if x ≠ SCSITAP_UHEADER_SIZE then -1 else 0, { task with request_buffer := user.contents })

end api

end vscsi
