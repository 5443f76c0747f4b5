import Vscsi.Lib.Memory
import Vscsi.Lib.CInt

open lib

namespace vscsi

/-- A kernel pointer. -/
abbrev Addr := Nat

def SCSITAP_UHEADER_SIZE : Nat := 31
def SCSITAP_CANQUEUE : Nat := 8192
def MAX_COMMAND_SIZE : Nat := 16

/-- `SUCCESS` of the SCSI mid layer, which the driver also returns from ioctl. -/
def SUCCESS : Int := 0x2002
def SCSI_MLQUEUE_HOST_BUSY : Int := 0x1055
def EBADF : Int := 9
def EFAULT : Int := 14
def EINVAL : Int := 22
def DID_NO_CONNECT : UInt32 := 0x01
/-- The sense key `NOT_READY`. -/
def NOT_READY : UInt8 := 0x02

/-- `SCSITAP_CONNECTION_*`. -/
inductive Connection where
  | not_ready
  | ready
  deriving DecidableEq, Repr

/-- `SCSITAP_TASK_*`. -/
inductive TaskFlags where
  | empty
  | submitted
  | cmd_received
  | data_received
  | received
  | finished
  | aborted
  deriving DecidableEq, Repr

/-- `enum dma_data_direction`. -/
inductive DataDirection where
  | dma_bidirectional
  | dma_to_device
  | dma_from_device
  | dma_none
  deriving DecidableEq, Repr

/-- One segment of a scatter-gather buffer; `page_address` is what the function
of that name returns for its page, `none` standing for NULL. -/
structure Scatterlist where
  page_address : Option Addr
  offset : Nat
  length : Nat
  deriving DecidableEq, Repr

/-- `request_buffer` together with `use_sg`: a flat buffer when `use_sg` is
zero, otherwise a table of `use_sg` segments. -/
inductive RequestBuffer where
  | flat (address : Addr)
  | sg (table : List Scatterlist)
  deriving DecidableEq, Repr

/-- The fields of `struct scsi_cmnd` that the driver reads or writes. -/
structure ScsiCmnd where
  /-- `device->lun` -/
  lun : UInt32
  cmd_len : UInt8
  cmnd : Vector UInt8 16
  sc_data_direction : DataDirection
  request_bufflen : UInt32
  request_buffer : RequestBuffer
  result : UInt32
  resid : UInt32
  sense_buffer : Mem
  SCp_ptr : Option Addr

/-- What a command asks for, which the driver never changes. -/
structure Request where
  lun : UInt32
  cmd_len : UInt8
  cmnd : Vector UInt8 16
  sc_data_direction : DataDirection
  request_bufflen : UInt32
  request_buffer : RequestBuffer

def ScsiCmnd.request (c : ScsiCmnd) : Request :=
  ⟨c.lun, c.cmd_len, c.cmnd, c.sc_data_direction, c.request_bufflen, c.request_buffer⟩

/-- A command with all its fields cleared. -/
def ScsiCmnd.zero : ScsiCmnd where
  lun := 0
  cmd_len := 0
  cmnd := Vector.replicate 16 0
  sc_data_direction := .dma_none
  request_bufflen := 0
  request_buffer := .flat 0
  result := 0
  resid := 0
  sense_buffer := fun _ => 0
  SCp_ptr := none

/-- `struct scsitap_task`. The slot's `seq` is a ghost: the position of its
command among the accepted ones, which no code reads. -/
structure ScsitapTask where
  cmd_number : UInt32
  lun : UInt32
  flags : TaskFlags
  type : UInt8
  sc : Addr
  seq : Nat

/-- A slot as `scsitap_alloc_task` clears it. -/
def ScsitapTask.empty (seq : Nat) : ScsitapTask :=
  { cmd_number := 0, lun := 0, flags := .empty, type := 0, sc := 0, seq }

/-- `struct scsitap_session`. `scsitap_queue_lock` says whether the spinlock is
held between two calls, and `listed` whether the session is still on the list
of sessions. -/
structure ScsitapSession where
  listed : Bool
  dev_id : UInt32
  pid : UInt32
  flags : Connection
  Device_Open : UInt8
  scsitap_queue_lock : Bool
  cmd_numbers : UInt32
  next_cmdnumber : UInt32
  scsitap_queue : List Addr

end vscsi
