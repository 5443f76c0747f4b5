import Mathlib.Data.List.TakeWhile
import Vscsi.Kernel.Faults
import Vscsi.Lib.UserAccess

open lib lib.Access

namespace vscsi

open hba

/-- The bytes that a copy to or from a buffer asks a process for, before it comes
to a page without an address. -/
def RequestBuffer.reach (bufflen : Nat) : RequestBuffer → Nat
  | .flat _ => bufflen
  | .sg table => total (table.takeWhile fun sg => sg.page_address.isSome)

/-! The calls on the device, with each access to the memory of the caller. -/

namespace access

def copyOrFault (i : Nat) (bytes : List UInt8) (next : Access Int) : Access Int := do
  let left ← copy_to_user i bytes
  if left = 0 then next else return -EFAULT

def scsitap_task_to_user (k : Hba) (task : Addr) (type : UInt8) : Access Int := do
  let t := k.tasks task
  let sc := k.cmnds t.sc
  put_user 0 type
  put_user 1 (device.directionChar sc.sc_data_direction)
  copyOrFault 2 (le32 t.cmd_number) <|
    copyOrFault 6 (le32 t.lun) do
      put_user 10 sc.cmd_len
      copyOrFault 11 sc.cmnd.toList <|
        copyOrFault 27 (le32 sc.request_bufflen) (return 31)

def copy_to_user_sg (buffer : Nat) (mem : Mem) : List Scatterlist → Access Nat
  | [] => return 0
  | sg :: rest =>
    match sg.page_address with
    | none => return 1
    | some kaddr => do
      let r ← copy_to_user buffer (slice mem (kaddr + sg.offset) sg.length)
      if r = 0 then copy_to_user_sg (buffer + sg.length) mem rest else return r

def copy_from_user_sg (mem : Mem) (buffer : Nat) : List Scatterlist → Access (Nat × Mem)
  | [] => return (0, mem)
  | sg :: rest =>
    match sg.page_address with
    | none => return (1, mem)
    | some kaddr => do
      let bytes ← copy_from_user buffer sg.length
      let mem := blit mem (kaddr + sg.offset) bytes
      if bytes.length = sg.length then copy_from_user_sg mem (buffer + sg.length) rest
      else return (sg.length - bytes.length, mem)

def scsitap_ctl_read (k : Hba) (f_pos : Nat) (count : Nat) : Access Int :=
  if k.session.flags ≠ .ready then return -EINVAL
  else if count = SCSITAP_UHEADER_SIZE then
    match k.session.scsitap_queue.find? fun task => (k.tasks task).flags = .submitted with
    | some task => scsitap_task_to_user k task (k.tasks task).type
    | none => return 0
  else if count > SCSITAP_UHEADER_SIZE then
    match task_of_cmd k (UInt32.ofNat f_pos) with
    | none => return 0
    | some task =>
      let sc := k.cmnds (k.tasks task).sc
      if (k.tasks task).flags ≠ .received then return 0
      else if count ≠ (UInt32.ofNat SCSITAP_UHEADER_SIZE + sc.request_bufflen).toNat then return -EBADF
      else do
        let ret ← scsitap_task_to_user k task 68
        if ret < 0 then return ret
        else if sc.request_bufflen > 0 then
          let left ← match sc.request_buffer with
            | .flat address => copy_to_user ret.toNat (slice k.mem address sc.request_bufflen.toNat)
            | .sg table => copy_to_user_sg ret.toNat k.mem table
          return if left = 0 then ret else -EFAULT
        else return ret
  else return -EINVAL

def receivePayload (k : Hba) (sc : Addr) (count : Nat) (scsi_status : UInt8) : Access (Option UInt8 × Hba) :=
  let bufflen := (k.cmnds sc).request_bufflen.toNat
  if scsi_status = 0 then
    if count > 6 then
      match (k.cmnds sc).request_buffer with
      | .flat address => do
        let bytes ← copy_from_user 6 bufflen
        let k := { k with mem := blit k.mem address bytes }
        if bytes.length = bufflen then return (some 0, k.modifyCmnd sc set_sensedata) else return (none, k)
      | .sg table => do
        let (r, mem) ← copy_from_user_sg k.mem 6 table
        if r = 0 then return (some 0, { k with mem }.modifyCmnd sc set_sensedata) else return (none, { k with mem })
    else return (some 0, k.modifyCmnd sc set_sensedata)
  else if scsi_status >>> 7 = 0 then return (some scsi_status, k.modifyCmnd sc set_sensedata_illegal)
  else do
    let bytes ← copy_from_user 6 14
    let k := k.modifyCmnd sc fun c => { c with sense_buffer := blit c.sense_buffer 0 bytes }
    if bytes.length = 14 then return (some (scsi_status &&& 0x1f), k) else return (none, k)

def scsitap_ctl_write (k : Hba) (count : Nat) : Access (Int × Hba) :=
  if k.session.flags ≠ .ready then return (-EINVAL, k)
  else do
    let type ← get_user 0
    if type = 68 then
      let bytes ← copy_from_user 1 4
      if bytes.length ≠ 4 then return (-EFAULT, k)
      else
        match task_of_cmd k (unle32 bytes) with
        | none => return (int32 count, k)
        | some task =>
          let sc := (k.tasks task).sc
          let scsi_status ← get_user 5
          match ← receivePayload k sc count scsi_status with
          | (none, k) => return (-EFAULT, k)
          | (some scsi_status, k) =>
            let k := k.modifyCmnd sc fun c => { c with result := scsi_status.toUInt32 }
            return (int32 count, scsitap_complete_task k task)
    else return (0, k)

variable {k : Hba} {user : UserMem} {count limit : Nat}

/-! Apart from that they are the calls. -/

theorem copyOrFault_run {next : Access Int} {next' : UserMem → Int × UserMem} (h : ∀ user, next.run user = next' user)
    (i : Nat) (bytes : List UInt8) (user : UserMem) :
    (copyOrFault i bytes next).run user = device.copyOrFault user i bytes next' := by
  rw [copyOrFault, run_bind, run_copy_to_user, device.copyOrFault]
  rcases lib.copy_to_user user i bytes with ⟨_ | left, user'⟩
  · exact h user'
  · rfl

theorem scsitap_task_to_user_run (k : Hba) (task : Addr) (type : UInt8) (user : UserMem) :
    (scsitap_task_to_user k task type).run user = device.scsitap_task_to_user k task user type := by
  have hlast : ∀ user, (return 31 : Access Int).run user = (31, user) := fun _ => rfl
  simp only [scsitap_task_to_user, device.scsitap_task_to_user, run_bind, run_put_user]
  apply copyOrFault_run
  intro user
  apply copyOrFault_run
  intro user
  simp only [run_bind, run_put_user]
  apply copyOrFault_run
  intro user
  exact copyOrFault_run hlast 27 _ user

theorem copy_to_user_sg_run (buffer : Nat) (mem : Mem) (table : List Scatterlist) (user : UserMem) :
    (copy_to_user_sg buffer mem table).run user = device.copy_to_user_sg user buffer mem table := by
  induction table generalizing buffer user with
  | nil => rfl
  | cons sg table ih =>
    rw [copy_to_user_sg, device.copy_to_user_sg]
    cases sg.page_address with
    | none => rfl
    | some kaddr =>
      simp only [run_bind, run_copy_to_user]
      rcases lib.copy_to_user user buffer (slice mem (kaddr + sg.offset) sg.length) with ⟨_ | r, user'⟩
      · exact ih _ _
      · rfl

theorem copy_from_user_sg_run (mem : Mem) (buffer : Nat) (table : List Scatterlist) (user : UserMem) :
    (copy_from_user_sg mem buffer table).run user = (device.copy_from_user_sg mem user buffer table, user) := by
  induction table generalizing mem buffer with
  | nil => rfl
  | cons sg table ih =>
    rw [copy_from_user_sg, device.copy_from_user_sg]
    cases sg.page_address with
    | none => rfl
    | some kaddr =>
      simp only [run_bind, run_copy_from_user]
      split
      · exact ih _ _
      · rfl

theorem scsitap_ctl_read_run (k : Hba) (f_pos count : Nat) (user : UserMem) :
    (scsitap_ctl_read k f_pos count).run user = device.scsitap_ctl_read k f_pos user count := by
  unfold scsitap_ctl_read device.scsitap_ctl_read
  split
  · rfl
  split
  · cases k.session.scsitap_queue.find? fun task => (k.tasks task).flags = .submitted with
    | none => rfl
    | some task => exact scsitap_task_to_user_run k task _ user
  split
  · cases task_of_cmd k (UInt32.ofNat f_pos) with
    | none => rfl
    | some task =>
      dsimp only
      split
      · rfl
      split
      · rfl
      rw [run_bind, scsitap_task_to_user_run]
      rcases device.scsitap_task_to_user k task user 68 with ⟨ret, user⟩
      dsimp only
      split
      · rfl
      split
      · cases (k.cmnds (k.tasks task).sc).request_buffer with
        | flat address =>
          simp only [run_bind, run_copy_to_user]
          rcases lib.copy_to_user user ret.toNat _ with ⟨_ | left, user⟩
          · rfl
          · rfl
        | sg table =>
          simp only [run_bind, copy_to_user_sg_run]
          rcases device.copy_to_user_sg user ret.toNat k.mem table with ⟨_ | left, user⟩
          · rfl
          · rfl
      · rfl
  · rfl

theorem receivePayload_run (k : Hba) (sc : Addr) (count : Nat) (scsi_status : UInt8) (user : UserMem) :
    (receivePayload k sc count scsi_status).run user =
      (device.receivePayload k sc user count scsi_status, user) := by
  unfold receivePayload device.receivePayload
  split
  · split
    · cases (k.cmnds sc).request_buffer with
      | flat address =>
        simp only [run_bind, run_copy_from_user]
        split
        · rfl
        · rfl
      | sg table =>
        simp only [run_bind, copy_from_user_sg_run]
        rcases device.copy_from_user_sg k.mem user 6 table with ⟨_ | r, mem⟩
        · rfl
        · rfl
    · rfl
  · split
    · rfl
    · simp only [run_bind, run_copy_from_user]
      split
      · rfl
      · rfl

theorem scsitap_ctl_write_run (k : Hba) (count : Nat) (user : UserMem) :
    (scsitap_ctl_write k count).run user = (device.scsitap_ctl_write k user count, user) := by
  unfold scsitap_ctl_write device.scsitap_ctl_write
  split
  · rfl
  rw [run_bind, run_get_user]
  dsimp only
  split
  · rw [run_bind, run_copy_from_user]
    dsimp only
    split
    · rfl
    cases task_of_cmd k (unle32 (lib.copy_from_user user 1 4)) with
    | none => rfl
    | some task =>
      dsimp only
      rw [run_bind, run_get_user, run_bind, receivePayload_run]
      rcases device.receivePayload k _ user count _ with ⟨_ | status, k₂⟩
      · rfl
      · rfl
  · rfl

/-! What a read stores to. -/

theorem copyOrFault_stays {i : Nat} {bytes : List UInt8} {next : Access Int} (h : i + bytes.length ≤ limit)
    (hnext : ∀ user, next.Stays limit user) (user : UserMem) : (copyOrFault i bytes next).Stays limit user := by
  rw [copyOrFault, stays_bind]
  refine ⟨stays_copy_to_user h user, ?_⟩
  split
  · exact hnext _
  · exact stays_pure _

theorem scsitap_task_to_user_stays (h : 31 ≤ limit) (k : Hba) (task : Addr) (type : UInt8) (user : UserMem) :
    (scsitap_task_to_user k task type).Stays limit user := by
  simp only [scsitap_task_to_user, stays_bind, stays_put_user]
  refine ⟨by omega, by omega, copyOrFault_stays ?_ (copyOrFault_stays ?_ fun user => ?_) _⟩
  · rw [le32_length]
    omega
  · rw [le32_length]
    omega
  · simp only [stays_bind, stays_put_user]
    refine ⟨by omega, copyOrFault_stays ?_ (copyOrFault_stays ?_ fun user => stays_pure 31) _⟩
    · rw [Vector.length_toList]
      omega
    · rw [le32_length]
      omega

theorem copy_to_user_sg_stays {buffer : Nat} {table : List Scatterlist} (h : buffer + total table ≤ limit) (mem : Mem)
    (user : UserMem) : (copy_to_user_sg buffer mem table).Stays limit user := by
  induction table generalizing buffer user with
  | nil => exact stays_pure 0
  | cons sg table ih =>
    rw [total_cons] at h
    rw [copy_to_user_sg]
    cases sg.page_address with
    | none => exact stays_pure 1
    | some kaddr =>
      rw [stays_bind]
      refine ⟨stays_copy_to_user (by rw [slice_length]; omega) user, ?_⟩
      split
      · exact ih (by omega) _
      · exact stays_pure _

end access

namespace device

theorem copyOrFault_result {next : UserMem → Int × UserMem} (h : ∀ user, (next user).1 = -EFAULT ∨ (next user).1 = 31)
    (user : UserMem) (i : Nat) (bytes : List UInt8) :
    (copyOrFault user i bytes next).1 = -EFAULT ∨ (copyOrFault user i bytes next).1 = 31 := by
  unfold copyOrFault
  split
  · exact h _
  · exact .inl rfl

/-- A header fails or is stored to its end. -/
theorem scsitap_task_to_user_result (k : Hba) (task : Addr) (user : UserMem) (type : UInt8) :
    (scsitap_task_to_user k task user type).1 = -EFAULT ∨ (scsitap_task_to_user k task user type).1 = 31 := by
  unfold scsitap_task_to_user
  refine copyOrFault_result (fun user => copyOrFault_result (fun user => ?_) user 6 _) _ 2 _
  exact copyOrFault_result (fun user => copyOrFault_result (fun user => .inr rfl) user 27 _) _ 11 _

end device

namespace Hba

/-- The buffer of each queued task is as long as its command says. -/
def Segmented (k : Hba) : Prop :=
  ∀ task ∈ k.queue, k.bufferSize (k.tasks task).sc = (k.cmnds (k.tasks task).sc).request_bufflen.toNat

end Hba

namespace access

variable {k : Hba} {user : UserMem} {count limit : Nat}

/-- A read stores only to the bytes it is called with. -/
theorem scsitap_ctl_read_stays (hsegmented : k.Segmented) (f_pos count : Nat) (user : UserMem) :
    (scsitap_ctl_read k f_pos count).Stays count user := by
  unfold scsitap_ctl_read
  split
  · exact stays_pure _
  split
  · rename_i hheader
    cases k.session.scsitap_queue.find? fun task => (k.tasks task).flags = .submitted with
    | none => exact stays_pure _
    | some task => exact scsitap_task_to_user_stays (Nat.le_of_eq hheader.symm) k task _ user
  split
  · rename_i hmore
    cases hfound : task_of_cmd k (UInt32.ofNat f_pos) with
    | none => exact stays_pure _
    | some task =>
      dsimp only
      split
      · exact stays_pure _
      split
      · exact stays_pure _
      rename_i hcount
      have hsize := hsegmented task (task_of_cmd_some hfound).1
      have hroom : 31 + (k.cmnds (k.tasks task).sc).request_bufflen.toNat ≤ count := by
        have hsum := ((device.count_of_more hmore _).mp (not_not.mp hcount)).1
        rw [hsum]
        exact Nat.le_refl _
      rw [stays_bind, scsitap_task_to_user_run]
      refine ⟨scsitap_task_to_user_stays (Nat.le_of_lt hmore) k task 68 user, ?_⟩
      have hresult := device.scsitap_task_to_user_result k task user 68
      split
      · exact stays_pure _
      rename_i hnonneg
      rw [hresult.resolve_left fun hfault => hnonneg (by rw [hfault]; decide)]
      split
      · rw [Hba.bufferSize] at hsize
        cases hbuffer : (k.cmnds (k.tasks task).sc).request_buffer with
        | flat address =>
          rw [stays_bind]
          exact ⟨stays_copy_to_user (by rw [slice_length]; exact hroom) _, stays_pure _⟩
        | sg table =>
          rw [hbuffer] at hsize
          rw [stays_bind]
          exact ⟨copy_to_user_sg_stays (by rw [show total table = _ from hsize]; exact hroom) k.mem _, stays_pure _⟩
      · exact stays_pure _
  · exact stays_pure _

/-! What a write loads from. -/

theorem copy_from_user_sg_stays (mem : Mem) (buffer : Nat) (table : List Scatterlist) (user : UserMem) :
    (copy_from_user_sg mem buffer table).Stays limit user ↔
      Before user buffer ((RequestBuffer.sg table).reach 0) limit := by
  induction table generalizing mem buffer with
  | nil => exact iff_of_true (stays_pure _) before_zero
  | cons sg table ih =>
    rw [copy_from_user_sg, RequestBuffer.reach]
    cases hpage : sg.page_address with
    | none =>
      rw [List.takeWhile_cons_of_neg (by simp [hpage])]
      exact iff_of_true (stays_pure _) before_zero
    | some kaddr =>
      rw [List.takeWhile_cons_of_pos (by simp [hpage]), total_cons, before_add, stays_bind, stays_copy_from_user,
        run_copy_from_user]
      refine and_congr_right fun _ => ?_
      rw [← copy_from_user_length_iff]
      by_cases hall : (lib.copy_from_user user buffer sg.length).length = sg.length
      · rw [if_pos hall, ih]
        exact (imp_iff_right hall).symm
      · rw [if_neg hall]
        exact iff_of_true (stays_pure _) fun h => absurd h hall

/-- The bytes of a completion that it takes the data or the sense of a command
from, or gives up. -/
def payloadReach (k : Hba) (sc : Addr) (count : Nat) (scsi_status : UInt8) : Nat :=
  if scsi_status = 0 then
    if 6 < count then (k.cmnds sc).request_buffer.reach (k.cmnds sc).request_bufflen.toNat else 0
  else if scsi_status >>> 7 = 0 then 0 else 14

theorem receivePayload_stays (k : Hba) (sc : Addr) (count : Nat) (scsi_status : UInt8) (user : UserMem) :
    (receivePayload k sc count scsi_status).Stays limit user ↔
      Before user 6 (payloadReach k sc count scsi_status) limit := by
  unfold receivePayload payloadReach
  split
  · split
    · cases (k.cmnds sc).request_buffer with
      | flat address =>
        rw [stays_bind, stays_copy_from_user]
        refine and_iff_left ?_
        dsimp only
        split
        · exact stays_pure _
        · exact stays_pure _
      | sg table =>
        rw [stays_bind, copy_from_user_sg_stays]
        refine and_iff_left ?_
        dsimp only
        split
        · exact stays_pure _
        · exact stays_pure _
    · exact iff_of_true (stays_pure _) before_zero
  · split
    · exact iff_of_true (stays_pure _) before_zero
    · rw [stays_bind, stays_copy_from_user]
      refine and_iff_left ?_
      dsimp only
      split
      · exact stays_pure _
      · exact stays_pure _

end access

namespace Hba

variable {k : Hba} {sc : Addr} {user : UserMem} {count f_pos : Nat} {scsi_status : UInt8}

/-- A call with a number of bytes keeps to them, and a completion that lacks some
fails and completes nothing. -/
structure RespectsCount (k : Hba) (f_pos : Nat) (user : UserMem) (count : Nat) : Prop where
  read : (access.scsitap_ctl_read k f_pos count).Stays count user
  write : (access.scsitap_ctl_write k count).Stays count user
  short : k.session.flags = .ready → get_user user 0 = 68 → user.Accessible 1 4 →
    ∀ task, task_of_cmd k (unle32 (slice user.contents 1 4)) = some task →
    count < 6 + k.payloadSize (k.tasks task).sc (get_user user 5) count →
    ((access.scsitap_ctl_write k count).run user).1.1 < 0 ∧ k.Untouched ((access.scsitap_ctl_write k count).run user).1.2

/-- A write to a session that is ready has a type, a completion all of its number
or a fault in it, and one of a queued task a status and what it takes behind it. -/
def LongEnough (k : Hba) (user : UserMem) (count : Nat) : Prop :=
  k.session.flags = .ready → 0 < count ∧ (get_user user 0 = 68 → Before user 1 4 count ∧ (user.Accessible 1 4 →
    ∀ task, task_of_cmd k (unle32 (slice user.contents 1 4)) = some task →
      5 < count ∧ Before user 6 (access.payloadReach k (k.tasks task).sc count (get_user user 5)) count))

/-- Where that is so a write keeps to its bytes. -/
theorem scsitap_ctl_write_stays (k : Hba) (count : Nat) (user : UserMem) :
    (access.scsitap_ctl_write k count).Stays count user ↔ k.LongEnough user count := by
  unfold access.scsitap_ctl_write LongEnough
  by_cases hready : k.session.flags = .ready
  swap
  · rw [if_pos hready]
    exact iff_of_true (stays_pure _) fun h => absurd h hready
  rw [if_neg (not_not.mpr hready), stays_bind, stays_get_user, run_get_user, imp_iff_right hready]
  refine and_congr_right fun _ => ?_
  by_cases htype : get_user user 0 = 68
  swap
  · rw [if_neg htype]
    exact iff_of_true (stays_pure _) fun h => absurd h htype
  rw [if_pos htype, stays_bind, stays_copy_from_user, run_copy_from_user, imp_iff_right htype]
  refine and_congr_right fun _ => ?_
  dsimp only
  by_cases hnumber : user.Accessible 1 4
  swap
  · rw [if_pos (mt (copy_from_user_length_iff user 1 4).mp hnumber)]
    exact iff_of_true (stays_pure _) fun h => absurd h hnumber
  rw [copy_from_user_accessible hnumber, slice_length, if_neg (not_not.mpr rfl), imp_iff_right hnumber]
  cases hfound : task_of_cmd k (unle32 (slice user.contents 1 4)) with
  | none => exact iff_of_true (stays_pure _) nofun
  | some task =>
    dsimp only
    rw [stays_bind, stays_get_user, run_get_user, stays_bind, access.receivePayload_stays]
    constructor
    · rintro ⟨hstatus, hpayload, -⟩ _ ⟨⟩
      exact ⟨hstatus, hpayload⟩
    · intro hall
      obtain ⟨hstatus, hpayload⟩ := hall task rfl
      refine ⟨hstatus, hpayload, ?_⟩
      rcases (access.receivePayload k _ count _).run user with ⟨⟨_ | status, k₂⟩, user₂⟩
      · exact stays_pure _
      · exact stays_pure _

/-- A payload that is longer than the bytes of the call and yet taken from them
does not arrive. -/
theorem payload_misses (hbefore : Before user 6 (access.payloadReach k sc count scsi_status) count)
    (hshort : count < 6 + k.payloadSize sc scsi_status count) (hcount : 5 < count) :
    ¬ device.PayloadArrives k sc user count scsi_status := by
  intro harrives
  have hplace : scsi_status = 0 → 6 < count → (k.cmnds sc).request_buffer.Mapped := by
    rintro rfl hmore
    exact (device.payloadArrives_zero.mp harrives hmore).1
  have hreach : access.payloadReach k sc count scsi_status = k.payloadSize sc scsi_status count := by
    unfold access.payloadReach payloadSize
    by_cases hzero : scsi_status = 0
    · by_cases hmore : 6 < count
      · have hmapped := hplace hzero hmore
        rw [if_pos hzero, if_pos hzero, if_pos hmore, if_pos hmore, bufferSize]
        cases hbuffer : (k.cmnds sc).request_buffer with
        | flat address => rfl
        | sg table =>
          rw [hbuffer] at hmapped
          rw [RequestBuffer.reach, List.takeWhile_eq_self_iff.mpr hmapped]
          rfl
      · rw [if_neg hmore, if_neg hmore]
    · rw [if_neg hzero, if_neg hzero]
  have hall := (device.payloadArrives_iff hplace).mp harrives
  rw [hreach, before_accessible hall] at hbefore
  omega

/-- The calls respect the caller's count exactly where a write is long enough. -/
theorem respects_count_iff (hsegmented : k.Segmented) : k.RespectsCount f_pos user count ↔ k.LongEnough user count := by
  rw [← scsitap_ctl_write_stays]
  constructor
  · exact fun h => h.write
  · intro hstays
    refine ⟨access.scsitap_ctl_read_stays hsegmented f_pos count user, hstays, ?_⟩
    intro hready htype hnumber task hfound hshort
    obtain ⟨-, hcompletion⟩ := (scsitap_ctl_write_stays k count user).mp hstays hready
    obtain ⟨hcount, hbefore⟩ := (hcompletion htype).2 hnumber task hfound
    rw [access.scsitap_ctl_write_run]
    exact device.scsitap_ctl_write_fails hready htype hnumber hfound (payload_misses hbefore hshort hcount)

/-- A session in cleared memory, but for inbound commands of 512 bytes that are on
their way to it. -/
def inbound : Hba :=
  scsitap_create_session 0 (fun _ => .empty 0)
    (fun _ => { ScsiCmnd.zero with sc_data_direction := .dma_from_device, request_bufflen := 512 }) fun _ => 0

/-- A target registers. -/
def inboundReady : Hba := inbound.apply (.register_client 1)

/-- One of the commands is queued. -/
def inboundQueued : Hba := inboundReady.apply (.queuecommand 0 (some 8))

theorem inboundQueued_reachable : inboundQueued.Reachable := by
  have hregister : Step inbound (.register_client 1) inboundReady := ⟨rfl, nofun, trivial, rfl⟩
  have hqueue : Step inboundReady (.queuecommand 0 (some 8)) inboundQueued :=
    ⟨rfl, fun _ => rfl, ⟨nofun, nofun⟩, rfl⟩
  exact ⟨_, ⟨0, _, _, _, fun _ => rfl, rfl⟩, (lib.Reachable.refl.tail hregister).tail hqueue⟩

theorem inboundQueued_segmented : inboundQueued.Segmented := by
  intro task ht
  obtain rfl : task = 8 := List.mem_singleton.mp ht
  rfl

/-- The completion of command 1 with GOOD, and zeros behind it. -/
def good : Mem := fun i => [68, 1, 0, 0, 0, 0].getD i 0

theorem respects_count_whole_block : inboundQueued.RespectsCount 1 (.mapped good) 518 := by
  refine (respects_count_iff inboundQueued_segmented).mpr fun _ => ⟨by decide, fun _ => ⟨.inr (.inl (by decide)), ?_⟩⟩
  rintro - task ⟨⟩
  exact ⟨by decide, .inr (.inl (by decide))⟩

/-- Seven bytes complete a command that takes 512, with bytes that nobody supplied. -/
theorem seven_bytes_complete : inboundQueued.Reachable ∧ inboundQueued.Segmented ∧
    inboundQueued.OneCompleted 8 0 ((access.scsitap_ctl_write inboundQueued 7).run (.mapped good)).1.2 ∧
    ¬ (access.scsitap_ctl_write inboundQueued 7).Stays 7 (.mapped good) ∧
    ¬ inboundQueued.RespectsCount 1 (.mapped good) 7 := by
  have hlong : ¬ inboundQueued.LongEnough (.mapped good) 7 := by
    intro h
    obtain ⟨-, hcompletion⟩ := h rfl
    obtain ⟨-, hbefore⟩ := (hcompletion rfl).2 (UserMem.mapped_accessible good 1 4) 8 rfl
    have hend := (before_accessible (UserMem.mapped_accessible good 6 512)).mp hbefore
    omega
  have hleaves : ¬ (access.scsitap_ctl_write inboundQueued 7).Stays 7 (.mapped good) :=
    mt (scsitap_ctl_write_stays inboundQueued 7 _).mp hlong
  refine ⟨inboundQueued_reachable, inboundQueued_segmented, ?_, hleaves, fun hrespects => hleaves hrespects.write⟩
  have hfound : task_of_cmd inboundQueued (unle32 (slice (UserMem.mapped good).contents 1 4)) = some 8 := rfl
  have hstatus : get_user (UserMem.mapped good) 5 = 0 := rfl
  have harrives : device.PayloadArrives inboundQueued (inboundQueued.tasks 8).sc (.mapped good) 7
      (get_user (.mapped good) 5) := by
    rw [hstatus]
    exact device.payloadArrives_zero.mpr fun _ => ⟨trivial, UserMem.mapped_accessible good 6 _⟩
  have hanswers := device.scsitap_ctl_write_answers rfl rfl (UserMem.mapped_accessible good 1 4) hfound
    inboundQueued_reachable.valid harrives
  rw [hstatus] at hanswers
  rw [access.scsitap_ctl_write_run]
  exact hanswers

end Hba

end vscsi
