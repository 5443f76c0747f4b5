import Vscsi.Target.Header
import Vscsi.Kernel.ScatterGather
import Vscsi.Kernel.Service

open lib

namespace vscsi

open hba device api

/-- A request within the limits the host is registered with, on a buffer that
does not fault. -/
structure Request.Legal (r : Request) : Prop where
  cmd_len : r.cmd_len.toNat ≤ MAX_COMMAND_SIZE
  request_bufflen : r.request_bufflen.toNat ≤ 131072
  mapped : r.request_buffer.Mapped

namespace device

variable {k : Hba} {addr : Addr}

/-- A data read of a claimed task stores its header and its data. -/
theorem scsitap_ctl_read_data (hready : k.session.flags = .ready) {number : UInt32}
    (hfound : task_of_cmd k number = some addr) (hflags : (k.tasks addr).flags = .received)
    (hpositive : 0 < (k.cmnds (k.tasks addr).sc).request_bufflen.toNat)
    (hbounded : SCSITAP_UHEADER_SIZE + (k.cmnds (k.tasks addr).sc).request_bufflen.toNat < 2 ^ 32)
    (hmapped : (k.cmnds (k.tasks addr).sc).request_buffer.Mapped) (mem : Mem) :
    scsitap_ctl_read k number.toNat (.mapped mem)
        (SCSITAP_UHEADER_SIZE + (k.cmnds (k.tasks addr).sc).request_bufflen.toNat) =
      (31, .mapped (blit (blit mem 0 (header k addr 68)) 31
        ((k.cmnds (k.tasks addr).sc).request_buffer.contents k.mem
          (k.cmnds (k.tasks addr).sc).request_bufflen.toNat))) := by
  have hcount : SCSITAP_UHEADER_SIZE + (k.cmnds (k.tasks addr).sc).request_bufflen.toNat ≠
      SCSITAP_UHEADER_SIZE := by omega
  have hmore : SCSITAP_UHEADER_SIZE + (k.cmnds (k.tasks addr).sc).request_bufflen.toNat >
      SCSITAP_UHEADER_SIZE := by omega
  have hbufflen : (k.cmnds (k.tasks addr).sc).request_bufflen > 0 := by
    rw [gt_iff_lt, UInt32.lt_iff_toNat_lt]
    exact hpositive
  have hsize := (count_of_more hmore (k.cmnds (k.tasks addr).sc).request_bufflen).mpr ⟨rfl, hbounded⟩
  rw [scsitap_ctl_read, if_neg (not_not.mpr hready), if_neg hcount, if_pos hmore, UInt32.ofNat_toNat, hfound]
  simp only [hflags, ← hsize, scsitap_task_to_user_mapped]
  cases hbuffer : (k.cmnds (k.tasks addr).sc).request_buffer with
  | flat address => simp [hbufflen, RequestBuffer.contents]
  | sg table =>
    rw [hbuffer] at hmapped
    simp [hbufflen, RequestBuffer.contents, copy_to_user_sg_mapped hmapped]

/-- Any other data read returns zero or an error. -/
theorem scsitap_ctl_read_refused (hready : k.session.flags = .ready) (number : UInt32) {bufflen : Nat}
    (hpositive : 0 < bufflen) (user : UserMem)
    (hnone : ∀ addr, task_of_cmd k number = some addr → (k.tasks addr).flags = .received →
      (k.cmnds (k.tasks addr).sc).request_bufflen.toNat ≠ bufflen) :
    (scsitap_ctl_read k number.toNat user (SCSITAP_UHEADER_SIZE + bufflen)).1 ≤ 0 := by
  have hcount : SCSITAP_UHEADER_SIZE + bufflen ≠ SCSITAP_UHEADER_SIZE := by omega
  have hmore : SCSITAP_UHEADER_SIZE + bufflen > SCSITAP_UHEADER_SIZE := by omega
  rw [scsitap_ctl_read, if_neg (not_not.mpr hready), if_neg hcount, if_pos hmore, UInt32.ofNat_toNat]
  cases hfound : task_of_cmd k number with
  | none => exact Int.le_refl 0
  | some addr =>
    by_cases hflags : (k.tasks addr).flags = .received
    · have hne : SCSITAP_UHEADER_SIZE + bufflen ≠
          (UInt32.ofNat SCSITAP_UHEADER_SIZE + (k.cmnds (k.tasks addr).sc).request_bufflen).toNat := by
        intro heq
        have hsum := ((count_of_more hmore _).mp heq).1
        exact hnone addr hfound hflags (by omega)
      simp only [hflags, ne_eq, not_true_eq_false, if_false, if_pos hne]
      decide
    · simp [hflags]

/-- With the length of a header the read is a header read, whatever the number. -/
theorem scsitap_ctl_read_header (hready : k.session.flags = .ready) (f_pos : Nat) (mem : Mem) :
    scsitap_ctl_read k f_pos (.mapped mem) SCSITAP_UHEADER_SIZE =
      match offer k with
      | some addr => (31, .mapped (blit mem 0 (header k addr (k.tasks addr).type)))
      | none => (0, .mapped mem) := by
  rw [scsitap_ctl_read, if_neg (not_not.mpr hready), if_pos rfl]
  cases hoffer : offer k with
  | none =>
    rw [offer] at hoffer
    rw [hoffer]
  | some addr =>
    rw [offer] at hoffer
    rw [hoffer]
    exact scsitap_task_to_user_mapped k addr mem (k.tasks addr).type

/-- Without a fault the payload is taken: data goes to the buffer exactly when
the status is zero and there is more than the six bytes before it. -/
theorem receivePayload_mapped (k : Hba) (sc : Addr) (user : Mem) (count : Nat) (scsi_status : UInt8)
    (hmapped : (k.cmnds sc).request_buffer.Mapped) :
    (receivePayload k sc (.mapped user) count scsi_status).1 =
        some (if scsi_status >>> 7 = 0 then scsi_status else scsi_status &&& 0x1f) ∧
      (receivePayload k sc (.mapped user) count scsi_status).2.mem =
        if scsi_status = 0 ∧ 6 < count then
          (k.cmnds sc).request_buffer.fill k.mem (k.cmnds sc).request_bufflen.toNat user 6
        else k.mem := by
  unfold receivePayload
  by_cases hzero : scsi_status = 0
  · subst hzero
    by_cases hcount : 6 < count
    · cases hbuffer : (k.cmnds sc).request_buffer with
      | flat address => simp [hcount, RequestBuffer.fill]
      | sg table =>
        rw [hbuffer] at hmapped
        simp [hcount, RequestBuffer.fill, copy_from_user_sg_mapped hmapped]
    · simp [hcount]
  · by_cases hsense : scsi_status >>> 7 = 0
    · simp [hzero, hsense]
    · simp [hzero, hsense]

/-- What a completion does to a session, when nothing faults: the task with the
number is removed after its command got the status and the data. -/
theorem scsitap_ctl_write_completes (hready : k.session.flags = .ready) {user : Mem} (htype : user 0 = 68)
    (hfound : task_of_cmd k (unle32 (slice user 1 4)) = some addr)
    (hmapped : (k.cmnds (k.tasks addr).sc).request_buffer.Mapped) (count : Nat) :
    ∃ k₁, SamePointers k k₁ ∧
      k₁.mem = (if user 5 = 0 ∧ 6 < count then
        (k.cmnds (k.tasks addr).sc).request_buffer.fill k.mem
          (k.cmnds (k.tasks addr).sc).request_bufflen.toNat user 6
      else k.mem) ∧
      (k₁.cmnds (k.tasks addr).sc).result =
        (if user 5 >>> 7 = 0 then user 5 else user 5 &&& 0x1f).toUInt32 ∧
      scsitap_ctl_write k (.mapped user) count = (int32 count, scsitap_complete_task k₁ addr) := by
  obtain ⟨hstatus, hmem⟩ := receivePayload_mapped k (k.tasks addr).sc user count (user 5) hmapped
  have hpayload := receivePayload_samePointers k (k.tasks addr).sc (.mapped user) count (user 5)
  rcases hresult : receivePayload k (k.tasks addr).sc (.mapped user) count (user 5) with ⟨status, k₂⟩
  rw [hresult] at hstatus hmem hpayload
  obtain rfl := hstatus
  refine ⟨_, hpayload.modifyCmnd (k.tasks addr).sc (f := fun c => { c with
    result := (if user 5 >>> 7 = 0 then user 5 else user 5 &&& 0x1f).toUInt32 }) (fun _ => rfl) fun _ => rfl,
    hmem, by simp, ?_⟩
  rw [scsitap_ctl_write, if_neg (not_not.mpr hready)]
  simp only [get_user_mapped, htype, copy_from_user_mapped, slice_length, ne_eq, not_true_eq_false, if_true,
    if_false, hfound, hresult]

/-- A completion for a number without a task is dropped. -/
theorem scsitap_ctl_write_unknown (hready : k.session.flags = .ready) {user : Mem} (htype : user 0 = 68)
    (hnone : task_of_cmd k (unle32 (slice user 1 4)) = none) (count : Nat) :
    scsitap_ctl_write k (.mapped user) count = (int32 count, k) := by
  rw [scsitap_ctl_write, if_neg (not_not.mpr hready)]
  simp only [get_user_mapped, htype, copy_from_user_mapped, slice_length, ne_eq, not_true_eq_false, if_true,
    if_false, hnone]

end device

/-- The transfer length of a task is one the host is registered with. -/
def UserScsitapTask.Bounded (task : UserScsitapTask) : Prop :=
  0 ≤ task.request_bufflen ∧ task.request_bufflen ≤ 131072

namespace api

variable {k : Hba} {task : UserScsitapTask}

/-- The kernel has data for the task: a claimed task of the same length under
its number or, for a length of zero, any task whose header it can send. -/
def DataReady (k : Hba) (task : UserScsitapTask) : Prop :=
  if task.request_bufflen = 0 then ∃ addr, offer k = some addr
  else ∃ addr, task_of_cmd k task.cmd_number = some addr ∧ (k.tasks addr).flags = .received ∧
    ((k.cmnds (k.tasks addr).sc).request_bufflen.toNat : Int) = task.request_bufflen

/-- The count of a data read or a completion, for lengths that do not wrap. -/
theorem count_eq (hbounded : task.Bounded) (header : Nat) (hheader : header ≤ 31) :
    int32 (task.request_bufflen + header) = ((header + task.request_bufflen.toNat : Nat) : Int) ∧
      size_t (int32 (task.request_bufflen + header)) = header + task.request_bufflen.toNat := by
  obtain ⟨hlo, hhi⟩ := hbounded
  have hint : int32 (task.request_bufflen + header) = task.request_bufflen + header :=
    int32_of_range (by omega) (by omega)
  have hsize := size_t_of_range (x := task.request_bufflen + header) (by omega) (by omega)
  rw [hint]
  constructor <;> omega

/-- A data read finds its data, and with it 31 bytes of header, or fails. -/
theorem receive_scsi_data_fails_iff (hready : k.session.flags = .ready) (hdirection : task.direction = 79)
    (hbounded : task.Bounded)
    (hmapped : ∀ addr ∈ k.queue, (k.cmnds (k.tasks addr).sc).request_buffer.Mapped) :
    (receive_scsi_data k task).1 < 0 ↔ ¬ DataReady k task := by
  obtain ⟨-, hcount⟩ := count_eq hbounded SCSITAP_UHEADER_SIZE (by decide)
  have hresult : (receive_scsi_data k task).1 = if (scsitap_ctl_read k task.cmd_number.toNat
      (.mapped task.request_buffer) (SCSITAP_UHEADER_SIZE + task.request_bufflen.toNat)).1 ≠ SCSITAP_UHEADER_SIZE
      then -1 else 0 := by
    simp only [receive_scsi_data, hdirection, ne_eq, not_true_eq_false, if_false, hcount]
  have hiff : ∀ x : Int, (if x ≠ SCSITAP_UHEADER_SIZE then (-1 : Int) else 0) < 0 ↔ x ≠ SCSITAP_UHEADER_SIZE := by
    intro x
    split <;> simp_all
  rw [hresult, hiff, DataReady]
  by_cases hzero : task.request_bufflen = 0
  · rw [if_pos hzero, hzero, Int.toNat_zero, Nat.add_zero, scsitap_ctl_read_header hready]
    cases offer k with
    | none => simp [SCSITAP_UHEADER_SIZE]
    | some addr => simp [SCSITAP_UHEADER_SIZE]
  · rw [if_neg hzero]
    obtain ⟨hlo, hhi⟩ := hbounded
    have hpositive : 0 < task.request_bufflen.toNat := by omega
    constructor
    · rintro hread ⟨addr, hfound, hflags, hlen⟩
      have hlen' : (k.cmnds (k.tasks addr).sc).request_bufflen.toNat = task.request_bufflen.toNat := by omega
      rw [← hlen'] at hpositive hread
      have hfits : SCSITAP_UHEADER_SIZE + (k.cmnds (k.tasks addr).sc).request_bufflen.toNat < 2 ^ 32 := by
        rw [show SCSITAP_UHEADER_SIZE = 31 from rfl]
        omega
      rw [scsitap_ctl_read_data hready hfound hflags hpositive hfits (hmapped addr (task_of_cmd_some hfound).1)] at hread
      exact hread rfl
    · intro hnone hread
      have hrefused := scsitap_ctl_read_refused hready task.cmd_number hpositive
        (.mapped task.request_buffer) fun addr hfound hflags hlen => hnone ⟨addr, hfound, hflags, by omega⟩
      rw [hread] at hrefused
      exact absurd hrefused (by decide)

/-- The request buffer as a completion sends it. -/
def reply (task : UserScsitapTask) : Mem :=
  blit (blit (blit task.request_buffer 0 [68]) 1 (le32 task.cmd_number)) 5 [UInt8.ofInt task.status]

theorem reply_eq (task : UserScsitapTask) : reply task =
    blit task.request_buffer 0 ([68] ++ (le32 task.cmd_number ++ [UInt8.ofInt task.status])) := by
  rw [← blit_append, ← blit_append]
  rfl

theorem reply_type (task : UserScsitapTask) : reply task 0 = 68 := by
  rw [reply_eq]
  exact blit_add task.request_buffer 0 (i := 0) (by simp)

theorem reply_number (task : UserScsitapTask) : unle32 (slice (reply task) 1 4) = task.cmd_number := by
  have hslice := slice_blit_middle task.request_buffer 0 [68] (le32 task.cmd_number) [UInt8.ofInt task.status]
  rw [← reply_eq] at hslice
  rw [show slice (reply task) 1 4 = le32 task.cmd_number from hslice, unle32_le32]

theorem reply_status (task : UserScsitapTask) : reply task 5 = UInt8.ofInt task.status := by
  rw [reply_eq]
  exact blit_add task.request_buffer 0 (i := 5) (by simp)

/-- Behind its header of six bytes the reply is the buffer as it was. -/
theorem reply_data (task : UserScsitapTask) (count : Nat) :
    slice (reply task) 6 count = slice task.request_buffer 6 count := by
  rw [reply_eq]
  exact slice_blit_disjoint _ (.inr (by simp))

theorem complete_scsi_task_eq (hbounded : task.Bounded) :
    complete_scsi_task k task =
      ((if (scsitap_ctl_write k (.mapped (reply task)) (6 + task.request_bufflen.toNat)).1 ≠
          ((6 + task.request_bufflen.toNat : Nat) : Int) then -1 else 0),
        (scsitap_ctl_write k (.mapped (reply task)) (6 + task.request_bufflen.toNat)).2,
        { task with request_buffer := reply task }) := by
  obtain ⟨hint, hsize⟩ := count_eq hbounded 6 (by decide)
  have hint' : int32 (task.request_bufflen + 6) = ((6 + task.request_bufflen.toNat : Nat) : Int) := hint
  have hsize' : size_t (int32 (task.request_bufflen + 6)) = 6 + task.request_bufflen.toNat := hsize
  simp only [complete_scsi_task, hsize']
  simp only [hint', reply]
  rfl

/-- A completion succeeds whether or not it finds its task. -/
theorem complete_scsi_task_succeeds (hready : k.session.flags = .ready) (hbounded : task.Bounded)
    (hmapped : ∀ addr ∈ k.queue, (k.cmnds (k.tasks addr).sc).request_buffer.Mapped) :
    (complete_scsi_task k task).1 = 0 := by
  have hcount : int32 ((6 + task.request_bufflen.toNat : Nat) : Int) = ((6 + task.request_bufflen.toNat : Nat) : Int) := by
    obtain ⟨hlo, hhi⟩ := hbounded
    exact int32_of_range (by omega) (by omega)
  have hwrite : (scsitap_ctl_write k (.mapped (reply task)) (6 + task.request_bufflen.toNat)).1 =
      ((6 + task.request_bufflen.toNat : Nat) : Int) := by
    cases hfound : task_of_cmd k (unle32 (slice (reply task) 1 4)) with
    | none => rw [scsitap_ctl_write_unknown hready (reply_type task) hfound, hcount]
    | some addr =>
      obtain ⟨k₁, -, -, -, heq⟩ := scsitap_ctl_write_completes hready (reply_type task) hfound
        (hmapped addr (task_of_cmd_some hfound).1) (6 + task.request_bufflen.toNat)
      rw [heq, hcount]
  rw [complete_scsi_task_eq hbounded, hwrite]
  simp

end api

end vscsi
