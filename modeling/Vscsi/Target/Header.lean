import Vscsi.Target.Api
import Vscsi.Kernel.Preserve

open lib

namespace vscsi

namespace device

/-- The bytes that describe a task. -/
def header (k : Hba) (task : Addr) (type : UInt8) : List UInt8 :=
  let t := k.tasks task
  let sc := k.cmnds t.sc
  [type] ++ ([directionChar sc.sc_data_direction] ++ (le32 t.cmd_number ++ (le32 t.lun ++
    ([sc.cmd_len] ++ (sc.cmnd.toList ++ le32 sc.request_bufflen)))))

@[simp] theorem header_length (k : Hba) (task : Addr) (type : UInt8) :
    (header k task type).length = 31 := by
  simp [header]

/-- Without faults the header is stored and its length returned. -/
theorem scsitap_task_to_user_mapped (k : Hba) (task : Addr) (mem : Mem) (type : UInt8) :
    scsitap_task_to_user k task (.mapped mem) type = (31, .mapped (blit mem 0 (header k task type))) := by
  have hcmnd : (k.cmnds (k.tasks task).sc).cmnd.toList.length = 16 := by simp
  simp only [scsitap_task_to_user, copyOrFault, put_user_mapped, copy_to_user_mapped, header,
    ← blit_append, le32_length, hcmnd, List.length_cons, List.length_nil, Nat.zero_add]

end device

namespace api

open hba device

/-- What a target makes of the header of a queued task. -/
def decoded (k : Hba) (addr : Addr) (type : UInt8) (task : UserScsitapTask) : UserScsitapTask :=
  let t := k.tasks addr
  let sc := k.cmnds t.sc
  { task with
    type
    direction := directionChar sc.sc_data_direction
    cmd_number := t.cmd_number
    lun := t.lun
    cdblen := sc.cmd_len
    cdb := .ofFn fun i => if i.val < sc.cmd_len.toNat then sc.cmnd.get i else task.cdb.get i
    request_bufflen := int32 sc.request_bufflen.toNat }

variable (k : Hba) (addr : Addr) (type : UInt8) (mem : Mem)

/-- Where each part of a stored header is found. -/
theorem header_slice (front middle back : List UInt8)
    (h : header k addr type = front ++ (middle ++ back)) :
    slice (blit mem 0 (header k addr type)) front.length middle.length = middle := by
  have hslice := slice_blit_middle mem 0 front middle back
  rwa [← h, Nat.zero_add] at hslice

theorem header_byte (front : List UInt8) {back : List UInt8} {byte : UInt8}
    (h : header k addr type = front ++ ([byte] ++ back)) :
    blit mem 0 (header k addr type) front.length = byte := by
  have hslice := header_slice k addr type mem _ _ _ h
  simpa [slice] using hslice

/-- Reading a header back gives the fields it was made of. -/
theorem task_buffer_to_task_header (task : UserScsitapTask)
    (hlen : (k.cmnds (k.tasks addr).sc).cmd_len.toNat ≤ 16) :
    task_buffer_to_task (blit mem 0 (header k addr type)) task = some (decoded k addr type task) := by
  have htype : blit mem 0 (header k addr type) 0 = type := header_byte k addr type mem [] rfl
  have hdirection : blit mem 0 (header k addr type) 1 = _ :=
    header_byte k addr type mem [type] rfl
  have hnumber : slice (blit mem 0 (header k addr type)) 2 4 = _ :=
    header_slice k addr type mem [type, _] (le32 _) _ rfl
  have hlun : slice (blit mem 0 (header k addr type)) 6 4 = _ :=
    header_slice k addr type mem [type, _, _, _, _, _] (le32 _) _ rfl
  have hcdblen : blit mem 0 (header k addr type) 10 = (k.cmnds (k.tasks addr).sc).cmd_len :=
    header_byte k addr type mem [type, _, _, _, _, _, _, _, _, _] rfl
  have hcmnd : slice (blit mem 0 (header k addr type)) 11 16 = (k.cmnds (k.tasks addr).sc).cmnd.toList := by
    have h := header_slice k addr type mem [type, _, _, _, _, _, _, _, _, _, _]
      (k.cmnds (k.tasks addr).sc).cmnd.toList _ rfl
    simpa using h
  have hbufflen : slice (blit mem 0 (header k addr type)) 27 4 =
      le32 (k.cmnds (k.tasks addr).sc).request_bufflen := by
    have hparts : header k addr type =
        ([type, directionChar (k.cmnds (k.tasks addr).sc).sc_data_direction] ++
          (le32 (k.tasks addr).cmd_number ++ (le32 (k.tasks addr).lun ++ ([(k.cmnds (k.tasks addr).sc).cmd_len] ++
            (k.cmnds (k.tasks addr).sc).cmnd.toList)))) ++
        (le32 (k.cmnds (k.tasks addr).sc).request_bufflen ++ []) := by
      simp [header]
    have h := header_slice k addr type mem _ _ _ hparts
    simpa using h
  have hcdb : ∀ i : Fin 16, blit mem 0 (header k addr type) (11 + i.val) =
      (k.cmnds (k.tasks addr).sc).cmnd.get i := by
    intro i
    have hget := slice_getElem? (blit mem 0 (header k addr type)) 11 i.isLt
    rw [hcmnd] at hget
    have hbyte : (k.cmnds (k.tasks addr).sc).cmnd[i.val] = blit mem 0 (header k addr type) (11 + i.val) := by
      simpa using hget
    exact hbyte.symm
  simp only [task_buffer_to_task, hcdblen, if_pos hlen, htype, hdirection, hnumber, hlun, hbufflen,
    unle32_le32, hcdb, decoded]

/-- A longer command runs over the fields behind the copy. -/
theorem task_buffer_to_task_overrun (task : UserScsitapTask)
    (hlen : 16 < (k.cmnds (k.tasks addr).sc).cmd_len.toNat) :
    task_buffer_to_task (blit mem 0 (header k addr type)) task = none := by
  have hcdblen : blit mem 0 (header k addr type) 10 = (k.cmnds (k.tasks addr).sc).cmd_len :=
    header_byte k addr type mem [type, _, _, _, _, _, _, _, _, _] rfl
  simp only [task_buffer_to_task, hcdblen, if_neg (not_le.mpr hlen)]

/-- The task that a header read offers. -/
def offer (k : Hba) : Option Addr :=
  k.session.scsitap_queue.find? fun task => (k.tasks task).flags = .submitted

theorem offer_some {k : Hba} {addr : Addr} (h : offer k = some addr) :
    addr ∈ k.queue ∧ (k.tasks addr).flags = .submitted := by
  have hfound := List.find?_some h
  exact ⟨List.mem_of_find?_eq_some h, by simpa using hfound⟩

theorem offer_eq_none {k : Hba} : offer k = none ↔ ∀ task ∈ k.queue, (k.tasks task).flags ≠ .submitted := by
  simp [offer]

/-- What the read in `get_scsi_task` finds, with no faults: the header of the
first task not yet claimed. -/
theorem get_scsi_task_header_eq (k : Hba) (f_pos : Nat) (task : UserScsitapTask) :
    get_scsi_task_header k f_pos task =
      if k.session.flags ≠ .ready then .returned (-1)
      else
        match offer k with
        | none => .returned 1
        | some addr =>
          if (k.cmnds (k.tasks addr).sc).cmd_len.toNat ≤ 16 then .offered (decoded k addr (k.tasks addr).type task)
          else .overrun := by
  unfold get_scsi_task_header scsitap_ctl_read
  by_cases hready : k.session.flags ≠ .ready
  · simp [hready, EINVAL, SCSITAP_UHEADER_SIZE]
  · rw [if_neg hready, if_neg hready, if_pos rfl]
    cases hoffer : offer k with
    | none =>
      rw [offer] at hoffer
      simp [hoffer, SCSITAP_UHEADER_SIZE]
    | some addr =>
      rw [offer] at hoffer
      by_cases hlen : (k.cmnds (k.tasks addr).sc).cmd_len.toNat ≤ 16
      · have hheader := task_buffer_to_task_header k addr (k.tasks addr).type (fun _ => 0) task hlen
        simp [hoffer, scsitap_task_to_user_mapped, hheader, hlen, SCSITAP_UHEADER_SIZE]
      · have hover := task_buffer_to_task_overrun k addr (k.tasks addr).type (fun _ => 0) task (not_le.mp hlen)
        simp [hoffer, scsitap_task_to_user_mapped, hover, hlen, SCSITAP_UHEADER_SIZE]

/-- Only a session that is ready offers a task, and then the first unclaimed one. -/
theorem get_scsi_task_header_offered {k : Hba} {f_pos : Nat} {task task' : UserScsitapTask}
    (h : get_scsi_task_header k f_pos task = .offered task') :
    k.session.flags = .ready ∧ ∃ addr, offer k = some addr ∧
      (k.cmnds (k.tasks addr).sc).cmd_len.toNat ≤ 16 ∧ task' = decoded k addr (k.tasks addr).type task := by
  rw [get_scsi_task_header_eq] at h
  split at h
  · cases h
  · rename_i hready
    refine ⟨not_not.mp hready, ?_⟩
    split at h
    · cases h
    · rename_i addr haddr
      split at h
      · rename_i hlen
        exact ⟨addr, haddr, hlen, (HeaderRead.offered.inj h).symm⟩
      · cases h

/-- The claim marks the task that has the number, and succeeds also when none has. -/
theorem get_scsi_task_claim_eq {k : Hba} (hready : k.session.flags = .ready) (task : UserScsitapTask) :
    get_scsi_task_claim k task =
      match task_of_cmd k task.cmd_number with
      | some addr => (0, k.setFlags addr .received)
      | none => (0, k) := by
  simp only [get_scsi_task_claim, scsitap_ioctl_receive_task, hready, ne_eq, not_true_eq_false, if_false,
    UInt32.ofNat_toNat]
  cases task_of_cmd k task.cmd_number with
  | none => rfl
  | some addr => rfl

theorem get_scsi_task_claim_snd (k : Hba) (task : UserScsitapTask) :
    (get_scsi_task_claim k task).2 = (scsitap_ioctl_receive_task k task.cmd_number.toNat).2 := rfl

/-- On a session that is ready the claim succeeds and leaves the session alone. -/
theorem get_scsi_task_claim_succeeds {k : Hba} (hready : k.session.flags = .ready) (task : UserScsitapTask) :
    (get_scsi_task_claim k task).1 = 0 ∧ (get_scsi_task_claim k task).2.session = k.session := by
  rw [get_scsi_task_claim_eq hready]
  cases task_of_cmd k task.cmd_number with
  | none => exact ⟨rfl, rfl⟩
  | some addr => exact ⟨rfl, rfl⟩

/-- A claim is no business of the mid layer. -/
theorem get_scsi_task_claim_history {k : Hba} (hready : k.session.flags = .ready) (task : UserScsitapTask) :
    (get_scsi_task_claim k task).2.history = k.history := by
  rw [get_scsi_task_claim_eq hready]
  split <;> rfl

/-- A session that is not ready fails the claim. -/
theorem get_scsi_task_claim_ready {k : Hba} {task : UserScsitapTask}
    (h : (get_scsi_task_claim k task).1 = 0) : k.session.flags = .ready := by
  by_contra hready
  simp [get_scsi_task_claim, scsitap_ioctl_receive_task, hready] at h

end api

end vscsi
