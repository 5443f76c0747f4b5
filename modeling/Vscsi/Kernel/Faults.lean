import Vscsi.Kernel.Preserve
import Vscsi.Kernel.ScatterGather

open lib

namespace vscsi

open hba device

/-- Memory of a process in which some bytes fault. -/
def faulting (message : Mem) (faults : Nat → Bool) : UserMem := fun i => if faults i then none else some (message i)

/-- The status that the mid layer is told. -/
def reported (scsi_status : UInt8) : UInt8 := if scsi_status >>> 7 = 0 then scsi_status else scsi_status &&& 0x1f

namespace Hba

/-- The buffer of a command and the bytes in it. -/
def bufferSize (k : Hba) (sc : Addr) : Nat := (k.cmnds sc).request_buffer.size (k.cmnds sc).request_bufflen.toNat

/-- How many bytes a completion takes behind its type, number and status: the
data of a command without error, if there are any, or its sense data. -/
def payloadSize (k : Hba) (sc : Addr) (scsi_status : UInt8) (count : Nat) : Nat :=
  if scsi_status = 0 then if 6 < count then k.bufferSize sc else 0
  else if scsi_status >>> 7 = 0 then 0 else 14

/-- Nothing that counts has changed: no command has been answered, nor has the
mid layer been told anything. -/
structure Untouched (k k' : Hba) : Prop where
  queue : k'.queue = k.queue
  cmd_numbers : k'.session.cmd_numbers = k.session.cmd_numbers
  flags : ∀ task, (k'.tasks task).flags = (k.tasks task).flags
  result : ∀ sc, (k'.cmnds sc).result = (k.cmnds sc).result
  ptr : ∀ sc, (k'.cmnds sc).SCp_ptr = (k.cmnds sc).SCp_ptr
  history : k'.history = k.history

/-- One task has been removed and its command answered with a status, and no
other has changed. -/
structure OneCompleted (k : Hba) (task : Addr) (scsi_status : UInt8) (k' : Hba) : Prop extends
    Removed k task answer k' where
  result : (k'.cmnds (k.tasks task).sc).result = scsi_status.toUInt32
  others : ∀ sc ≠ (k.tasks task).sc, k'.cmnds sc = k.cmnds sc

/-- The completion of a task either fails on a fault and changes nothing that
counts, or meets no fault and completes the task. -/
def FaultSafe (k : Hba) (task : Addr) (message : Mem) (faults : Nat → Bool) (count : Nat) : Prop :=
  let write := scsitap_ctl_write k (faulting message faults) count
  let needed := 6 + k.payloadSize (k.tasks task).sc (message 5) count
  ((∃ i < needed, faults i = true) → write.1 < 0 ∧ Untouched k write.2) ∧
  ((∀ i < needed, faults i = false) → OneCompleted k task (reported (message 5)) write.2)

/-- A byte faults where the data of a command without error is. -/
def DataFaults (k : Hba) (sc : Addr) (faults : Nat → Bool) : Prop :=
  ∃ i, 6 ≤ i ∧ i < 6 + k.bufferSize sc ∧ faults i = true

/-- The byte of the type does not fault. The byte of the status may, as long as
a copy fails with it: of the number, or of the data that goes with the zero that
is taken for the status. And no data is asked for that has no place in the kernel. -/
def FaultsCaught (k : Hba) (task : Addr) (message : Mem) (faults : Nat → Bool) (count : Nat) : Prop :=
  let sc := (k.tasks task).sc
  faults 0 = false ∧
  ((∃ i, 1 ≤ i ∧ i < 5 ∧ faults i = true) ∨
    if faults 5 = true then 6 < count ∧ (¬ (k.cmnds sc).request_buffer.Mapped ∨ k.DataFaults sc faults)
    else message 5 = 0 → 6 < count → (k.cmnds sc).request_buffer.Mapped ∨ k.DataFaults sc faults)

end Hba

theorem accessible_faulting {message : Mem} {faults : Nat → Bool} {start count : Nat} :
    (faulting message faults).Accessible start count ↔ ∀ i, start ≤ i → i < start + count → faults i = false := by
  refine forall_congr' fun i => forall_congr' fun _ => forall_congr' fun _ => ?_
  cases hfault : faults i <;> simp [faulting, hfault]

theorem not_accessible_faulting {message : Mem} {faults : Nat → Bool} {start count : Nat} :
    ¬ (faulting message faults).Accessible start count ↔ ∃ i, start ≤ i ∧ i < start + count ∧ faults i = true := by
  rw [accessible_faulting]
  push Not
  simp

namespace device

variable {k k₂ : Hba} {sc task : Addr} {user : UserMem} {count : Nat} {scsi_status status : UInt8}

/-- The payload goes to the data buffers and the sense buffer, and nowhere else. -/
theorem receivePayload_snd (k : Hba) (sc : Addr) (user : UserMem) (count : Nat) (scsi_status : UInt8) :
    ∃ mem sense, (receivePayload k sc user count scsi_status).2 =
      ({ k with mem } : Hba).modifyCmnd sc fun c => { c with sense_buffer := sense } := by
  -- leaving the sense buffer alone is storing what is in it
  have hkeep : ∀ mem, ({ k with mem } : Hba) =
      ({ k with mem } : Hba).modifyCmnd sc fun c => { c with sense_buffer := (k.cmnds sc).sense_buffer } := by
    intro mem
    simp [Hba.modifyCmnd]
  unfold receivePayload
  split
  · split
    · split
      · dsimp only
        split
        · exact ⟨_, _, rfl⟩
        · exact ⟨_, _, hkeep _⟩
      · split
        · exact ⟨_, _, rfl⟩
        · exact ⟨_, _, hkeep _⟩
    · exact ⟨k.mem, _, rfl⟩
  · split
    · exact ⟨k.mem, _, rfl⟩
    · dsimp only
      split <;> exact ⟨k.mem, _, rfl⟩

/-- The bytes that a completion takes are there, and have their place. -/
def PayloadArrives (k : Hba) (sc : Addr) (user : UserMem) (count : Nat) (scsi_status : UInt8) : Prop :=
  if scsi_status = 0 then
    6 < count → (k.cmnds sc).request_buffer.Mapped ∧ user.Accessible 6 (k.bufferSize sc)
  else scsi_status >>> 7 ≠ 0 → user.Accessible 6 14

theorem payloadArrives_zero :
    PayloadArrives k sc user count 0 ↔ (6 < count → (k.cmnds sc).request_buffer.Mapped ∧ user.Accessible 6 (k.bufferSize sc)) := by
  rw [PayloadArrives, if_pos rfl]

/-- Unless data has no place, it is a fault that keeps a payload from arriving. -/
theorem payloadArrives_iff (hplace : scsi_status = 0 → 6 < count → (k.cmnds sc).request_buffer.Mapped) :
    PayloadArrives k sc user count scsi_status ↔ user.Accessible 6 (k.payloadSize sc scsi_status count) := by
  unfold PayloadArrives Hba.payloadSize
  by_cases hzero : scsi_status = 0
  · by_cases hcount : 6 < count
    · simp [hzero, hcount, hplace hzero hcount]
    · simp [hzero, hcount]
  · by_cases htop : scsi_status >>> 7 = 0
    · simp [hzero, htop]
    · simp [hzero, htop]

/-- The status is all that is left of a payload that arrives, and no other one
passes. -/
theorem receivePayload_fst (k : Hba) (sc : Addr) (user : UserMem) (count : Nat) (scsi_status : UInt8) :
    (PayloadArrives k sc user count scsi_status →
      (receivePayload k sc user count scsi_status).1 = some (reported scsi_status)) ∧
    (¬ PayloadArrives k sc user count scsi_status → (receivePayload k sc user count scsi_status).1 = none) := by
  unfold receivePayload PayloadArrives reported
  by_cases hzero : scsi_status = 0
  · subst hzero
    by_cases hcount : 6 < count
    · rw [Hba.bufferSize]
      cases (k.cmnds sc).request_buffer with
      | flat address =>
        have hlength := copy_from_user_length_iff user 6 (k.cmnds sc).request_bufflen.toNat
        by_cases hall : user.Accessible 6 (k.cmnds sc).request_bufflen.toNat
        · simp [hcount, RequestBuffer.Mapped, RequestBuffer.size, hall, hlength.mpr hall]
        · simp [hcount, RequestBuffer.Mapped, RequestBuffer.size, hall, mt hlength.mp hall]
      | sg table =>
        have hcopied := copy_from_user_sg_eq_zero k.mem user 6 table
        rcases hresult : copy_from_user_sg k.mem user 6 table with ⟨r, mem⟩
        rw [hresult] at hcopied
        simp only [hcount, RequestBuffer.Mapped, RequestBuffer.size, forall_const, if_true, hresult]
        cases r with
        | zero => exact ⟨fun _ => rfl, fun hnot => absurd (hcopied.mp rfl) hnot⟩
        | succ r => exact ⟨fun hall => absurd (hcopied.mpr hall) (Nat.succ_ne_zero r), fun _ => rfl⟩
    · simp [hcount]
  · have hlength := copy_from_user_length_iff user 6 14
    by_cases htop : scsi_status >>> 7 = 0
    · simp [hzero, htop]
    · by_cases hall : user.Accessible 6 14
      · simp [hzero, htop, hall, hlength.mpr hall]
      · simp [hzero, htop, hall, mt hlength.mp hall]

variable (hready : k.session.flags = .ready)

include hready

/-- What is no completion is ignored. -/
theorem scsitap_ctl_write_ignored (htype : get_user user 0 ≠ 68) : scsitap_ctl_write k user count = (0, k) := by
  rw [scsitap_ctl_write, if_neg (not_not.mpr hready), if_neg htype]

theorem scsitap_ctl_write_unnumbered (htype : get_user user 0 = 68) (hnumber : ¬ user.Accessible 1 4) :
    scsitap_ctl_write k user count = (-EFAULT, k) := by
  rw [scsitap_ctl_write, if_neg (not_not.mpr hready), if_pos htype]
  simp [mt (copy_from_user_length_iff user 1 4).mp hnumber]

variable (htype : get_user user 0 = 68) (hnumber : user.Accessible 1 4)
  (hfound : task_of_cmd k (unle32 (slice user.contents 1 4)) = some task)

include htype hnumber hfound

/-- From there on it depends on the payload. -/
theorem scsitap_ctl_write_payload : scsitap_ctl_write k user count =
    match receivePayload k (k.tasks task).sc user count (get_user user 5) with
    | (none, k) => (-EFAULT, k)
    | (some scsi_status, k') => (int32 count, scsitap_complete_task
        (k'.modifyCmnd (k.tasks task).sc fun c => { c with result := scsi_status.toUInt32 }) task) := by
  rw [scsitap_ctl_write, if_neg (not_not.mpr hready), if_pos htype, copy_from_user_accessible hnumber]
  cases hpayload : receivePayload k (k.tasks task).sc user count (get_user user 5) with
  | mk scsi_status k' =>
    cases scsi_status with
    | none => simp only [slice_length, ne_eq, not_true_eq_false, if_false, hfound, hpayload]
    | some scsi_status => simp only [slice_length, ne_eq, not_true_eq_false, if_false, hfound, hpayload]

/-- A payload that does not arrive leaves all as it was. -/
theorem scsitap_ctl_write_fails (hnot : ¬ PayloadArrives k (k.tasks task).sc user count (get_user user 5)) :
    (scsitap_ctl_write k user count).1 < 0 ∧ k.Untouched (scsitap_ctl_write k user count).2 := by
  have hnone := (receivePayload_fst k (k.tasks task).sc user count (get_user user 5)).2 hnot
  obtain ⟨mem, sense, hsnd⟩ := receivePayload_snd k (k.tasks task).sc user count (get_user user 5)
  rw [scsitap_ctl_write_payload hready htype hnumber hfound]
  rcases hresult : receivePayload k (k.tasks task).sc user count (get_user user 5) with ⟨status, k₂⟩
  rw [hresult] at hnone hsnd
  obtain rfl : status = none := hnone
  obtain rfl : k₂ = _ := hsnd
  refine ⟨show -EFAULT < 0 by decide, rfl, rfl, fun _ => rfl, fun sc => ?_, fun sc => ?_, rfl⟩ <;> by_cases hsc : sc = (k.tasks task).sc
  · subst hsc
    simp
  · simp [hsc]
  · subst hsc
    simp
  · simp [hsc]

/-- One that does completes the task. -/
theorem scsitap_ctl_write_answers (h : k.Valid) (harrives : PayloadArrives k (k.tasks task).sc user count (get_user user 5)) :
    k.OneCompleted task (reported (get_user user 5)) (scsitap_ctl_write k user count).2 := by
  have hsome := (receivePayload_fst k (k.tasks task).sc user count (get_user user 5)).1 harrives
  obtain ⟨mem, sense, hsnd⟩ := receivePayload_snd k (k.tasks task).sc user count (get_user user 5)
  have hpayload := receivePayload_samePointers k (k.tasks task).sc user count (get_user user 5)
  rw [scsitap_ctl_write_payload hready htype hnumber hfound]
  rcases hresult : receivePayload k (k.tasks task).sc user count (get_user user 5) with ⟨status, k₂⟩
  rw [hresult] at hsome hsnd hpayload
  obtain rfl : status = some (reported (get_user user 5)) := hsome
  have hsame : SamePointers k (k₂.modifyCmnd (k.tasks task).sc fun c =>
      { c with result := (reported (get_user user 5)).toUInt32 }) := by
    refine hpayload.modifyCmnd _ ?_ ?_
    · exact fun _ => rfl
    · exact fun _ => rfl
  have ht := (task_of_cmd_some hfound).1
  obtain ⟨s, hs⟩ := h.pending task ht
  have hflags : (k.tasks task).flags ≠ .aborted := by
    rcases h.live task ht with hsubmitted | hreceived
    · rw [hsubmitted]
      decide
    · rw [hreceived]
      decide
  have horigin := hs.origin
  rw [hs.sc] at horigin
  have hremoved := scsitap_complete_task_removed _ task (by rw [hsame.tasks]; exact hflags)
    (by rw [hsame.tasks, hsame.history]; exact horigin)
  refine ⟨removed_of_samePointers hsame hremoved, ?_, fun sc hsc => ?_⟩
  · simp only [scsitap_complete_task_cmnds, hsame.tasks, Function.update_self, Hba.modifyCmnd_cmnds]
  · simp only [scsitap_complete_task_cmnds, hsame.tasks, Function.update_of_ne hsc, Hba.modifyCmnd_cmnds]
    rw [show k₂ = _ from hsnd]
    simp [hsc]

end device

namespace Hba

variable {k k' : Hba} {task : Addr} {status : UInt8} {message : Mem} {faults : Nat → Bool} {count : Nat}

/-- A task that is gone is a change. -/
theorem OneCompleted.not_untouched (h : k.OneCompleted task status k') (hvalid : k.Valid) (ht : task ∈ k.queue) :
    ¬ k.Untouched k' := by
  intro huntouched
  have hqueue := h.queue.symm.trans huntouched.queue
  have hgone : task ∉ k.queue.erase task := hvalid.nodup.not_mem_erase
  rw [hqueue] at hgone
  exact hgone ht

/-- Faults are harmless exactly where they do not hide behind a value that the
call takes for a byte. -/
theorem fault_safe_iff (hreach : k.Reachable) (hready : k.session.flags = .ready) (htype : message 0 = 68)
    (hfound : task_of_cmd k (unle32 (slice message 1 4)) = some task) :
    k.FaultSafe task message faults count ↔ k.FaultsCaught task message faults count := by
  have hvalid := hreach.valid
  have ht := (task_of_cmd_some hfound).1
  have hbyte : ∀ i, get_user (faulting message faults) i = if faults i then 0 else message i := by
    intro i
    cases hfault : faults i <;> simp [get_user, faulting, hfault]
  unfold FaultSafe FaultsCaught
  simp only
  by_cases hzero : faults 0 = true
  · -- the type is taken for zero, and nothing happens
    have htype' : get_user (faulting message faults) 0 ≠ 68 := by
      rw [hbyte, if_pos hzero]
      decide
    have hwrite : scsitap_ctl_write k (faulting message faults) count = (0, k) :=
      scsitap_ctl_write_ignored hready htype'
    rw [hwrite]
    constructor
    · exact fun hsafe => absurd (hsafe.1 ⟨0, by omega, hzero⟩).1 (Int.lt_irrefl 0)
    · exact fun hcaught => absurd hcaught.1 (by simp [hzero])
  have htype' : get_user (faulting message faults) 0 = 68 := by rw [hbyte, if_neg hzero, htype]
  have hzero' : faults 0 = false := Bool.eq_false_iff.mpr hzero
  by_cases hnumber : (faulting message faults).Accessible 1 4
  · have hcontents : slice (faulting message faults).contents 1 4 = slice message 1 4 := by
      refine slice_congr fun i hlo hhi => ?_
      have hfault := accessible_faulting.mp hnumber i hlo hhi
      simp [UserMem.contents, faulting, hfault]
    have hnofault := mt not_accessible_faulting.mpr (not_not.mpr hnumber)
    rw [← hcontents] at hfound
    have hfails : ¬ PayloadArrives k (k.tasks task).sc (faulting message faults) count
        (get_user (faulting message faults) 5) → _ := scsitap_ctl_write_fails hready htype' hnumber hfound
    have hanswers : PayloadArrives k (k.tasks task).sc (faulting message faults) count
        (get_user (faulting message faults) 5) → _ := scsitap_ctl_write_answers hready htype' hnumber hfound hvalid
    have hdata : ¬ (faulting message faults).Accessible 6 (k.bufferSize (k.tasks task).sc) ↔
        k.DataFaults (k.tasks task).sc faults := not_accessible_faulting
    rw [hbyte] at hfails hanswers
    by_cases hstatus : faults 5 = true
    · -- the status is taken for zero
      rw [if_pos hstatus] at hfails hanswers
      rw [if_pos hstatus, ← hdata]
      constructor
      · intro hsafe
        have hnot := mt hanswers fun hone => hone.not_untouched hvalid ht (hsafe.1 ⟨5, by omega, hstatus⟩).2
        rw [payloadArrives_zero, Classical.not_imp, not_and_or] at hnot
        exact ⟨hzero', .inr hnot⟩
      · rintro ⟨-, hnumbered | hcaught⟩
        · exact absurd hnumbered hnofault
        · refine ⟨fun _ => hfails ?_, fun hnone => ?_⟩
          · rwa [payloadArrives_zero, Classical.not_imp, not_and_or]
          · rw [hnone 5 (by omega)] at hstatus
            cases hstatus
    · rw [if_neg hstatus] at hfails hanswers
      rw [if_neg hstatus, ← hdata]
      have hneeded : (∀ i < 6 + k.payloadSize (k.tasks task).sc (message 5) count, faults i = false) ↔
          (faulting message faults).Accessible 6 (k.payloadSize (k.tasks task).sc (message 5) count) := by
        rw [accessible_faulting]
        refine ⟨fun hnone i _ hhi => hnone i hhi, fun hpayload i hhi => ?_⟩
        by_cases hi : 6 ≤ i
        · exact hpayload i hi hhi
        · by_cases h5 : i = 5
          · exact h5 ▸ Bool.eq_false_iff.mpr hstatus
          · by_cases h0 : i = 0
            · exact h0 ▸ hzero'
            · exact accessible_faulting.mp hnumber i (by omega) (by omega)
      by_cases hplace : message 5 = 0 → 6 < count → (k.cmnds (k.tasks task).sc).request_buffer.Mapped
      · rw [payloadArrives_iff hplace] at hfails hanswers
        refine ⟨fun _ => ⟨hzero', .inr fun h5 hcount => .inl (hplace h5 hcount)⟩, fun _ => ⟨?_, ?_⟩⟩
        · rintro ⟨i, hi, hfault⟩
          refine hfails fun hall => ?_
          rw [hneeded.mpr hall i hi] at hfault
          cases hfault
        · exact fun hnone => hanswers (hneeded.mp hnone)
      · -- the data has no place, so that it had better fault
        obtain ⟨h5, hplace⟩ := Classical.not_imp.mp hplace
        obtain ⟨hcount, hunmapped⟩ := Classical.not_imp.mp hplace
        have hsize : k.payloadSize (k.tasks task).sc (message 5) count = k.bufferSize (k.tasks task).sc := by
          rw [Hba.payloadSize, if_pos h5, if_pos hcount]
        rw [h5, payloadArrives_zero] at hfails
        have huntouched := hfails fun harrives => hunmapped (harrives hcount).1
        rw [hsize] at hneeded ⊢
        constructor
        · intro hsafe
          refine ⟨hzero', .inr fun _ _ => .inr fun hall => ?_⟩
          exact (hsafe.2 (hneeded.mpr hall)).not_untouched hvalid ht huntouched.2
        · rintro ⟨-, hnumbered | hcaught⟩
          · exact absurd hnumbered hnofault
          · refine ⟨fun _ => huntouched, fun hnone => ?_⟩
            exact absurd (hneeded.mp hnone) ((hcaught h5 hcount).resolve_left hunmapped)
  · -- the number is missed
    rw [scsitap_ctl_write_unnumbered hready htype' hnumber]
    obtain ⟨i, hlo, hhi, hfault⟩ := not_accessible_faulting.mp hnumber
    refine ⟨fun _ => ⟨hzero', .inl ⟨i, hlo, hhi, hfault⟩⟩, fun _ => ⟨fun _ => ⟨show -EFAULT < 0 by decide, ?_⟩, ?_⟩⟩
    · exact ⟨rfl, rfl, fun _ => rfl, fun _ => rfl, fun _ => rfl, rfl⟩
    · intro hnone
      rw [hnone i (by omega)] at hfault
      cases hfault

/-- The completion of command 1 with CHECK CONDITION. -/
def checkCondition : Mem := fun i => [68, 1, 0, 0, 0, 2].getD i 0

/-- Without a fault it completes the command. With one in the number it fails, and the
command stays queued. -/
theorem fault_safe_number_faults :
    OneCompleted oneCommand 8 2 (scsitap_ctl_write oneCommand (faulting checkCondition fun _ => false) 6).2 ∧
      (scsitap_ctl_write oneCommand (faulting checkCondition (· = 2)) 6).1 < 0 ∧
      (scsitap_ctl_write oneCommand (faulting checkCondition (· = 2)) 6).2.queue = [8] := by
  have hreach : oneCommand.Reachable := ⟨_, fresh_initial, oneCommand_reachable⟩
  have hnone : oneCommand.FaultsCaught 8 checkCondition (fun _ => false) 6 :=
    ⟨rfl, .inr (by rw [if_neg (by decide)]; exact fun h => absurd h (by decide))⟩
  have hnumber : oneCommand.FaultsCaught 8 checkCondition (· = 2) 6 := ⟨rfl, .inl ⟨2, by decide, by decide, rfl⟩⟩
  have hcompleted := ((fault_safe_iff hreach rfl rfl rfl).mpr hnone).2 fun _ _ => rfl
  obtain ⟨hfails, huntouched⟩ := ((fault_safe_iff hreach rfl rfl rfl).mpr hnumber).1 ⟨2, by decide, rfl⟩
  exact ⟨hcompleted, hfails, huntouched.queue⟩

/-- A status that cannot be read is taken for success. -/
theorem fault_completes_with_success : oneCommand.Reachable ∧ oneCommand.session.flags = .ready ∧
    checkCondition 0 = 68 ∧ task_of_cmd oneCommand (unle32 (slice checkCondition 1 4)) = some 8 ∧
    (scsitap_ctl_write oneCommand (faulting checkCondition (· = 5)) 6).2.queue = [] ∧
    ((scsitap_ctl_write oneCommand (faulting checkCondition (· = 5)) 6).2.cmnds 0).result = 0 ∧
    ¬ oneCommand.FaultSafe 8 checkCondition (· = 5) 6 := by
  refine ⟨⟨_, fresh_initial, oneCommand_reachable⟩, rfl, rfl, rfl, rfl, rfl, fun hsafe => ?_⟩
  have hfails := (hsafe.1 ⟨5, by decide, rfl⟩).1
  exact absurd hfails (by decide)

end Hba

end vscsi
