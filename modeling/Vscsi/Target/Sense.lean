import Vscsi.Target.Exchange
import Vscsi.Target.MainLoop
import Vscsi.Scsi.Capacity

open lib

namespace vscsi

open hba device api scsi scsi_target

/-- A handler has placed the sense data of an illegal request, behind the two
bytes of its length. -/
def SensePlaced (data : Mem) : Prop := data 2 = 0x70 ∧ data 4 &&& 0x0f = 5 ∧ data 14 = 0x24

/-- A completed command has the status and the sense data of an illegal request. -/
def SenseReaches (sc : ScsiCmnd) : Prop :=
  sc.result = 2 ∧ sc.sense_buffer 2 &&& 0x0f = 5 ∧ sc.sense_buffer 12 = 0x24

/-- A handler has refused the command of a queued task, and placed its sense data. -/
structure Refused (k : Hba) (addr : Addr) (task : UserScsitapTask) (data : Mem) : Prop where
  ready : k.session.flags = .ready
  queued : task_of_cmd k task.cmd_number = some addr
  direction : task.direction = 73 ∨ task.direction = 79
  handled : ∃ fuel td td' m m', m.state.data = task.invocation.data ∧
    (run_scsi_command fuel td task.invocation.lun task.invocation.cdb task.invocation.data_size).exec libc m =
      .ok ((2, td'), m') ∧ m'.state.data = data
  placed : SensePlaced data

/-- The session after the completion of a refused command. -/
def completedRefusal (k : Hba) (task : UserScsitapTask) (data : Mem) : Hba :=
  (complete_scsi_task k (task.finished 2 data)).2.1

/-- The macro places its sense data. -/
theorem illegal_request_placed (data : Mem) : SensePlaced (blit data 0 illegal_request) := by
  have hbyte : ∀ i (hi : i < illegal_request.length), blit data 0 illegal_request i = illegal_request[i] := by
    intro i hi
    have hadd := blit_add data 0 hi
    rwa [Nat.zero_add] at hadd
  exact ⟨hbyte 2 (by decide), by rw [hbyte 4 (by decide)]; decide, hbyte 14 (by decide)⟩

namespace device

/-- For a status without the top bit the session makes up its own sense data. -/
theorem scsitap_ctl_write_sense {k : Hba} {addr : Addr} (hready : k.session.flags = .ready) {user : Mem}
    (htype : user 0 = 68) (hfound : task_of_cmd k (unle32 (slice user 1 4)) = some addr)
    (hnonzero : user 5 ≠ 0) (htop : user 5 >>> 7 = 0) (count : Nat) :
    ((scsitap_ctl_write k (.mapped user) count).2.cmnds (k.tasks addr).sc).result = (user 5).toUInt32 ∧
    ((scsitap_ctl_write k (.mapped user) count).2.cmnds (k.tasks addr).sc).sense_buffer =
      fun i => if i = 0 then 0x70 else if i = 7 then 0x6 else 0 := by
  have hpayload : receivePayload k (k.tasks addr).sc (.mapped user) count (user 5) =
      (some (user 5), k.modifyCmnd (k.tasks addr).sc set_sensedata_illegal) := by
    rw [receivePayload, if_neg hnonzero, if_pos htop]
  rw [scsitap_ctl_write, if_neg (not_not.mpr hready)]
  simp only [get_user_mapped, htype, copy_from_user_mapped, slice_length, ne_eq, not_true_eq_false, if_true, if_false,
    hfound, hpayload, scsitap_complete_task_cmnds, Hba.modifyCmnd_tasks, Hba.modifyCmnd_cmnds, Function.update_self]
  exact ⟨trivial, rfl⟩

end device

variable {k : Hba} {addr : Addr} {task : UserScsitapTask} {data : Mem}

/-- The command is completed with the status, but without any sense data. -/
theorem completedRefusal_sense (h : Refused k addr task data) :
    ((completedRefusal k task data).cmnds (k.tasks addr).sc).result = 2 ∧
    ((completedRefusal k task data).cmnds (k.tasks addr).sc).sense_buffer =
      fun i => if i = 0 then 0x70 else if i = 7 then 0x6 else 0 := by
  have hstatus : reply (task.finished 2 data) 5 = 2 := by
    rw [reply_status]
    rfl
  have hfound : task_of_cmd k (unle32 (slice (reply (task.finished 2 data)) 1 4)) = some addr := by
    rw [reply_number]
    exact h.queued
  have hwrite := scsitap_ctl_write_sense h.ready (reply_type _) hfound (by rw [hstatus]; decide)
    (by rw [hstatus]; decide) (size_t (int32 ((task.finished 2 data).request_bufflen + 6)))
  rw [hstatus] at hwrite
  exact hwrite

/-- The sense data of no refused command reaches the initiator. -/
theorem sense_never_reaches (h : Refused k addr task data) :
    ¬ SenseReaches ((completedRefusal k task data).cmnds (k.tasks addr).sc) := by
  obtain ⟨-, hsense⟩ := completedRefusal_sense h
  rintro ⟨-, hkey, -⟩
  rw [hsense] at hkey
  exact absurd hkey (by decide)

/-- PERSISTENT RESERVE OUT with a service action that does not exist. -/
def reserveTask : UserScsitapTask :=
  { register_scsi_host with
    cmd_number := 1, type := 67, direction := 73, cdblen := 10, cdb := #v[0x5f, 0x1f, 0, 0, 0, 0, 0, 0, 0, 0, 0, 0, 0, 0, 0, 0] }

theorem reserveTask_refused :
    Refused .oneCommand 8 reserveTask (blit reserveTask.invocation.data 0 illegal_request) where
  ready := rfl
  queued := rfl
  direction := .inl rfl
  handled := ⟨0, diskTarget 1, diskTarget 1,
    { state := { world := diskWorld 1, data := reserveTask.invocation.data }, choices := fun _ => .whole }, _, rfl, rfl, rfl⟩
  placed := illegal_request_placed _

theorem sense_never_reaches_reserve : ¬ SenseReaches ((completedRefusal .oneCommand reserveTask
    (blit reserveTask.invocation.data 0 illegal_request)).cmnds (Hba.oneCommand.tasks 8).sc) :=
  sense_never_reaches reserveTask_refused

/-- A command queued in a session that can come about is refused with sense data
that does not arrive. -/
theorem sense_lost : Hba.oneCommand.Reachable ∧ ¬ ∀ k addr task data, Refused k addr task data →
    SenseReaches ((completedRefusal k task data).cmnds (k.tasks addr).sc) := by
  refine ⟨⟨_, Hba.fresh_initial, Hba.oneCommand_reachable⟩, fun hreaches => ?_⟩
  obtain ⟨-, hkey, -⟩ := hreaches _ _ _ _ reserveTask_refused
  rw [(completedRefusal_sense reserveTask_refused).2] at hkey
  exact absurd hkey (by decide)

end vscsi
