import Vscsi.Target.Exchange
import Vscsi.Target.MainLoop

open lib

namespace vscsi

open hba device api

/-- The main loop between a claimed header and the call of `run_scsi_command`:
an inbound command goes on as it is, an outbound one with its data, any other is
dropped. -/
def loaded (k : Hba) (task : UserScsitapTask) : Option UserScsitapTask :=
  if task.direction = 73 then some task
  else if task.direction = 79 then
    match receive_scsi_data k task with
    | (x, task) => if x < 0 then none else some task
  else none

/-- The data bytes that `receive_scsi_data` delivers for a command. -/
def delivered (k : Hba) (task : UserScsitapTask) : List UInt8 :=
  if task.direction = 79 then slice (receive_scsi_data k task).2.request_buffer 31 task.request_bufflen.toNat else []

section Loaded

variable {Pid : Type} [DecidableEq Pid] {E : Engine Pid} (s : System E) (pid : Pid)

/-- The steps of a process between its claim and its call of `run_scsi_command`. -/
theorem loaded_iff (task task' : UserScsitapTask) : loaded s.hba task = some task' ↔
    System.dispatch (E := E) task = .loaded ∧ task' = task ∨
      System.dispatch (E := E) task = .receiving ∧
        ((s.setProc pid .receiving task).afterReceive pid).procs pid = { phase := .loaded, task := task' } := by
  have hproc : ((s.setProc pid .receiving task).procs pid).task = task := by simp [System.setProc]
  unfold loaded System.dispatch
  by_cases hin : task.direction = 73
  · simp [hin, eq_comm]
  · by_cases hout : task.direction = 79
    · rw [if_neg hin, if_pos hout, if_neg hin, if_pos hout, System.afterReceive, hproc]
      by_cases hfail : (receive_scsi_data s.hba task).1 < 0
      · simp [System.setProc, System.check, hfail]
      · simp [System.setProc, System.check, hfail]
    · simp [hin, hout]

end Loaded

variable {k : Hba} {task task' : UserScsitapTask}

theorem receive_scsi_data_task (k : Hba) (task : UserScsitapTask) :
    (receive_scsi_data k task).2 = { task with request_buffer := (receive_scsi_data k task).2.request_buffer } := by
  unfold receive_scsi_data
  split <;> rfl

/-- All that a header goes through before its command runs concerns the buffer. -/
theorem loaded_task (h : loaded k task = some task') : task' = { task with request_buffer := task'.request_buffer } := by
  unfold loaded at h
  split at h
  · obtain rfl := Option.some.inj h
    rfl
  · split at h
    · simp only at h
      split at h
      · cases h
      · obtain rfl := Option.some.inj h
        exact receive_scsi_data_task k task
    · cases h

/-- A command runs on its own header and, if it is outbound, on the data
delivered for it. -/
theorem loaded_invocation (h : loaded k task = some task') :
    task'.invocation.lun = UInt8.ofNat task.lun.toNat ∧ task'.invocation.cdb = task.cdb ∧
      task'.invocation.data_size = task.request_bufflen ∧ (task.direction = 73 ∨ task.direction = 79 ∧
        slice task'.invocation.data 0 task.request_bufflen.toNat = delivered k task) := by
  unfold loaded at h
  split at h
  · rename_i hin
    obtain rfl := Option.some.inj h
    exact ⟨rfl, rfl, rfl, .inl hin⟩
  · split at h
    · rename_i hout
      simp only at h
      split at h
      · cases h
      · obtain rfl := Option.some.inj h
        rw [receive_scsi_data_task]
        refine ⟨rfl, rfl, rfl, .inr ⟨hout, ?_⟩⟩
        simp [UserScsitapTask.invocation, UserScsitapTask.dataOffset, fromPointer, slice, delivered, hout]
    · cases h

/-- A data read leaves the buffer behind the data as it was. -/
theorem receive_scsi_data_beyond (hready : k.session.flags = .ready) (hdirection : task.direction = 79)
    (hbounded : task.Bounded) (hdata : DataReady k task)
    (hmapped : ∀ addr ∈ k.queue, (k.cmnds (k.tasks addr).sc).request_buffer.Mapped ∧
      ((k.cmnds (k.tasks addr).sc).request_buffer.contents k.mem
        (k.cmnds (k.tasks addr).sc).request_bufflen.toNat).length =
          (k.cmnds (k.tasks addr).sc).request_bufflen.toNat)
    {i : Nat} (hi : 31 + task.request_bufflen.toNat ≤ i) :
    (receive_scsi_data k task).2.request_buffer i = task.request_buffer i := by
  obtain ⟨-, hcount⟩ := count_eq hbounded SCSITAP_UHEADER_SIZE (by decide)
  have hresult : (receive_scsi_data k task).2.request_buffer = (scsitap_ctl_read k task.cmd_number.toNat
      (.mapped task.request_buffer) (SCSITAP_UHEADER_SIZE + task.request_bufflen.toNat)).2.contents := by
    simp only [receive_scsi_data, hdirection, ne_eq, not_true_eq_false, if_false, hcount]
  rw [hresult]
  unfold DataReady at hdata
  split at hdata
  · rename_i hzero
    obtain ⟨addr, hoffer⟩ := hdata
    rw [hzero, Int.toNat_zero, Nat.add_zero, scsitap_ctl_read_header hready, hoffer]
    change blit task.request_buffer 0 (header k addr _) i = _
    exact blit_of_ge _ (by rw [header_length]; omega)
  · rename_i hpositive
    obtain ⟨addr, hfound, hflags, hlen⟩ := hdata
    obtain ⟨hlo, hhi⟩ := hbounded
    obtain ⟨hmap, hcontents⟩ := hmapped addr (task_of_cmd_some hfound).1
    have hlen' : task.request_bufflen.toNat = (k.cmnds (k.tasks addr).sc).request_bufflen.toNat := by omega
    have hfits : SCSITAP_UHEADER_SIZE + (k.cmnds (k.tasks addr).sc).request_bufflen.toNat < 2 ^ 32 := by
      rw [show SCSITAP_UHEADER_SIZE = 31 from rfl]
      omega
    rw [hlen'] at hi
    rw [hlen', scsitap_ctl_read_data hready hfound hflags (by omega) hfits hmap]
    change blit _ 31 _ i = _
    rw [blit_of_ge _ (by rw [hcontents]; exact hi), blit_of_ge _ (by rw [header_length]; omega)]

namespace Hba

/-- A session in cleared memory, but for outbound commands of one length that
are on their way to it. -/
def outbound (request_bufflen : UInt32) : Hba :=
  scsitap_create_session 0 (fun _ => .empty 0)
    (fun _ => { ScsiCmnd.zero with sc_data_direction := .dma_to_device, request_bufflen }) fun _ => 0

/-- A target registers. -/
def outboundReady (request_bufflen : UInt32) : Hba := (outbound request_bufflen).apply (.register_client 1)

/-- One of the commands is queued. -/
def outboundFirst (request_bufflen : UInt32) : Hba := (outboundReady request_bufflen).apply (.queuecommand 0 (some 0))

/-- Another one is queued. -/
def outboundBoth (request_bufflen : UInt32) : Hba := (outboundFirst request_bufflen).apply (.queuecommand 1 (some 1))

/-- The first one has been claimed. -/
def outboundClaimed (request_bufflen : UInt32) : Hba := (outboundBoth request_bufflen).apply (.receive_task 1)

theorem outboundClaimed_reachable (request_bufflen : UInt32) : (outboundClaimed request_bufflen).Reachable := by
  have hregister : Step (outbound request_bufflen) (.register_client 1) (outboundReady request_bufflen) :=
    ⟨rfl, nofun, trivial, rfl⟩
  have hfirst : Step (outboundReady request_bufflen) (.queuecommand 0 (some 0)) (outboundFirst request_bufflen) :=
    ⟨rfl, fun _ => rfl, ⟨nofun, nofun⟩, rfl⟩
  have hsecond : Step (outboundFirst request_bufflen) (.queuecommand 1 (some 1)) (outboundBoth request_bufflen) := by
    have hqueue : (outboundFirst request_bufflen).session.scsitap_queue = [0] := rfl
    refine ⟨rfl, fun _ => rfl, ⟨?_, ?_⟩, rfl⟩
    · intro task ht
      rw [hqueue, List.mem_singleton] at ht
      subst ht
      exact Nat.zero_ne_one
    · intro task htask ht
      rw [hqueue, List.mem_singleton] at ht
      exact absurd (Option.some.inj (htask.trans (congrArg some ht))) Nat.one_ne_zero
  have hclaim : Step (outboundBoth request_bufflen) (.receive_task 1) (outboundClaimed request_bufflen) :=
    ⟨rfl, fun _ => rfl, trivial, rfl⟩
  exact ⟨_, ⟨0, _, _, _, fun _ => rfl, rfl⟩, (((lib.Reachable.refl.tail hregister).tail hfirst).tail hsecond).tail hclaim⟩

end Hba

/-- The task that has claimed the first command finds data. -/
theorem outboundClaimed_data (hbounded : task.Bounded) :
    DataReady (.outboundClaimed (UInt32.ofNat task.request_bufflen.toNat)) { task with cmd_number := 1 } := by
  obtain ⟨hlo, hhi⟩ := hbounded
  unfold DataReady
  split
  · exact ⟨1, rfl⟩
  · refine ⟨0, rfl, rfl, ?_⟩
    change ((UInt32.ofNat task.request_bufflen.toNat).toNat : Int) = task.request_bufflen
    rw [UInt32.toNat_ofNat']
    omega

theorem outboundClaimed_mapped (request_bufflen : UInt32) : ∀ addr ∈ (Hba.outboundClaimed request_bufflen).queue,
    (((Hba.outboundClaimed request_bufflen).cmnds ((Hba.outboundClaimed request_bufflen).tasks addr).sc).request_buffer) =
      .flat 0 := by
  intro addr haddr
  have hqueue : (Hba.outboundClaimed request_bufflen).queue = [0, 1] := rfl
  simp only [hqueue, List.mem_cons, List.not_mem_nil, or_false] at haddr
  rcases haddr with rfl | rfl
  · rfl
  · rfl

/-- An inbound command, like an outbound one beyond its data, may be run with any
byte left in the buffer. -/
theorem leftover (hbounded : task.Bounded) {i : Nat}
    (hdirection : task.direction = 73 ∨ task.direction = 79 ∧ task.request_bufflen ≤ i) (byte : UInt8) :
    ∃ (k : Hba) (cmd_number : UInt32) (buffer request_buffer : Mem), k.Reachable ∧
      loaded k { task with cmd_number, request_buffer := buffer } = some { task with cmd_number, request_buffer } ∧
      request_buffer (task.dataOffset + i) = byte := by
  rcases hdirection with hin | ⟨hout, hbeyond⟩
  · exact ⟨.fresh, 0, fun _ => byte, fun _ => byte, ⟨_, Hba.fresh_initial, .refl⟩, if_pos hin, rfl⟩
  · have hmapped := outboundClaimed_mapped (UInt32.ofNat task.request_bufflen.toNat)
    have hdata := outboundClaimed_data hbounded
    generalize hk : Hba.outboundClaimed (UInt32.ofNat task.request_bufflen.toNat) = k at *
    have hready : k.session.flags = .ready := by
      rw [← hk]
      rfl
    have hfills : (receive_scsi_data k { task with cmd_number := 1, request_buffer := fun _ => byte }).1 < 0 ↔
        ¬ DataReady k { task with cmd_number := 1, request_buffer := fun _ => byte } :=
      receive_scsi_data_fails_iff hready hout hbounded fun addr haddr => by rw [hmapped addr haddr]; trivial
    have hsucceeds : ¬ (receive_scsi_data k { task with cmd_number := 1, request_buffer := fun _ => byte }).1 < 0 :=
      fun hfails => hfills.mp hfails hdata
    have hbyte : (receive_scsi_data k { task with cmd_number := 1, request_buffer := fun _ => byte }).2.request_buffer
        (task.dataOffset + i) = { task with cmd_number := 1, request_buffer := fun _ => byte }.request_buffer
          (task.dataOffset + i) := by
      refine receive_scsi_data_beyond hready (by exact hout) (by exact hbounded) (by exact hdata) ?_ ?_
      · intro addr haddr
        rw [hmapped addr haddr]
        exact ⟨trivial, slice_length _ _ _⟩
      · obtain ⟨hlo, -⟩ := hbounded
        rw [UserScsitapTask.dataOffset, if_pos hout]
        change 31 + task.request_bufflen.toNat ≤ 31 + i
        omega
    refine ⟨k, 1, fun _ => byte, _, ?_, ?_, hbyte⟩
    · rw [← hk]
      exact Hba.outboundClaimed_reachable _
    · rw [loaded, if_neg (by rw [hout]; decide), if_pos hout]
      simp only [if_neg hsucceeds]
      rw [receive_scsi_data_task]

end vscsi
