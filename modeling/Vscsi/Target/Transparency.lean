import Vscsi.Target.Survival

open lib

namespace vscsi

open hba device api

/-- A request as a disk driver makes it: within the host's limits, in one
direction at most, and with the segments of its buffer apart and exactly as long
as the transfer. -/
structure Request.Plain (r : Request) : Prop extends r.Legal where
  lun : r.lun.toNat < 256
  direction : r.sc_data_direction ≠ .dma_bidirectional
  positive : r.sc_data_direction = .dma_to_device → 1 ≤ r.request_bufflen.toNat
  segments : ∀ table, r.request_buffer = .sg table →
    total table = r.request_bufflen.toNat ∧ table.Pairwise Scatterlist.Apart

/-- The bytes of the command's data buffer. -/
def Hba.buffer (k : Hba) (sc : Addr) : List UInt8 :=
  (k.cmnds sc).request_buffer.contents k.mem (k.cmnds sc).request_bufflen.toNat

namespace RequestBuffer

theorem contents_length {buffer : RequestBuffer} {bufflen : Nat}
    (h : ∀ table, buffer = .sg table → total table = bufflen) (mem : Mem) :
    (buffer.contents mem bufflen).length = bufflen := by
  cases buffer with
  | flat address => simp [contents]
  | sg table => simp [contents, h table rfl]

/-- A buffer that has taken some bytes holds them. -/
theorem contents_fill {buffer : RequestBuffer} {bufflen : Nat}
    (h : ∀ table, buffer = .sg table → total table = bufflen ∧ table.Pairwise Scatterlist.Apart)
    (mem user : Mem) (start : Nat) :
    buffer.contents (buffer.fill mem bufflen user start) bufflen = slice user start bufflen := by
  cases buffer with
  | flat address =>
    have hslice := slice_blit mem address (slice user start bufflen)
    rwa [slice_length] at hslice
  | sg table =>
    obtain ⟨htotal, hapart⟩ := h table rfl
    rw [contents, fill, htotal]
    exact gather_scatter hapart mem (by rw [slice_length, htotal])

end RequestBuffer

namespace System

/-- The step is one of the target's main loop, or the mid layer prepares a command,
leaving the buffers of queued ones alone, or submits a plain one. Nothing is aborted,
and nobody is killed. -/
def Plain {E : Engine Unit} (s : System E) : Act Unit → Prop
  | .kernel (.prepare _ _ mem) => ∀ task ∈ s.hba.queue,
      (s.hba.cmnds (s.hba.tasks task).sc).request_buffer.contents mem
        (s.hba.cmnds (s.hba.tasks task).sc).request_bufflen.toNat = s.hba.buffer (s.hba.tasks task).sc
  | .kernel (.queuecommand sc _) => (s.hba.cmnds sc).request.Plain
  | .kernel _ => False
  | .kill _ => False
  | _ => True

end System

namespace Hba

/-- The task is first in the queue and in the given state; all behind it wait. -/
def Head (k : Hba) (addr : Addr) (flags : TaskFlags) : Prop :=
  ∃ rest, k.queue = addr :: rest ∧ (k.tasks addr).flags = flags ∧
    ∀ task ∈ rest, (k.tasks task).flags = .submitted

/-- The fields a target decoded are those of the queued command. -/
structure Describes (k : Hba) (addr : Addr) (task : UserScsitapTask) : Prop where
  number : task.cmd_number = (k.tasks addr).cmd_number
  lun : task.lun = (k.cmnds (k.tasks addr).sc).lun
  direction : task.direction = directionChar (k.cmnds (k.tasks addr).sc).sc_data_direction
  cdb : ∀ i : Fin 16, i.val < (k.cmnds (k.tasks addr).sc).cmd_len.toNat →
    task.cdb.get i = (k.cmnds (k.tasks addr).sc).cmnd.get i
  request_bufflen : task.request_bufflen = (k.cmnds (k.tasks addr).sc).request_bufflen.toNat

/-- The target has the data of an outbound command. -/
def Loaded (k : Hba) (addr : Addr) (task : UserScsitapTask) : Prop :=
  (k.cmnds (k.tasks addr).sc).sc_data_direction = .dma_to_device →
    slice task.request_buffer 31 (k.cmnds (k.tasks addr).sc).request_bufflen.toNat =
      k.buffer (k.tasks addr).sc

/-- How far the target is with the first command of the queue. -/
def Stage {Local : Type} (k : Hba) (proc : Process Local) : Prop :=
  match proc.phase with
  | .polling => ∀ task ∈ k.queue, (k.tasks task).flags = .submitted
  | .claiming => ∃ addr, k.Head addr .submitted ∧ k.Describes addr proc.task
  | .receiving => ∃ addr, k.Head addr .received ∧ k.Describes addr proc.task ∧ proc.task.direction = 79
  | .loaded => ∃ addr, k.Head addr .received ∧ k.Describes addr proc.task ∧ k.Loaded addr proc.task
  | .running call _ => ∃ addr, k.Head addr .received ∧ k.Describes addr proc.task ∧
      k.Loaded addr proc.task ∧ call = proc.task.invocation
  | .completing call status data => ∃ addr task, k.Head addr .received ∧ k.Describes addr task ∧
      k.Loaded addr task ∧ call = task.invocation ∧ proc.task = task.finished status data
  | .exited => False
  | .killed => False

/-- What the mid layer does to a session while it only adds plain commands. -/
structure Extends (k k' : Hba) : Prop where
  queue : ∃ added, k'.queue = k.queue ++ added ∧ ∀ task ∈ added, (k'.tasks task).flags = .submitted
  tasks : ∀ task ∈ k.queue, k'.tasks task = k.tasks task
  request : ∀ task ∈ k.queue,
    (k'.cmnds (k.tasks task).sc).request = (k.cmnds (k.tasks task).sc).request
  buffer : ∀ task ∈ k.queue, k'.buffer (k.tasks task).sc = k.buffer (k.tasks task).sc

namespace Extends

variable {k k' : Hba} {addr : Addr} {task : UserScsitapTask}

theorem head (h : k.Extends k') {flags : TaskFlags} (hhead : k.Head addr flags) : k'.Head addr flags := by
  obtain ⟨rest, hqueue, hflags, hrest⟩ := hhead
  obtain ⟨added, hadded, hsubmitted⟩ := h.queue
  have haddr : addr ∈ k.queue := by rw [hqueue]; exact .head _
  refine ⟨rest ++ added, by rw [hadded, hqueue]; rfl, by rw [h.tasks addr haddr, hflags], ?_⟩
  intro t ht
  rcases List.mem_append.mp ht with hold | hnew
  · rw [h.tasks t (by rw [hqueue]; exact .tail _ hold)]
    exact hrest t hold
  · exact hsubmitted t hnew

theorem describes (h : k.Extends k') (haddr : addr ∈ k.queue) (hd : k.Describes addr task) :
    k'.Describes addr task := by
  have htasks := h.tasks addr haddr
  have hrequest := h.request addr haddr
  simp only [ScsiCmnd.request, Request.mk.injEq] at hrequest
  obtain ⟨hlun, hlen, hcmnd, hdirection, hbufflen, -⟩ := hrequest
  constructor
  · rw [htasks, hd.number]
  · rw [htasks, hlun, hd.lun]
  · rw [htasks, hdirection, hd.direction]
  · rw [htasks, hlen, hcmnd]
    exact hd.cdb
  · rw [htasks, hbufflen, hd.request_bufflen]

theorem loaded (h : k.Extends k') (haddr : addr ∈ k.queue) (hl : k.Loaded addr task) :
    k'.Loaded addr task := by
  have hrequest := h.request addr haddr
  simp only [ScsiCmnd.request, Request.mk.injEq] at hrequest
  obtain ⟨-, -, -, hdirection, hbufflen, -⟩ := hrequest
  rw [Loaded, h.tasks addr haddr, hdirection, hbufflen, h.buffer addr haddr]
  exact hl

theorem stage {Local : Type} {proc : Process Local} (h : k.Extends k') (hs : k.Stage proc) :
    k'.Stage proc := by
  have hmem : ∀ {addr flags}, k.Head addr flags → addr ∈ k.queue := by
    rintro addr flags ⟨rest, hqueue, -⟩
    rw [hqueue]
    exact .head _
  unfold Stage at hs ⊢
  split at hs
  · obtain ⟨added, hadded, hsubmitted⟩ := h.queue
    intro task ht
    rw [hadded] at ht
    rcases List.mem_append.mp ht with hold | hnew
    · rw [h.tasks task hold]
      exact hs task hold
    · exact hsubmitted task hnew
  · obtain ⟨addr, hhead, hd⟩ := hs
    exact ⟨addr, h.head hhead, h.describes (hmem hhead) hd⟩
  · obtain ⟨addr, hhead, hd, hdirection⟩ := hs
    exact ⟨addr, h.head hhead, h.describes (hmem hhead) hd, hdirection⟩
  · obtain ⟨addr, hhead, hd, hl⟩ := hs
    exact ⟨addr, h.head hhead, h.describes (hmem hhead) hd, h.loaded (hmem hhead) hl⟩
  · obtain ⟨addr, hhead, hd, hl, hcall⟩ := hs
    exact ⟨addr, h.head hhead, h.describes (hmem hhead) hd, h.loaded (hmem hhead) hl, hcall⟩
  · obtain ⟨addr, task, hhead, hd, hl, hcall, htask⟩ := hs
    exact ⟨addr, task, h.head hhead, h.describes (hmem hhead) hd, h.loaded (hmem hhead) hl, hcall, htask⟩
  · exact hs
  · exact hs

end Extends

theorem prepare_extends (k : Hba) {sc : Addr} {cmnd : ScsiCmnd} {mem : Mem} (hidle : k.Idle sc)
    (hbuffer : ∀ task ∈ k.queue, (k.cmnds (k.tasks task).sc).request_buffer.contents mem
      (k.cmnds (k.tasks task).sc).request_bufflen.toNat = k.buffer (k.tasks task).sc) :
    k.Extends (k.apply (.prepare sc cmnd mem)) where
  queue := ⟨[], by simp [apply], by simp⟩
  tasks _ _ := rfl
  request task ht := by
    have hne : (k.tasks task).sc ≠ sc := hidle task ht
    simp [apply, hne]
  buffer task ht := by
    have hne : (k.tasks task).sc ≠ sc := hidle task ht
    rw [← hbuffer task ht]
    simp [apply, Hba.buffer, hne]

/-- Requests and memory decide what is in a buffer. -/
theorem buffer_congr {k k' : Hba} {sc : Addr} (hrequest : (k'.cmnds sc).request = (k.cmnds sc).request)
    (hmem : k'.mem = k.mem) : k'.buffer sc = k.buffer sc := by
  simp only [ScsiCmnd.request, Request.mk.injEq] at hrequest
  obtain ⟨-, -, -, -, hbufflen, hbuffer⟩ := hrequest
  rw [buffer, buffer, hbufflen, hbuffer, hmem]

theorem Valid.queuecommand_extends {k : Hba} (h : k.Valid) {sc : Addr} {slot : Option Addr}
    (hallowed : k.Allowed (.queuecommand sc slot)) : k.Extends (k.apply (.queuecommand sc slot)) := by
  have hturned : ∀ {k'}, TurnedAway k sc k' → k.Extends k' := fun ha =>
    ⟨⟨[], by rw [queue, ha.session, List.append_nil], by simp⟩, fun _ _ => by rw [ha.tasks],
      fun _ _ => ha.request _, fun _ _ => buffer_congr (ha.request _) ha.mem⟩
  by_cases hready : k.session.flags = .ready
  · cases slot with
    | none => exact hturned (scsitap_queuecommand_busy k sc hready).2
    | some task =>
      obtain ⟨-, ha⟩ := scsitap_queuecommand_accepted k sc task hready
      have hfresh := hallowed.2 task rfl
      have htasks : (k.apply (.queuecommand sc (some task))).tasks = Function.update k.tasks task (newTask k sc) :=
        ha.tasks
      refine ⟨⟨[task], ha.queue, ?_⟩, ?_, fun _ _ => ha.request _, fun _ _ => buffer_congr (ha.request _) ha.mem⟩
      · intro t ht
        rw [List.mem_singleton.mp ht, htasks, Function.update_self, newTask]
      · intro t ht
        rw [htasks, Function.update_of_ne]
        rintro rfl
        exact hfresh ht
  · exact hturned (scsitap_queuecommand_refused k sc slot hready (h.idle_ptr hallowed.1)).2

/-- The first task in the queue is the one its number finds. -/
theorem Head.found {k : Hba} {addr : Addr} {flags : TaskFlags} (h : k.Head addr flags) :
    task_of_cmd k (k.tasks addr).cmd_number = some addr := by
  obtain ⟨rest, hqueue, -⟩ := h
  rw [task_of_cmd, show k.session.scsitap_queue = addr :: rest from hqueue]
  simp

theorem Head.mem {k : Hba} {addr : Addr} {flags : TaskFlags} (h : k.Head addr flags) : addr ∈ k.queue := by
  obtain ⟨rest, hqueue, -⟩ := h
  rw [hqueue]
  exact .head _

end Hba

/-- The data read of a claimed command stores its header and its data. -/
theorem receive_scsi_data_claimed {k : Hba} {addr : Addr} {task : UserScsitapTask} (hready : k.session.flags = .ready)
    (hdirection : task.direction = 79) (hbounded : task.Bounded) (hfound : task_of_cmd k task.cmd_number = some addr)
    (hflags : (k.tasks addr).flags = .received) (hplain : (k.cmnds (k.tasks addr).sc).request.Plain)
    (hpositive : 0 < (k.cmnds (k.tasks addr).sc).request_bufflen.toNat)
    (hbufflen : task.request_bufflen = (k.cmnds (k.tasks addr).sc).request_bufflen.toNat) :
    receive_scsi_data k task =
      (0, { task with
        request_buffer := blit (blit task.request_buffer 0 (device.header k addr 68)) 31 (k.buffer (k.tasks addr).sc) }) := by
  obtain ⟨-, hcount⟩ := count_eq hbounded SCSITAP_UHEADER_SIZE (by decide)
  have hlen : task.request_bufflen.toNat = (k.cmnds (k.tasks addr).sc).request_bufflen.toNat := by
    rw [hbufflen, Int.toNat_natCast]
  have hfits : SCSITAP_UHEADER_SIZE + (k.cmnds (k.tasks addr).sc).request_bufflen.toNat < 2 ^ 32 := by
    have hle := hbounded.2
    rw [show SCSITAP_UHEADER_SIZE = 31 from rfl]
    omega
  have hread := scsitap_ctl_read_data hready hfound hflags hpositive hfits hplain.mapped task.request_buffer
  simp only [receive_scsi_data, hdirection, ne_eq, not_true_eq_false, if_false, hcount, hlen, hread]
  simp [SCSITAP_UHEADER_SIZE, Hba.buffer]

/-- Behind the header lies the command's buffer. -/
theorem Hba.slice_claimed {k : Hba} {sc : Addr} (hplain : (k.cmnds sc).request.Plain) (mem : Mem) :
    slice (blit mem 31 (k.buffer sc)) 31 (k.cmnds sc).request_bufflen.toNat = k.buffer sc := by
  have hlength : (k.buffer sc).length = (k.cmnds sc).request_bufflen.toNat :=
    RequestBuffer.contents_length (fun table htable => (hplain.segments table htable).1) _
  have hslice := slice_blit mem 31 (k.buffer sc)
  rwa [hlength] at hslice

namespace System

variable {E : Engine Unit}

/-- The state of one target's service: the session is sound, queued commands are
plain, and the target is at some stage with the first of them. -/
structure Detour (s : System E) : Prop where
  sound : s.Sound
  plain : ∀ task ∈ s.hba.queue, (s.hba.cmnds (s.hba.tasks task).sc).request.Plain
  lun : ∀ task ∈ s.hba.queue, (s.hba.tasks task).lun = (s.hba.cmnds (s.hba.tasks task).sc).lun
  stage : s.hba.Stage (s.procs ())

theorem Detour.attached {s : System E} (h : s.Attached) : s.Detour := by
  refine ⟨.attached h, ?_, ?_, ?_⟩
  · simp [h.empty]
  · simp [h.empty]
  · rw [h.polling]
    simp [Hba.Stage, h.empty]

theorem Detour.not_exited {s : System E} (h : s.Detour) (pid : Unit) : (s.procs pid).phase ≠ .exited := by
  intro hphase
  have hstage := h.stage
  simp only [Hba.Stage, hphase] at hstage

/-- Plain requests and matching LUNs survive while tasks are only kept. -/
theorem Detour.kept {s : System E} (h : s.Detour) {hba : Hba} (hkept : ∀ task ∈ hba.queue, s.hba.Kept hba task) :
    (∀ task ∈ hba.queue, (hba.cmnds (hba.tasks task).sc).request.Plain) ∧
      ∀ task ∈ hba.queue, (hba.tasks task).lun = (hba.cmnds (hba.tasks task).sc).lun := by
  constructor <;> intro task ht <;> have hk := hkept task ht
  · rw [hk.request]
    exact h.plain task hk.queued
  · have hrequest := congrArg Request.lun hk.request
    rw [hk.lun, h.lun task hk.queued]
    exact hrequest.symm

theorem Detour.kernel {s : System E} (h : s.Detour) {op : Op} (hplain : s.Plain (.kernel op)) {hba : Hba}
    (hstep : s.hba.Step op hba) : Detour { s with hba } := by
  have hlegal : s.Legal (.kernel op) := by
    cases op <;> first | exact hplain.toLegal | trivial
  have hsound := h.sound.kernel hlegal hstep
  obtain ⟨_, _, hallowed, rfl⟩ := hstep
  cases op with
  | prepare sc cmnd mem =>
    have hevolves := h.sound.valid.apply_evolves hallowed (nofun)
    obtain ⟨hkept, hlun⟩ := h.kept hevolves.kept
    exact ⟨hsound, hkept, hlun, (Hba.prepare_extends s.hba hallowed.1 hplain).stage h.stage⟩
  | queuecommand sc slot =>
    have hstage := (h.sound.valid.queuecommand_extends hallowed).stage h.stage
    rcases h.sound.valid.queuecommand_evolves hallowed with hevolves | ⟨task, hfresh, ha⟩
    · obtain ⟨hkept, hlun⟩ := h.kept hevolves.kept
      exact ⟨hsound, hkept, hlun, hstage⟩
    · have hqueue := Hba.Valid.accepted_queue hfresh ha
      refine ⟨hsound, fun t ht => ?_, fun t ht => ?_, hstage⟩ <;> rcases hqueue t ht with hkept | hnew
      · exact hkept.request ▸ h.plain t hkept.queued
      · exact hnew.request ▸ hplain
      · have hrequest := congrArg Request.lun hkept.request
        exact (hkept.lun.trans (h.lun t hkept.queued)).trans hrequest.symm
      · exact hnew.lun.trans (congrArg Request.lun hnew.request).symm
  | _ => exact hplain.elim

/-- A read passes its wait. -/
theorem Detour.wake {s s' : System E} (h : s.Detour) (hstep : s.Step (.wake ()) s') : s'.Detour := by
  have hsound := (h.sound.wake hstep).1
  obtain ⟨-, -, -, rfl⟩ := hstep
  refine ⟨hsound, h.plain, h.lun, ?_⟩
  have hstage := h.stage
  unfold Hba.Stage at hstage ⊢
  rw [afterWake_phase, afterWake_task]
  exact hstage

/-- The target reads the header of the first command. -/
theorem Detour.header {s s' : System E} (h : s.Detour) (hstep : s.Step (.header ()) s') : s'.Detour := by
  have hsound := (h.sound.header hstep).1
  obtain ⟨_, hphase, hresult⟩ := hstep
  have hstage := h.stage
  simp only [Hba.Stage, hphase] at hstage
  rw [get_scsi_task_header_eq, if_neg (not_not.mpr h.sound.serving.ready)] at hresult
  cases hqueue : s.hba.queue with
  | nil =>
    have hnone : offer s.hba = none := offer_eq_none.mpr (by simp [hqueue])
    rw [hnone] at hresult
    subst hresult
    refine ⟨hsound, h.plain, h.lun, ?_⟩
    simpa [setProc, check, Hba.Stage] using hstage
  | cons addr rest =>
    have haddr : addr ∈ s.hba.queue := by rw [hqueue]; exact .head _
    have hoffer : offer s.hba = some addr := by
      rw [offer, show s.hba.session.scsitap_queue = addr :: rest from hqueue]
      exact List.find?_cons_of_pos (by simpa using hstage addr haddr)
    have hlegal := h.plain addr haddr
    have hlen : (s.hba.cmnds (s.hba.tasks addr).sc).cmd_len.toNat ≤ 16 := hlegal.cmd_len
    have hbufflen : (s.hba.cmnds (s.hba.tasks addr).sc).request_bufflen.toNat ≤ 131072 := hlegal.request_bufflen
    rw [hoffer] at hresult
    simp only [if_pos hlen] at hresult
    subst hresult
    refine ⟨hsound, h.plain, h.lun, ?_⟩
    simp only [setProc, Function.update_self, Hba.Stage]
    refine ⟨addr, ⟨rest, hqueue, hstage addr haddr, fun t ht => hstage t (by rw [hqueue]; exact .tail _ ht)⟩, ?_⟩
    constructor
    · rfl
    · exact h.lun addr haddr
    · rfl
    · intro i hi
      simp [decoded, hi]
    · simp only [decoded]
      exact int32_of_range (by omega) (by omega)

/-- The claim marks the first command and nothing else. -/
theorem Detour.claim {s s' : System E} (h : s.Detour) (hstep : s.Step (.claim ()) s') : s'.Detour := by
  have hsound := (h.sound.claim hstep).1
  obtain ⟨_, hphase, hresult⟩ := hstep
  have hstage := h.stage
  simp only [Hba.Stage, hphase] at hstage
  obtain ⟨addr, hhead, hd⟩ := hstage
  have hclaim := get_scsi_task_claim_eq h.sound.serving.ready (s.procs ()).task
  rw [hd.number, hhead.found] at hclaim
  simp only [afterClaim, hclaim] at hresult
  subst hresult
  obtain ⟨hkept, hlun⟩ := h.kept (Hba.Valid.setReceived_evolves s.hba addr).kept
  refine ⟨hsound, hkept, hlun, ?_⟩
  have hhead' : (s.hba.setFlags addr .received).Head addr .received := by
    obtain ⟨rest, hqueue, -, hrest⟩ := hhead
    refine ⟨rest, hqueue, by simp, fun t ht => ?_⟩
    have hnodup := h.sound.valid.nodup
    rw [hqueue, List.nodup_cons] at hnodup
    rw [Hba.setFlags_of_ne]
    · exact hrest t ht
    · rintro rfl
      exact hnodup.1 ht
  have hd' : (s.hba.setFlags addr .received).Describes addr (s.procs ()).task := by
    constructor <;> simp only [Hba.setFlags_self, Hba.setFlags_cmnds]
    exacts [hd.number, hd.lun, hd.direction, hd.cdb, hd.request_bufflen]
  have hzero : check (E := E) 0 (dispatch (s.procs ()).task) = dispatch (s.procs ()).task := rfl
  simp only [setProc, Function.update_self, hzero]
  by_cases hout : (s.hba.cmnds (s.hba.tasks addr).sc).sc_data_direction = .dma_to_device
  · have hdirection : (s.procs ()).task.direction = 79 := by rw [hd.direction, directionChar, if_pos hout]
    have hdispatch : dispatch (E := E) (s.procs ()).task = .receiving := by simp [dispatch, hdirection]
    simp only [hdispatch, Hba.Stage]
    exact ⟨addr, hhead', hd', hdirection⟩
  · have hdirection : (s.procs ()).task.direction = 73 := by rw [hd.direction, directionChar, if_neg hout]
    have hdispatch : dispatch (E := E) (s.procs ()).task = .loaded := by simp [dispatch, hdirection]
    simp only [hdispatch, Hba.Stage]
    refine ⟨addr, hhead', hd', fun hdir => ?_⟩
    simp only [Hba.setFlags_self, Hba.setFlags_cmnds] at hdir
    exact absurd hdir hout

theorem directionChar_eq {direction : DataDirection} (h : directionChar direction = 79) :
    direction = .dma_to_device := by
  unfold directionChar at h
  split at h
  · assumption
  · cases h

/-- The data read delivers the contents of the command's buffer. -/
theorem Detour.receive {s s' : System E} (h : s.Detour) (hstep : s.Step (.receive ()) s') : s'.Detour := by
  have hsound := (h.sound.receive hstep).1
  obtain ⟨_, hphase, hresult⟩ := hstep
  have hstage := h.stage
  simp only [Hba.Stage, hphase] at hstage
  obtain ⟨addr, hhead, hd, hdirection⟩ := hstage
  have hplain := h.plain addr hhead.mem
  have hpositive := hplain.positive (directionChar_eq (hd.direction ▸ hdirection))
  obtain ⟨_, _, hflags, -⟩ := id hhead
  have hreceive := receive_scsi_data_claimed h.sound.serving.ready hdirection (h.sound.bounded ())
    (hd.number ▸ hhead.found) hflags hplain hpositive hd.request_bufflen
  simp only [afterReceive, hreceive] at hresult
  subst hresult
  refine ⟨hsound, h.plain, h.lun, ?_⟩
  have hzero : check (E := E) 0 .loaded = .loaded := rfl
  simp only [setProc, Function.update_self, hzero, Hba.Stage]
  exact ⟨addr, hhead, ⟨hd.number, hd.lun, hd.direction, hd.cdb, hd.request_bufflen⟩, fun _ => Hba.slice_claimed hplain _⟩

theorem Detour.receive_loads {s s' : System E} (h : s.Detour) (hstep : s.Step (.receive ()) s') :
    (s'.procs ()).phase = .loaded := by
  have hstage := (h.receive hstep).stage
  obtain ⟨-, -, rfl⟩ := hstep
  by_cases hfails : (receive_scsi_data s.hba (s.procs ()).task).1 < 0
  · simp [afterReceive, setProc, check, hfails, Hba.Stage] at hstage
  · simp [afterReceive, setProc, check, hfails]

theorem Detour.start {s s' : System E} (h : s.Detour) (hstep : s.Step (.start ()) s') : s'.Detour := by
  have hlegal : s.Legal (.start ()) := trivial
  have hsound := (h.sound.step hlegal hstep).1
  obtain ⟨hphase, rfl⟩ := hstep
  have hstage := h.stage
  simp only [Hba.Stage, hphase] at hstage
  obtain ⟨addr, hhead, hd, hl⟩ := hstage
  refine ⟨hsound, h.plain, h.lun, ?_⟩
  simp only [afterStart, setProc, Function.update_self, Hba.Stage]
  exact ⟨addr, hhead, hd, hl, trivial⟩

theorem Detour.run {s s' : System E} (h : s.Detour) (hstep : s.Step (.run ()) s') : s'.Detour := by
  have hlegal : s.Legal (.run ()) := trivial
  have hsound := (h.sound.step hlegal hstep).1
  obtain ⟨call, loc, loc', shared, hphase, -, rfl⟩ := hstep
  have hstage := h.stage
  simp only [Hba.Stage, hphase] at hstage
  refine ⟨hsound, h.plain, h.lun, ?_⟩
  simp only [setProc, Function.update_self, Hba.Stage]
  exact hstage

theorem Detour.finish {s s' : System E} (h : s.Detour) (hstep : s.Step (.finish ()) s') : s'.Detour := by
  have hlegal : s.Legal (.finish ()) := trivial
  have hsound := (h.sound.step hlegal hstep).1
  obtain ⟨call, loc, status, data, hphase, -, rfl⟩ := hstep
  have hstage := h.stage
  simp only [Hba.Stage, hphase] at hstage
  obtain ⟨addr, hhead, hd, hl, hcall⟩ := hstage
  refine ⟨hsound, h.plain, h.lun, ?_⟩
  simp only [setProc, Function.update_self, Hba.Stage]
  exact ⟨addr, (s.procs ()).task, hhead, hd, hl, hcall, rfl⟩

/-- What the mid layer finds when a command has come back. -/
structure Completed (k : Hba) (addr : Addr) (status : UInt8) (data : Mem) (k' : Hba) : Prop where
  queue : k.queue = addr :: k'.queue
  tasks : k'.tasks = k.tasks
  result : status.toNat < 128 → (k'.cmnds (k.tasks addr).sc).result = status.toUInt32
  buffer : k'.buffer (k.tasks addr).sc =
    if (k.cmnds (k.tasks addr).sc).sc_data_direction ≠ .dma_to_device ∧ status = 0 then
      slice data 0 (k.cmnds (k.tasks addr).sc).request_bufflen.toNat
    else k.buffer (k.tasks addr).sc

/-- The data an inbound command sends is what its handler left. -/
theorem reply_finished {task : UserScsitapTask} (hdirection : task.direction ≠ 79) (status : UInt8) (data : Mem)
    (count : Nat) : slice (reply (task.finished status data)) 6 count = slice data 0 count := by
  rw [reply_data]
  apply List.ext_getElem
  · simp
  · intro i h h'
    have hplace : toPointer task.request_buffer 6 data (6 + i) = data i := by
      rw [toPointer, if_neg (by omega), Nat.add_sub_cancel_left]
    simpa [slice, UserScsitapTask.finished, UserScsitapTask.dataOffset, hdirection] using hplace

/-- What the completion of a queued task that a target has finished does. -/
structure Finishes (k : Hba) (addr : Addr) (status : UInt8) (data : Mem) (k' : Hba) : Prop where
  queue : k'.queue = k.queue.erase addr
  tasks : k'.tasks = k.tasks
  request : ∀ sc, (k'.cmnds sc).request = (k.cmnds sc).request
  result : status.toNat < 128 → (k'.cmnds (k.tasks addr).sc).result = status.toUInt32
  buffer : k'.buffer (k.tasks addr).sc =
    if (k.cmnds (k.tasks addr).sc).sc_data_direction ≠ .dma_to_device ∧ status = 0 then
      slice data 0 (k.cmnds (k.tasks addr).sc).request_bufflen.toNat
    else k.buffer (k.tasks addr).sc

/-- A completion finds its task by the number, and sends back the data of all but an
outbound command. -/
theorem finishes {k : Hba} {addr : Addr} {task : UserScsitapTask} {status : UInt8} {data : Mem}
    (hready : k.session.flags = .ready) (hfound : task_of_cmd k task.cmd_number = some addr)
    (hplain : (k.cmnds (k.tasks addr).sc).request.Plain) (hd : k.Describes addr task)
    (hbounded : (task.finished status data).Bounded) :
    Finishes k addr status data (complete_scsi_task k (task.finished status data)).2.1 := by
  have hnumber : unle32 (slice (reply (task.finished status data)) 1 4) = task.cmd_number := by
    rw [reply_number]
    rfl
  have hstatus : reply (task.finished status data) 5 = status := by
    rw [reply_status]
    exact ofInt_toNat status
  obtain ⟨k₁, hsame, hmem, hresult, hwrite⟩ := scsitap_ctl_write_completes hready
    (reply_type (task.finished status data)) (hnumber ▸ hfound) hplain.mapped
    (6 + (task.finished status data).request_bufflen.toNat)
  rw [hstatus] at hmem hresult
  have hsc : (k₁.tasks addr).sc = (k.tasks addr).sc := by rw [hsame.tasks]
  have hrequest (sc : Addr) : ((scsitap_complete_task k₁ addr).cmnds sc).request = (k.cmnds sc).request :=
    (scsitap_complete_task_request k₁ addr sc).trans (hsame.request sc)
  rw [complete_scsi_task_eq hbounded, hwrite]
  refine ⟨?_, by rw [scsitap_complete_task_tasks, hsame.tasks], hrequest, fun hlow => ?_, ?_⟩
  · simp only [Hba.queue, scsitap_complete_task_session, hsame.session]
  · have hshift : status >>> 7 = 0 := by
      apply UInt8.toNat_inj.mp
      rw [UInt8.toNat_shiftRight, Nat.shiftRight_eq_div_pow]
      exact Nat.div_eq_of_lt hlow
    rw [scsitap_complete_task_cmnds, hsc, Function.update_self, hresult, if_pos hshift]
  · have hafter : (scsitap_complete_task k₁ addr).buffer (k.tasks addr).sc =
        (k.cmnds (k.tasks addr).sc).request_buffer.contents k₁.mem (k.cmnds (k.tasks addr).sc).request_bufflen.toNat := by
      have hfields := hrequest (k.tasks addr).sc
      simp only [ScsiCmnd.request, Request.mk.injEq] at hfields
      obtain ⟨-, -, -, -, hbufflen, hbuffer⟩ := hfields
      rw [Hba.buffer, hbufflen, hbuffer, scsitap_complete_task_mem]
    have hsent : (task.finished status data).request_bufflen.toNat =
        if task.direction = 79 then 0 else (k.cmnds (k.tasks addr).sc).request_bufflen.toNat := by
      simp only [UserScsitapTask.finished]
      split
      · rfl
      · rw [hd.request_bufflen, Int.toNat_natCast]
    have hout : task.direction = 79 ↔ (k.cmnds (k.tasks addr).sc).sc_data_direction = .dma_to_device := by
      refine ⟨fun hdir => directionChar_eq (hd.direction ▸ hdir), fun hdir => ?_⟩
      rw [hd.direction, directionChar, if_pos hdir]
    have hlength := RequestBuffer.contents_length (fun table htable => (hplain.segments table htable).1) k.mem
    rw [hafter, hmem, hsent]
    by_cases hdir : (k.cmnds (k.tasks addr).sc).sc_data_direction = .dma_to_device
    · simp [hout.mpr hdir, hdir, Hba.buffer]
    · by_cases hzero : status = 0
      · rw [if_pos (show _ ∧ _ from ⟨hdir, hzero⟩), if_neg (mt hout.mp hdir)]
        by_cases hempty : (k.cmnds (k.tasks addr).sc).request_bufflen.toNat = 0
        · have hnone : slice data 0 (k.cmnds (k.tasks addr).sc).request_bufflen.toNat = [] := by
            rw [hempty, slice_zero]
          rw [if_neg (by omega), hnone]
          exact List.eq_nil_of_length_eq_zero (hlength.trans hempty)
        · rw [if_pos ⟨hzero, by omega⟩]
          refine (RequestBuffer.contents_fill hplain.segments _ _ _).trans ?_
          exact reply_finished (mt hout.mp hdir) status data _
      · simp [hzero, Hba.buffer]

/-- The completion of the first command. -/
theorem Detour.completion {s : System E} (h : s.Detour) {addr : Addr} {task : UserScsitapTask} {status : UInt8}
    {data : Mem} (hhead : s.hba.Head addr .received) (hd : s.hba.Describes addr task)
    (htask : (s.procs ()).task = task.finished status data) :
    Completed s.hba addr status data (s.afterComplete ()).hba := by
  have hfinishes := finishes h.sound.serving.ready (hd.number ▸ hhead.found) (h.plain addr hhead.mem) hd
    (htask ▸ h.sound.bounded ())
  rw [← htask] at hfinishes
  obtain ⟨rest, hqueue, -⟩ := hhead
  refine ⟨?_, hfinishes.tasks, hfinishes.result, hfinishes.buffer⟩
  have hleft := hfinishes.queue
  rw [hqueue, List.erase_cons_head] at hleft
  rw [hqueue]
  exact congrArg _ hleft.symm

theorem Detour.complete {s s' : System E} (h : s.Detour) (hstep : s.Step (.complete ()) s') : s'.Detour := by
  obtain ⟨hsound, halive⟩ := h.sound.complete hstep
  obtain ⟨_, ⟨call, status, data, hphase⟩, rfl⟩ := hstep
  have hstage := h.stage
  simp only [Hba.Stage, hphase] at hstage
  obtain ⟨addr, task, hhead, hd, hl, hcall, htask⟩ := hstage
  have hcompleted := h.completion hhead hd htask
  have hevolves : s.hba.Evolves (s.afterComplete ()).hba := by
    have hhba : (s.afterComplete ()).hba = (scsitap_ctl_write s.hba (.mapped (reply (s.procs ()).task))
        (6 + (s.procs ()).task.request_bufflen.toNat)).2 := by
      simp only [afterComplete, setProc, complete_scsi_task_eq (h.sound.bounded ())]
    rw [hhba]
    exact Hba.Valid.ctl_write_evolves _ _ _
  obtain ⟨hkept, hlun⟩ := h.kept hevolves.kept
  have hsucceeds := complete_scsi_task_succeeds h.sound.serving.ready (h.sound.bounded ()) h.sound.mapped
  have hpolling : ((s.afterComplete ()).procs ()).phase = .polling := by
    simp only [afterComplete, hsucceeds, setProc, Function.update_self]
    rfl
  refine ⟨hsound, hkept, hlun, ?_⟩
  obtain ⟨rest, hqueue, -, hrest⟩ := hhead
  obtain ⟨-, rfl⟩ := List.cons.inj (hqueue.symm.trans hcompleted.queue)
  simp only [Hba.Stage, hpolling, hcompleted.tasks]
  exact hrest

theorem Detour.step {s s' : System E} {act : Act Unit} (h : s.Detour) (hplain : s.Plain act)
    (hstep : s.Step act s') : s'.Detour := by
  cases act with
  | kernel op =>
    obtain ⟨hba, hop, rfl⟩ := hstep
    exact h.kernel hplain hop
  | wake pid => exact h.wake hstep
  | header pid => exact h.header hstep
  | claim pid => exact h.claim hstep
  | receive pid => exact h.receive hstep
  | start pid => exact h.start hstep
  | run pid => exact h.run hstep
  | finish pid => exact h.finish hstep
  | complete pid => exact h.complete hstep
  | kill pid => exact hplain.elim
  | flush pid =>
    obtain ⟨shared, hphase, -, -⟩ := hstep
    exact absurd hphase (h.not_exited pid)

/-- The call of `run_scsi_command` is the one the first command of the queue asks for. -/
structure Calls (k : Hba) (addr : Addr) (call : Invocation) : Prop where
  lun : call.lun.toNat = (k.cmnds (k.tasks addr).sc).lun.toNat
  cdb : ∀ i : Fin 16, i.val < (k.cmnds (k.tasks addr).sc).cmd_len.toNat →
    call.cdb.get i = (k.cmnds (k.tasks addr).sc).cmnd.get i
  data : (k.cmnds (k.tasks addr).sc).sc_data_direction = .dma_to_device →
    slice call.data 0 (k.cmnds (k.tasks addr).sc).request_bufflen.toNat = k.buffer (k.tasks addr).sc
  data_size : call.data_size = (k.cmnds (k.tasks addr).sc).request_bufflen.toNat

theorem calls_invocation {k : Hba} {addr : Addr} {task : UserScsitapTask}
    (hplain : (k.cmnds (k.tasks addr).sc).request.Plain) (hd : k.Describes addr task)
    (hl : k.Loaded addr task) : Calls k addr task.invocation where
  lun := by
    have hlt : (k.cmnds (k.tasks addr).sc).lun.toNat < 256 := hplain.lun
    simp only [UserScsitapTask.invocation, hd.lun, UInt8.toNat_ofNat']
    omega
  cdb := hd.cdb
  data hdir := by
    have hdirection : task.direction = 79 := by rw [hd.direction, directionChar, if_pos hdir]
    rw [← hl hdir]
    simp [slice, UserScsitapTask.invocation, UserScsitapTask.dataOffset, hdirection, fromPointer]
  data_size := hd.request_bufflen

/-- The steps of a target up to the call for a command. -/
def Fetches : Act Unit → Prop
  | .wake _ => True
  | .header _ => True
  | .claim _ => True
  | .receive _ => True
  | .start _ => True
  | _ => False

/-- A step of this kind. -/
def Fetch (s : System E) (act : Act Unit) (s' : System E) : Prop := s.Step act s' ∧ Fetches act

theorem reachable_wake {s s₁ : System E} (h : s₁ = s ∨ s.Step (.wake ()) s₁) : lib.Reachable Fetch s s₁ := by
  rcases h with rfl | hstep
  · exact .refl
  · exact lib.Reachable.refl.tail ⟨hstep, trivial⟩

/-- While data is read its command is in the queue. -/
theorem Detour.queued_receiving {s : System E} (h : s.Detour) (hphase : (s.procs ()).phase = .receiving) :
    s.hba.queued = true := by
  have hstage := h.stage
  simp only [Hba.Stage, hphase] at hstage
  obtain ⟨addr, ⟨rest, hqueue, -⟩, -⟩ := hstage
  exact Hba.queued_iff.mpr fun hnil => List.cons_ne_nil addr rest (hqueue.symm.trans hnil)

/-- A call of `run_scsi_command` is under way for the commands queued in `s`. -/
def Calling (s s' : System E) : Prop :=
  (∃ call loc, (s'.procs ()).phase = .running call loc) ∧ s'.hba.queue = s.hba.queue

theorem Detour.calls_from_loaded {s : System E} (hphase : (s.procs ()).phase = .loaded) :
    ∃ s', lib.Reachable Fetch s s' ∧ Calling s s' := by
  have hstep : Step s (.start ()) (s.afterStart ()) := ⟨hphase, rfl⟩
  refine ⟨_, lib.Reachable.refl.tail ⟨hstep, trivial⟩, ?_, rfl⟩
  simp only [afterStart, setProc, Function.update_self]
  exact ⟨_, _, rfl⟩

theorem Detour.calls_from_receiving {s : System E} (h : s.Detour) (hphase : (s.procs ()).phase = .receiving) :
    ∃ s', lib.Reachable Fetch s s' ∧ Calling s s' := by
  obtain ⟨s₁, hwake, hawake, hhba, hphase₁⟩ := Reads.wakes (.inr hphase) (h.queued_receiving hphase)
  have hdetour : s₁.Detour := hwake.elim (fun hsame => hsame ▸ h) h.wake
  have hstep : Step s₁ (.receive ()) (s₁.afterReceive ()) :=
    ⟨⟨⟨hdetour.sound.serving.listed, hdetour.sound.serving.unlocked⟩, hawake⟩, hphase₁.trans hphase, rfl⟩
  obtain ⟨s', hreach, hcall, hqueue⟩ := Detour.calls_from_loaded (hdetour.receive_loads hstep)
  exact ⟨s', ((reachable_wake hwake).tail ⟨hstep, trivial⟩).trans hreach, hcall, hqueue.trans (congrArg Hba.queue hhba)⟩

theorem Detour.calls_from_claiming {s : System E} (h : s.Detour) (hphase : (s.procs ()).phase = .claiming) :
    ∃ s', lib.Reachable Fetch s s' ∧ Calling s s' := by
  have hstep : Step s (.claim ()) (s.afterClaim ()) :=
    ⟨⟨h.sound.serving.listed, h.sound.serving.unlocked⟩, hphase, rfl⟩
  have hdetour := h.claim hstep
  have hsame : (s.afterClaim ()).hba.queue = s.hba.queue := by
    simp only [afterClaim, setProc, get_scsi_task_claim_snd]
    exact scsitap_ioctl_receive_task_queue _ _
  have hstage := h.stage
  simp only [Hba.Stage, hphase] at hstage
  obtain ⟨addr, -, hd⟩ := hstage
  have hsucceeds := (get_scsi_task_claim_succeeds h.sound.serving.ready (s.procs ()).task).1
  have hafter : ((s.afterClaim ()).procs ()).phase = dispatch (s.procs ()).task := by
    simp only [afterClaim, hsucceeds, setProc, Function.update_self]
    rfl
  have hreach : ∃ s', lib.Reachable Fetch (s.afterClaim ()) s' ∧ Calling (s.afterClaim ()) s' := by
    by_cases hdir : (s.procs ()).task.direction = 79
    · exact hdetour.calls_from_receiving (by rw [hafter]; simp [dispatch, hdir])
    · have hin : (s.procs ()).task.direction = 73 := by
        rw [hd.direction, directionChar] at hdir ⊢
        split <;> simp_all
      exact calls_from_loaded (by rw [hafter]; simp [dispatch, hin])
  obtain ⟨s', hreach, hcall, hqueue⟩ := hreach
  exact ⟨s', (lib.Reachable.refl.tail ⟨hstep, trivial⟩).trans hreach, hcall, hqueue.trans hsame⟩

/-- A target that polls is offered the first command of the queue. -/
theorem Detour.offers {s : System E} (h : s.Detour) (hphase : (s.procs ()).phase = .polling) (hqueue : s.hba.queue ≠ []) :
    ∃ addr, offer s.hba = some addr ∧ (s.hba.cmnds (s.hba.tasks addr).sc).cmd_len.toNat ≤ 16 := by
  have hstage := h.stage
  simp only [Hba.Stage, hphase] at hstage
  obtain ⟨addr, rest, hcons⟩ := List.exists_cons_of_ne_nil hqueue
  have haddr : addr ∈ s.hba.queue := by rw [hcons]; exact .head _
  refine ⟨addr, ?_, (h.plain addr haddr).cmd_len⟩
  rw [offer, show s.hba.session.scsitap_queue = addr :: rest from hcons]
  exact List.find?_cons_of_pos (by simpa using hstage addr haddr)

/-- With its next steps a target that is not in a call yet makes one for the
first command of the queue. -/
theorem Detour.calls {s : System E} (h : s.Detour) (hqueue : s.hba.queue ≠ [])
    (hidle : ∀ call status data, (s.procs ()).phase ≠ .completing call status data) :
    ∃ s', lib.Reachable Fetch s s' ∧ Calling s s' := by
  have hstage := h.stage
  cases hphase : (s.procs ()).phase with
  | polling =>
    obtain ⟨addr, hoffer, hlen⟩ := h.offers hphase hqueue
    obtain ⟨s₁, hwake, hawake, hhba, hphase₁⟩ := Reads.wakes (.inl hphase) (Hba.queued_iff.mpr hqueue)
    have hdetour : s₁.Detour := hwake.elim (fun hsame => hsame ▸ h) h.wake
    rw [← hhba] at hoffer hlen
    have hstep := header_step hdetour.sound.serving (hphase₁.trans hphase) hawake hoffer hlen
    have hclaiming : ((s₁.setProc () .claiming
        (decoded s₁.hba addr (s₁.hba.tasks addr).type (s₁.procs ()).task)).procs ()).phase = .claiming := by
      simp [setProc]
    obtain ⟨s', hreach, hcall, hsame⟩ := (hdetour.header hstep).calls_from_claiming hclaiming
    exact ⟨s', ((reachable_wake hwake).tail ⟨hstep, trivial⟩).trans hreach, hcall, hsame.trans (congrArg Hba.queue hhba)⟩
  | claiming => exact h.calls_from_claiming hphase
  | receiving => exact h.calls_from_receiving hphase
  | loaded => exact calls_from_loaded hphase
  | running call loc => exact ⟨s, lib.Reachable.refl, ⟨call, loc, hphase⟩, rfl⟩
  | completing call status data => exact absurd hphase (hidle call status data)
  | exited => simp [Hba.Stage, hphase] at hstage
  | killed => simp [Hba.Stage, hphase] at hstage

/-- The detour of a command through a target is transparent. The target goes on
to call `run_scsi_command` for the first command of the queue; while a call is
under way it is the one that command asks for; and after the completion that
follows it, the command has the status returned, an inbound command without
error has the data the handler left, and any other buffer is as it was. -/
theorem detour_transparent {start s : System E} {trace : List (System E × Act Unit)} (h : start.Attached)
    (hrun : Run Step start trace s) (hplain : ∀ e ∈ trace, e.1.Plain e.2) :
    (s.hba.queue ≠ [] → (∀ call status data, (s.procs ()).phase ≠ .completing call status data) →
      ∃ s', lib.Reachable Step s s' ∧ Calling s s') ∧
    (∀ call loc, (s.procs ()).phase = .running call loc →
      ∃ addr, s.hba.Head addr .received ∧ Calls s.hba addr call) ∧
    ∀ call status data, (s.procs ()).phase = .completing call status data →
      ∃ addr, s.hba.Head addr .received ∧ Calls s.hba addr call ∧
        Step s (.complete ()) (s.afterComplete ()) ∧
        Completed s.hba addr status data (s.afterComplete ()).hba := by
  have hdetour : s.Detour := hrun.invariant_of_steps (.attached h)
    (fun _ _ _ hd hp hstep => hd.step hp hstep) hplain
  have hstage := hdetour.stage
  refine ⟨fun hqueue hidle => ?_, fun call loc hphase => ?_, fun call status data hphase => ?_⟩
  · obtain ⟨s', ⟨trace, hfetch⟩, hcalling⟩ := hdetour.calls hqueue hidle
    exact ⟨s', ⟨trace, hfetch.of_kind.1⟩, hcalling⟩
  all_goals simp only [Hba.Stage, hphase] at hstage
  · obtain ⟨addr, hhead, hd, hl, rfl⟩ := hstage
    exact ⟨addr, hhead, calls_invocation (hdetour.plain addr hhead.mem) hd hl⟩
  · obtain ⟨addr, task, hhead, hd, hl, rfl, htask⟩ := hstage
    exact ⟨addr, hhead, calls_invocation (hdetour.plain addr hhead.mem) hd hl,
      ⟨⟨hdetour.sound.serving.listed, hdetour.sound.serving.unlocked⟩, ⟨_, _, _, hphase⟩, rfl⟩,
      hdetour.completion hhead hd htask⟩

/-- The target has called `run_scsi_command` for the one command, and it has returned. -/
def started : System (silent Unit) := (reading.afterReceive ()).afterStart ()
def startedCall : Invocation := ((reading.afterReceive ()).procs ()).task.invocation
def returned : System (silent Unit) :=
  started.setProc () (.completing startedCall 0 startedCall.data) ((started.procs ()).task.finished 0 startedCall.data)

def returnedTrace : List (System (silent Unit) × Act Unit) :=
  [(claimed, .wake ()), (reading, .receive ()), (reading.afterReceive (), .start ()), (started, .finish ())]

theorem claimedTrace_plain : ∀ e ∈ claimedTrace, e.1.Plain e.2 := by
  have hplain : oneBlockOut.request.Plain :=
    { cmd_len := by decide, request_bufflen := by decide, mapped := trivial, lun := by decide,
      direction := by decide, positive := fun _ => by decide, segments := nofun }
  intro e he
  simp only [claimedTrace, List.mem_cons, List.not_mem_nil, or_false] at he
  rcases he with rfl | rfl | rfl | rfl | rfl
  · intro task ht
    cases ht
  · exact hplain
  · trivial
  · trivial
  · trivial

theorem claimed_detour : claimed.Detour :=
  claimed_run.invariant_of_steps (.attached alone_attached) (fun _ _ _ hd hp hstep => hd.step hp hstep) claimedTrace_plain

theorem silent_running (s : System (silent Unit)) : ((s.afterStart ()).procs ()).phase =
    .running (s.procs ()).task.invocation (s.procs ()).task.invocation.data := by
  simp only [afterStart, setProc, Function.update_self]
  rfl

theorem started_phase : (started.procs ()).phase = .running startedCall startedCall.data :=
  silent_running (reading.afterReceive ())

theorem returned_phase : (returned.procs ()).phase = .completing startedCall 0 startedCall.data := by
  simp only [returned, setProc, Function.update_self]

theorem returned_run : Run Step claimed returnedTrace returned := by
  have hstart : Step (reading.afterReceive ()) (.start ()) started :=
    ⟨(claimed_detour.wake reading_step).receive_loads reading_receive, rfl⟩
  have hfinish : Step started (.finish ()) returned := ⟨_, _, 0, _, started_phase, rfl, by rw [returned]⟩
  exact (((Run.nil.snoc reading_step).snoc reading_receive).snoc hstart).snoc hfinish

theorem returnedTrace_plain : ∀ e ∈ returnedTrace, e.1.Plain e.2 := by
  intro e he
  simp only [returnedTrace, List.mem_cons, List.not_mem_nil, or_false] at he
  rcases he with rfl | rfl | rfl | rfl <;> trivial

/-- The one block written reaches the handler, and its command comes back. -/
theorem detour_transparent_one_block : ∃ addr, returned.hba.Head addr .received ∧ Calls returned.hba addr startedCall ∧
    slice startedCall.data 0 512 = List.replicate 512 0xff ∧ Step returned (.complete ()) (returned.afterComplete ()) ∧
    Completed returned.hba addr 0 startedCall.data (returned.afterComplete ()).hba := by
  have hplain : ∀ e ∈ claimedTrace ++ returnedTrace, e.1.Plain e.2 :=
    List.forall_mem_append.mpr ⟨claimedTrace_plain, returnedTrace_plain⟩
  obtain ⟨addr, hhead, hcalls, hstep, hcompleted⟩ := (detour_transparent alone_attached
    (claimed_run.append returned_run) hplain).2.2 _ _ _ returned_phase
  refine ⟨addr, hhead, hcalls, ?_, hstep, hcompleted⟩
  obtain ⟨rest, hqueue, -⟩ := hhead
  obtain rfl : 8 = addr := (List.cons.inj (show [8] = addr :: rest from hqueue)).1
  have hlen : (returned.hba.cmnds (returned.hba.tasks 8).sc).request_bufflen.toNat = 512 := rfl
  have hmem : returned.hba.mem = fun _ => 0xff := rfl
  have hflat : (returned.hba.cmnds (returned.hba.tasks 8).sc).request_buffer = .flat 0 := rfl
  have hdata := hcalls.data rfl
  rw [hlen, Hba.buffer, hflat, hlen, hmem] at hdata
  exact hdata.trans (slice_const 0xff 0 512)

end System

end vscsi
