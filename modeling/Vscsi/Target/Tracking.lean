import Vscsi.Kernel.Buffers
import Vscsi.Kernel.Numbers
import Vscsi.Target.Processes
import Vscsi.Target.Queue
import Vscsi.Target.Transparency

open lib

namespace vscsi

open hba device api

/-- What a target holds once it has read a header: which submission it is of, its
request, and the bytes of the buffer. -/
structure Held where
  seq : Nat
  request : Request
  sent : List UInt8

namespace Held

/-- The fields of a task ask for the request. -/
structure Asks (sub : Held) (task : UserScsitapTask) : Prop where
  lun : task.lun = sub.request.lun
  direction : task.direction = directionChar sub.request.sc_data_direction
  cdb : ∀ i : Fin 16, i.val < sub.request.cmd_len.toNat → task.cdb.get i = sub.request.cmnd.get i
  request_bufflen : task.request_bufflen = sub.request.request_bufflen.toNat

/-- The call of `run_scsi_command` is the one the request asks for. -/
structure Calls (sub : Held) (call : Invocation) : Prop where
  lun : call.lun.toNat = sub.request.lun.toNat
  cdb : ∀ i : Fin 16, i.val < sub.request.cmd_len.toNat → call.cdb.get i = sub.request.cmnd.get i
  data : sub.request.sc_data_direction = .dma_to_device → slice call.data 0 sub.request.request_bufflen.toNat = sub.sent
  data_size : call.data_size = sub.request.request_bufflen.toNat

end Held

namespace Hba

/-- What a target gets hold of with the header of a queued task. -/
def held (k : Hba) (addr : Addr) : Held where
  seq := (k.tasks addr).seq
  request := k.request addr
  sent := k.buffer (k.tasks addr).sc

/-- What anyone does to a session. Its tasks stay with their requests and the bytes
these have, or they are for later submissions. -/
structure Onward (k k' : Hba) : Prop where
  accepted : k.history.accepted.length ≤ k'.history.accepted.length
  queue : ∀ task ∈ k'.queue, k.Kept k' task ∧ k'.buffer (k'.tasks task).sc = k.buffer (k.tasks task).sc ∨
    k.history.accepted.length ≤ (k'.tasks task).seq

/-- What a target has decoded is about a submission, which has not changed as long as
it is queued. -/
structure Concerns (k : Hba) (sub : Held) (task : UserScsitapTask) : Prop where
  accepted : sub.seq < k.history.accepted.length
  plain : sub.request.Plain
  number : task.cmd_number.toNat = numberOf sub.seq
  asks : sub.Asks task
  same : ∀ addr ∈ k.queue, (k.tasks addr).seq = sub.seq → k.held addr = sub

/-- It comes with the data of the submission too. -/
structure Carried (k : Hba) (sub : Held) (task : UserScsitapTask) : Prop extends k.Concerns sub task where
  loaded : sub.request.sc_data_direction = .dma_to_device →
    slice task.request_buffer 31 sub.request.request_bufflen.toNat = sub.sent

/-- Neither the number of a submission nor that of a queued one has been given again. -/
structure Current (k : Hba) (n : Nat) : Prop where
  turn : k.WithinTurn
  close : k.history.accepted.length ≤ n + (2 ^ 32 - 1)

variable {k k' : Hba} {addr : Addr} {n : Nat} {sub : Held} {task : UserScsitapTask}

theorem Onward.refl (k : Hba) : k.Onward k :=
  ⟨Nat.le_refl _, fun task ht => .inl ⟨(Evolves.refl k).kept task ht, rfl⟩⟩

theorem Onward.of_evolves (h : k.Evolves k')
    (hbuffer : ∀ task ∈ k'.queue, k'.buffer (k'.tasks task).sc = k.buffer (k.tasks task).sc) : k.Onward k' :=
  ⟨h.accepted, fun task ht => .inl ⟨h.kept task ht, hbuffer task ht⟩⟩

/-- Without a change of memory the requests keep their bytes. -/
theorem Evolves.onward (h : k.Evolves k') (hmem : k'.mem = k.mem) : k.Onward k' := by
  refine .of_evolves h fun task ht => ?_
  have hrequest := (h.kept task ht).request
  simp only [ScsiCmnd.request, Request.mk.injEq] at hrequest
  obtain ⟨-, -, -, -, hbufflen, hbuffer⟩ := hrequest
  rw [Hba.buffer, Hba.buffer, hbufflen, hbuffer, hmem]

/-- A task that is kept, with its bytes, stays that of its submission. -/
theorem held_kept (hkept : k.Kept k' addr) (hbuffer : k'.buffer (k'.tasks addr).sc = k.buffer (k.tasks addr).sc) :
    k'.held addr = k.held addr := by
  rw [held, held, hkept.seq, hbuffer, request, hkept.request]

/-- The tasks of a submission that was made before are those that were queued for it. -/
theorem Onward.before (h : k.Onward k') (hn : n < k.history.accepted.length) (haddr : addr ∈ k'.queue)
    (hseq : (k'.tasks addr).seq = n) : k.Kept k' addr ∧ (k.tasks addr).seq = n ∧
      k'.buffer (k'.tasks addr).sc = k.buffer (k.tasks addr).sc := by
  rcases h.queue addr haddr with ⟨hkept, hbuffer⟩ | hlater
  · exact ⟨hkept, by rw [← hkept.seq, hseq], hbuffer⟩
  · omega

theorem Concerns.onward (h : k.Concerns sub task) (honward : k.Onward k') : k'.Concerns sub task where
  accepted := Nat.lt_of_lt_of_le h.accepted honward.accepted
  plain := h.plain
  number := h.number
  asks := h.asks
  same addr haddr hseq := by
    obtain ⟨hkept, hseq', hbuffer⟩ := honward.before h.accepted haddr hseq
    rw [held_kept hkept hbuffer]
    exact h.same addr hkept.queued hseq'

theorem Carried.onward (h : k.Carried sub task) (honward : k.Onward k') : k'.Carried sub task where
  toConcerns := h.toConcerns.onward honward
  loaded := h.loaded

/-- A queued task of the submission is the one the target has decoded. -/
theorem Concerns.describes (h : k.Concerns sub task) (hvalid : k.Valid) (haddr : addr ∈ k.queue)
    (hseq : (k.tasks addr).seq = sub.seq) : k.Describes addr task := by
  have hrequest : k.request addr = sub.request := congrArg Held.request (h.same addr haddr hseq)
  refine ⟨UInt32.toNat_inj.mp ?_, ?_, ?_, ?_, ?_⟩
  · rw [h.number, hvalid.queued_number haddr, hseq]
  · exact h.asks.lun.trans (congrArg Request.lun hrequest).symm
  · exact h.asks.direction.trans (congrArg (fun r => directionChar r.sc_data_direction) hrequest).symm
  · intro i hi
    have hlen : sub.request.cmd_len = (k.cmnds (k.tasks addr).sc).cmd_len := (congrArg Request.cmd_len hrequest).symm
    exact (h.asks.cdb i (by rwa [hlen])).trans (congrArg (·.cmnd.get i) hrequest).symm
  · exact h.asks.request_bufflen.trans (congrArg (fun r => (r.request_bufflen.toNat : Int)) hrequest).symm

/-- The call that is made with the data is the one the submission asks for. -/
theorem Carried.calls (h : k.Carried sub task) : sub.Calls task.invocation where
  lun := by
    have hlt := h.plain.lun
    simp only [UserScsitapTask.invocation, h.asks.lun, UInt8.toNat_ofNat']
    omega
  cdb := h.asks.cdb
  data hout := by
    have hdirection : task.direction = 79 := by rw [h.asks.direction, directionChar, if_pos hout]
    rw [← h.loaded hout]
    simp [slice, UserScsitapTask.invocation, UserScsitapTask.dataOffset, hdirection, fromPointer]
  data_size := h.asks.request_bufflen

/-- Up to the first full turn no number is given again. -/
theorem current_of_le (h : k.history.accepted.length ≤ 2 ^ 32 - 1) (n : Nat) : k.Current n where
  turn _ _ := Nat.le_trans h (Nat.le_add_left _ _)
  close := Nat.le_trans h (Nat.le_add_left _ _)

/-- The number that a target has decoded finds the submission it is about, or nothing. -/
theorem Concerns.found (h : k.Concerns sub task) (hvalid : k.Valid) (hcurrent : k.Current sub.seq)
    (hfound : task_of_cmd k task.cmd_number = some addr) : addr ∈ k.queue ∧ (k.tasks addr).seq = sub.seq := by
  obtain ⟨haddr, hnumber⟩ := task_of_cmd_some hfound
  have hnumbers : numberOf (k.tasks addr).seq = numberOf sub.seq := by
    rw [← hvalid.queued_number haddr, hnumber, h.number]
  have hturn := hcurrent.turn addr haddr
  have hclose := hcurrent.close
  have hlt := hvalid.seq_lt haddr
  have hlt' := h.accepted
  exact ⟨haddr, numberOf_injective_of_close hnumbers (by omega) (by omega)⟩

/-- If it finds nothing the submission is not queued any more. -/
theorem Concerns.gone (h : k.Concerns sub task) (hvalid : k.Valid) (hnone : task_of_cmd k task.cmd_number = none) :
    ¬ k.Queued sub.seq := by
  rintro ⟨addr, haddr, hseq⟩
  refine task_of_cmd_eq_none.mp hnone addr haddr (UInt32.toNat_inj.mp ?_)
  rw [hvalid.queued_number haddr, h.number, hseq]

/-- The header of a queued task is about its submission. -/
theorem Valid.concerns (h : k.Valid) (haddr : addr ∈ k.queue) (hlun : (k.tasks addr).lun = (k.request addr).lun)
    (hplain : (k.request addr).Plain) (type : UInt8) (task : UserScsitapTask) :
    k.Concerns (k.held addr) (decoded k addr type task) where
  accepted := h.seq_lt haddr
  plain := hplain
  number := h.queued_number haddr
  asks := by
    have hbufflen : (k.cmnds (k.tasks addr).sc).request_bufflen.toNat ≤ 131072 := hplain.request_bufflen
    constructor
    · exact hlun
    · rfl
    · intro i hi
      have hlt : i.val < (k.cmnds (k.tasks addr).sc).cmd_len.toNat := hi
      simp [decoded, hlt, held, ScsiCmnd.request]
    · simp only [decoded]
      exact int32_of_range (by omega) (by omega)
  same addr' haddr' hseq := by rw [h.seq_injective haddr' haddr hseq]

/-- A completion changes the bytes of no other request. -/
theorem Valid.write_keeps (h : k.Valid) (hapart : k.Apart) (hready : k.session.flags = .ready)
    (hmapped : ∀ task ∈ k.queue, (k.cmnds (k.tasks task).sc).request_buffer.Mapped) {user : Mem} (htype : user 0 = 68)
    (count : Nat) : k.Onward (scsitap_ctl_write k (.mapped user) count).2 := by
  refine .of_evolves (Valid.ctl_write_evolves k _ _) fun task ht => ?_
  cases hfound : task_of_cmd k (unle32 (slice user 1 4)) with
  | none => rw [scsitap_ctl_write_unknown hready htype hfound]
  | some addr =>
    obtain ⟨haddr, -⟩ := task_of_cmd_some hfound
    obtain ⟨k₁, hsame, hmem, -, hwrite⟩ := scsitap_ctl_write_completes hready htype hfound (hmapped addr haddr) count
    rw [hwrite] at ht ⊢
    have hqueue : (scsitap_complete_task k₁ addr).queue = k.queue.erase addr := by
      simp only [Hba.queue, scsitap_complete_task_session, hsame.session]
    rw [hqueue, h.nodup.mem_erase_iff] at ht
    have htasks : (scsitap_complete_task k₁ addr).tasks = k.tasks := by rw [scsitap_complete_task_tasks, hsame.tasks]
    have hrequest := (scsitap_complete_task_request k₁ addr (k.tasks task).sc).trans (hsame.request (k.tasks task).sc)
    simp only [ScsiCmnd.request, Request.mk.injEq] at hrequest
    obtain ⟨-, -, -, -, hbufflen, hbuffer⟩ := hrequest
    rw [htasks, Hba.buffer, Hba.buffer, hbufflen, hbuffer]
    refine RequestBuffer.contents_covered fun a hcovers => ?_
    have hother : ¬ (k.request addr).Covers a := hapart task ht.2 addr haddr ht.1 a hcovers
    rw [scsitap_complete_task_mem, hmem]
    split
    · exact RequestBuffer.fill_uncovered hother user 6
    · rfl

end Hba

/-- A target that is in no command. -/
def Phase.Idle {Local : Type} : Phase Local → Prop
  | .polling => True
  | .exited => True
  | .killed => True
  | _ => False

/-- How far a target is with a submission. -/
def Hba.Doing {Local : Type} (k : Hba) (sub : Held) (proc : Process Local) : Prop :=
  match proc.phase with
  | .claiming => k.Concerns sub proc.task
  | .receiving => k.Concerns sub proc.task
  | .loaded => k.Carried sub proc.task
  | .running call _ => k.Carried sub proc.task ∧ call = proc.task.invocation
  | .completing call status data => ∃ task, k.Carried sub task ∧ call = task.invocation ∧ proc.task = task.finished status data
  | _ => True

theorem Hba.Doing.onward {Local : Type} {k k' : Hba} {sub : Held} {proc : Process Local} (h : k.Doing sub proc)
    (honward : k.Onward k') : k'.Doing sub proc := by
  unfold Hba.Doing at h ⊢
  cases hphase : proc.phase <;> simp only [hphase] at h ⊢
  · exact h.onward honward
  · exact h.onward honward
  · exact h.onward honward
  · exact ⟨h.1.onward honward, h.2⟩
  · obtain ⟨task, hcarried, hrest⟩ := h
    exact ⟨task, hcarried.onward honward, hrest⟩

/-- A session with its targets, and the submission whose header each of them has read
last, as it was then; no code reads that. -/
structure Watched {Pid : Type} (E : Engine Pid) where
  system : System E
  held : Pid → Option Held

namespace Watched

variable {Pid : Type} [DecidableEq Pid] {E : Engine Pid}

/-- What the targets hold once the step has been made. -/
def after (w : Watched E) : Act Pid → Pid → Option Held
  | .header pid => Function.update w.held pid ((offer w.system.hba).map w.system.hba.held)
  | _ => w.held

def Step (w : Watched E) (act : Act Pid) (w' : Watched E) : Prop :=
  w.system.Step act w'.system ∧ w'.held = w.after act

/-- The mid layer prepares, submits and aborts plain commands and resets the host. It
leaves the buffers of queued commands alone, and a command that it submits shares no
memory with them. A target asks for data before the number of its command is given
again. -/
def Proper (w : Watched E) : Act Pid → Prop
  | .kernel (.prepare _ _ mem) => ∀ task ∈ w.system.hba.queue,
      (w.system.hba.request task).request_buffer.contents mem (w.system.hba.request task).request_bufflen.toNat =
        w.system.hba.buffer (w.system.hba.tasks task).sc
  | .kernel (.queuecommand sc _) => (w.system.hba.cmnds sc).request.Plain ∧
      ∀ task ∈ w.system.hba.queue, ∀ a, (w.system.hba.cmnds sc).request.Covers a → ¬ (w.system.hba.request task).Covers a
  | .kernel (.eh_abort _) => True
  | .kernel .eh_host_reset => True
  | .kernel _ => False
  | .receive pid => ∀ sub, w.held pid = some sub → w.system.hba.Current sub.seq
  | _ => True

/-- Every target that is in a command is in the one whose header it has read. -/
structure Tracked (w : Watched E) : Prop where
  sound : w.system.Sound
  plain : ∀ task ∈ w.system.hba.queue, (w.system.hba.request task).Plain
  lun : ∀ task ∈ w.system.hba.queue, (w.system.hba.tasks task).lun = (w.system.hba.request task).lun
  apart : w.system.hba.Apart
  doing : ∀ pid, (w.system.procs pid).phase.Idle ∨
    ∃ sub, w.held pid = some sub ∧ w.system.hba.Doing sub (w.system.procs pid)

end Watched

end vscsi
