import Vscsi.Target.Owned
import Vscsi.Lib.Run

open lib

namespace vscsi

open api scsi scsi_target

/-- A target in its main loop. -/
structure Client where
  td : TargetData
  task : UserScsitapTask
  world : World

/-- A command as it reaches a target: the header that is read, the session that
delivers its data, and what the C library makes of the calls. -/
structure Exchange where
  task_buffer : Mem
  hba : Hba
  payload : List UInt8
  fuel : Nat
  choices : Nat → Choice

namespace Exchange

def direction (e : Exchange) : UInt8 := e.task_buffer 1

/-- The number of the LUN the command goes to. -/
def lun (e : Exchange) : UInt8 := UInt8.ofNat (unle32 (slice e.task_buffer 6 4)).toNat

def cdblen (e : Exchange) : UInt8 := e.task_buffer 10

/-- The 16 bytes of the CDB in the header. -/
def cdb (e : Exchange) : Cdb := .ofFn fun i => e.task_buffer (11 + i.val)

def request_bufflen (e : Exchange) : Int := int32 (unle32 (slice e.task_buffer 27 4)).toNat

/-- The same command with the same data, at the same time of the same process. -/
structure Same (e e' : Exchange) : Prop where
  header : ∀ i, i = 1 ∨ 6 ≤ i ∧ i < 31 → e'.task_buffer i = e.task_buffer i
  payload : e'.payload = e.payload
  clock : ∀ i, (e'.choices i).answer = (e.choices i).answer

end Exchange

namespace UserScsitapTask

/-- The data bytes that are handed to the kernel with the completion. -/
def reply (task : UserScsitapTask) : List UInt8 := slice task.request_buffer 6 task.request_bufflen.toNat

end UserScsitapTask

/-- One round of the main loop, up to the completion of the command. A command
that is neither inbound nor outbound is dropped. -/
inductive Client.Step (c : Client) (e : Exchange) : Client → Prop where
  | dropped (task : UserScsitapTask) (hheader : task_buffer_to_task e.task_buffer c.task = some task)
      (hin : task.direction ≠ 73) (hout : task.direction ≠ 79) : Client.Step c e { c with task }
  | ran (task task' : UserScsitapTask) (hheader : task_buffer_to_task e.task_buffer c.task = some task)
      (hloaded : loaded e.hba task = some task') (hpayload : delivered e.hba task = e.payload) (status : UInt8) (td' : TargetData) (m' : Machine Choice Space)
      (hexec : (run_scsi_command e.fuel c.td task'.invocation.lun task'.invocation.cdb
        task'.invocation.data_size).exec libc
          { state := { world := c.world, data := task'.invocation.data }, choices := e.choices } = .ok ((status, td'), m')) :
      Client.Step c e
        { td := td', task := (complete_scsi_task e.hba (task'.finished status m'.state.data)).2.2, world := m'.state.world }

/-- What a run of a command has to go by: the CDB as far as it is sent, and the data. -/
structure Faces (sent : Cdb) (n : Nat) (payload : List UInt8) (cdb : Cdb) (x : Space) : Prop where
  agree : ∀ i : Fin 16, i.val < n → cdb.get i = sent.get i
  data : slice x.data 0 payload.length = payload

section Rounds

variable {e : Exchange} {c d : Client} {task task' : UserScsitapTask}

/-- What a target makes of a header. -/
theorem task_buffer_to_task_fields (h : task_buffer_to_task e.task_buffer c.task = some task) :
    task.direction = e.direction ∧ UInt8.ofNat task.lun.toNat = e.lun ∧ task.request_bufflen = e.request_bufflen ∧
      ∀ i : Fin 16, i.val < e.cdblen.toNat → task.cdb.get i = e.cdb.get i := by
  unfold task_buffer_to_task at h
  simp only at h
  split at h
  · obtain rfl := Option.some.inj h
    refine ⟨rfl, by simp only [Exchange.lun], by simp only [Exchange.request_bufflen], fun i hi => ?_⟩
    have hlt : i.val < (e.task_buffer 10).toNat := hi
    simp [Exchange.cdb, hlt]
  · cases h

/-- The data that is handed to the kernel for an inbound command is what the
handler has left. -/
theorem reply_completed (k : Hba) (hin : task'.direction = 73) {n : Int} (hsize : task'.request_bufflen = n) (s : UInt8)
    (data : Mem) : (complete_scsi_task k (task'.finished s data)).2.2.reply = slice data 0 n.toNat := by
  have hoffset : task'.dataOffset = 6 := by
    rw [UserScsitapTask.dataOffset, hin]
    rfl
  have hlen : (task'.finished s data).request_bufflen = n := by
    simp only [UserScsitapTask.finished, hin, hsize]
    rfl
  simp only [UserScsitapTask.reply, complete_scsi_task, hlen]
  rw [slice_blit_disjoint _ (.inr (by simp)), slice_blit_disjoint _ (.inr (by simp)),
    slice_blit_disjoint _ (.inr (by decide))]
  refine List.map_congr_left fun i _ => ?_
  simp only [UserScsitapTask.finished, toPointer, hoffset]
  rw [if_neg (by omega), Nat.add_sub_cancel_left, Nat.zero_add]

/-- A command that has run has left what `run_scsi_command` has left. -/
structure Completed (c : Client) (e : Exchange) (d : Client) (cdb : Cdb) (m m' : Machine Choice Space) (s : UInt8) :
    Prop where
  exec : (run_scsi_command e.fuel c.td e.lun cdb e.request_bufflen).exec libc m = .ok ((s, d.td), m')
  before : m.state.world = c.world
  after : m'.state.world = d.world
  choices : m.choices = e.choices
  faces : Faces e.cdb e.cdblen.toNat e.payload cdb m.state
  payload : e.payload.length = if e.direction = 79 then e.request_bufflen.toNat else 0
  direction : d.task.direction = e.direction
  status : d.task.status = s.toNat
  reply : e.direction = 73 → d.task.reply = slice m'.state.data 0 e.request_bufflen.toNat

/-- A round drops its command or completes it. -/
theorem Client.Step.cases (h : c.Step e d) :
    e.direction ≠ 73 ∧ e.direction ≠ 79 ∧ d.td = c.td ∧ d.world = c.world ∧ d.task.direction = e.direction ∨
      (e.direction = 73 ∨ e.direction = 79) ∧ ∃ cdb m m' s, Completed c e d cdb m m' s := by
  cases h with
  | dropped task hheader hin hout =>
    obtain ⟨hdirection, -⟩ := task_buffer_to_task_fields hheader
    exact .inl ⟨hdirection ▸ hin, hdirection ▸ hout, rfl, rfl, hdirection⟩
  | ran task task' hheader hloaded hpayload status td' m' hexec =>
    obtain ⟨hdirection, hlun, hsize, hcdb⟩ := task_buffer_to_task_fields hheader
    obtain ⟨hlun', hcdb', hsize', hdata⟩ := loaded_invocation hloaded
    have htask := loaded_task hloaded
    have hlength : e.payload.length = if e.direction = 79 then e.request_bufflen.toNat else 0 := by
      rw [← hpayload, delivered, hdirection, hsize]
      split
      · rw [slice_length]
      · rfl
    have hbytes : slice task'.invocation.data 0 e.payload.length = e.payload := by
      rcases hdata with hin | ⟨hout, hslice⟩
      · have hnone : e.payload = [] := by
          rw [← hpayload, delivered, if_neg (by rw [hin]; decide)]
        rw [hnone, List.length_nil, slice_zero]
      · rw [hlength, if_pos (hdirection ▸ hout), ← hsize, hslice, hpayload]
    have hrun : (run_scsi_command e.fuel c.td e.lun task'.invocation.cdb e.request_bufflen).exec libc
        { state := { world := c.world, data := task'.invocation.data }, choices := e.choices } = .ok ((status, td'), m') := by
      rw [← hlun, ← hlun', ← hsize, ← hsize']
      exact hexec
    refine .inr ⟨hdata.imp (hdirection ▸ ·) fun h => hdirection ▸ h.1, _, _, m', status, hrun, rfl, rfl, rfl,
      ⟨fun i hi => ?_, hbytes⟩, hlength, ?_, rfl, fun hin => ?_⟩
    · rw [hcdb']
      exact hcdb i hi
    · rw [← hdirection, htask]
      rfl
    · have hdirection' : task'.direction = 73 := by
        rw [htask]
        exact hdirection.trans hin
      have hsize'' : task'.request_bufflen = e.request_bufflen := by
        rw [htask]
        exact hsize
      exact reply_completed e.hba hdirection' hsize'' status m'.state.data

theorem Client.Step.owned (h : c.Step e d) (hown : Owned c.td c.world) : Owned d.td d.world := by
  rcases h.cases with ⟨-, -, htd, hworld, -⟩ | ⟨-, cdb, m, m', s, hcompleted⟩
  · rw [htd, hworld]
    exact hown
  · rw [← hcompleted.before] at hown
    rw [← hcompleted.after]
    exact hown.keeps hcompleted.exec

end Rounds

/-- Every run keeps the LUNs apart. -/
theorem owned_run {start c : Client} {trace : List (Client × Exchange)} (hstart : Owned start.td start.world)
    (hrun : Run Client.Step start trace c) : Owned c.td c.world := by
  have hpreserve : ∀ c e d, Owned c.td c.world → True → Client.Step c e d → Owned d.td d.world :=
    fun _ _ _ h _ hstep => hstep.owned h
  exact hrun.invariant_of_steps (C := fun _ _ => True) (P := fun c => Owned c.td c.world) hstart hpreserve
    fun _ _ => trivial

theorem storing_exec {α : Type} (stores : List (Nat × List UInt8)) (a : α) (m : Machine Choice Space) :
    ∃ choices, (storing stores a).exec libc m =
      .ok (a, { state := { m.state with data := applied stores m.state.data }, choices }) := by
  induction stores generalizing m with
  | nil => exact ⟨m.choices, rfl⟩
  | cons s rest ih => exact ih (Code.next m { m.state with data := blit m.state.data s.1 s.2 })

/-- An inbound command that does nothing but stores leaves them in the request
buffer, over what was there. -/
theorem inbound_step (c : Client) (e : Exchange) (hin : e.direction = 73) (hcdblen : e.cdblen.toNat ≤ 16)
    (hpayload : e.payload = []) {stores : List (Nat × List UInt8)}
    (hstores : ∀ cdb : Cdb, (∀ i : Fin 16, i.val < e.cdblen.toNat → cdb.get i = e.cdb.get i) →
      Stores (run_scsi_command e.fuel c.td e.lun cdb e.request_bufflen) stores (0, c.td)) :
    ∃ d, c.Step e d ∧ d.td = c.td ∧ d.world = c.world ∧ d.task.direction = 73 ∧ d.task.status = 0 ∧
      d.task.reply = slice (applied stores (fromPointer c.task.request_buffer 6)) 0 e.request_bufflen.toNat ∧
      ∀ i, d.task.request_buffer (6 + i) = applied stores (fromPointer c.task.request_buffer 6) i := by
  obtain ⟨task, hheader, hbuffer⟩ : ∃ task, task_buffer_to_task e.task_buffer c.task = some task ∧
      task.request_buffer = c.task.request_buffer := by
    exact ⟨_, if_pos hcdblen, rfl⟩
  obtain ⟨hdirection, hlun, hsize, hcdb⟩ := task_buffer_to_task_fields hheader
  rw [hin] at hdirection
  have hloaded : loaded e.hba task = some task := by rw [loaded, if_pos hdirection]
  obtain ⟨hlun', hcdb', hsize', -⟩ := loaded_invocation hloaded
  have hrun := hstores task.invocation.cdb (by rw [hcdb']; exact hcdb)
  rw [← hlun, ← hlun', ← hsize, ← hsize'] at hrun
  have hoffset : task.dataOffset = 6 := by
    rw [UserScsitapTask.dataOffset, hdirection]
    rfl
  have hdata : task.invocation.data = fromPointer c.task.request_buffer 6 := by
    rw [UserScsitapTask.invocation, hoffset, hbuffer]
  obtain ⟨choices, hexec⟩ := storing_exec stores ((0 : UInt8), c.td)
    { state := { world := c.world, data := task.invocation.data }, choices := e.choices }
  rw [← hrun] at hexec
  refine ⟨_, .ran task task hheader hloaded (by rw [delivered, if_neg (by rw [hdirection]; decide), hpayload]) 0 c.td _ hexec,
    rfl, rfl, hdirection, rfl, ?_, fun i => ?_⟩
  · rw [reply_completed e.hba hdirection hsize, hdata]
  · simp only [complete_scsi_task]
    rw [blit_of_ge _ (by rw [List.length_singleton]; omega), blit_of_ge _ (by rw [le32_length]; omega),
      blit_of_ge _ (by rw [List.length_singleton]; omega)]
    simp only [UserScsitapTask.finished, toPointer, hoffset, hdata]
    rw [if_neg (by omega), Nat.add_sub_cancel_left]

/-- The header of an inbound command for LUN 0 with a six byte CDB. -/
def inboundHeader (cdb : List UInt8) (request_bufflen : UInt8) : Mem := fun i =>
  ([68, 73, 1, 0, 0, 0, 0, 0, 0, 0, 6] ++ (cdb ++ List.replicate (16 - cdb.length) 0) ++ [request_bufflen, 0, 0, 0]).getD i 0

def inbound (cdb : List UInt8) (request_bufflen : UInt8) : Exchange where
  task_buffer := inboundHeader cdb request_bufflen
  hba := .fresh
  payload := []
  fuel := 0
  choices _ := .whole

/-- A target that has been started on a new disk of one MiB. -/
def diskClient : Client where
  td := diskTarget 1
  task := register_scsi_host
  world := diskWorld 1

theorem diskClient_owned : Owned (diskTarget 1) (diskWorld 1) := by
  obtain ⟨-, fh, inode, f, hmounted⟩ := (disk_made 1).mounted
  exact .single rfl rfl ⟨_, _, _, _, _, _, rfl⟩ ⟨fh, inode, hmounted.lun_fh, World.volume_iff.mp hmounted.volume⟩ rfl rfl
    rfl rfl

end vscsi
