import Vscsi.Scsi.Disk
import Vscsi.Target.Tracking
import Vscsi.Target.Volumes

open lib

namespace vscsi

open hba device api scsi scsi_target

/-- One command is queued, and this is what was submitted. -/
structure Hba.Single (k : Hba) (addr : Addr) (sub : Held) : Prop where
  queue : k.queue = [addr]
  held : k.held addr = sub

theorem Mounted.extent? {ld : LunData} {w : World} {fh inode : Nat} {f : File} (h : Mounted ld w fh inode f)
    {kind : MediaCommand} {cdb : Cdb} (hopcode : cdb.get 0 = kind.opcode) :
    ld.extent? cdb = some (MediaCommand.lba cdb * 512, kind.length cdb * 512) := by
  have hblock : ld.block_size.toNat = 512 := by
    rw [h.block_size]
    rfl
  rw [LunData.extent?, h.cmds, hblock]
  cases kind <;> simp [blocks, hopcode, MediaCommand.opcode, MediaCommand.lba, MediaCommand.length]

/-- READ(10) or WRITE(10) of the first block of a LUN. -/
def oneBlock (kind : MediaCommand) (n : UInt8) : ScsiCmnd := { ScsiCmnd.zero with
  lun := n.toUInt32
  cmd_len := 10
  cmnd := cdb10 kind.opcode 0 1
  sc_data_direction := if kind = .read10 then .dma_from_device else .dma_to_device
  request_bufflen := 512 }

section OneBlock

variable {kind : MediaCommand} {n : UInt8} {td : TargetData} {w : World}

theorem oneBlock_number (kind : MediaCommand) (n : UInt8) : (oneBlock kind n).request.number = n := by
  change UInt8.ofNat n.toUInt32.toNat = n
  rw [UInt8.toNat_toUInt32, UInt8.ofNat_toNat]

theorem oneBlock_opcode (kind : MediaCommand) (n : UInt8) : (oneBlock kind n).request.cmnd.get 0 = kind.opcode := rfl

theorem oneBlock_direction (kind : MediaCommand) (n : UInt8) : (oneBlock kind n).request.sc_data_direction =
    if kind = .read10 then .dma_from_device else .dma_to_device := rfl

theorem oneBlock_plain (kind : MediaCommand) (n : UInt8) : (oneBlock kind n).request.Plain where
  cmd_len := by change (10 : UInt8).toNat ≤ 16; decide
  request_bufflen := by change (512 : UInt32).toNat ≤ 131072; decide
  mapped := trivial
  lun := by
    change n.toUInt32.toNat < 256
    rw [UInt8.toNat_toUInt32]
    exact n.toNat_lt
  direction := by
    rw [oneBlock_direction]
    split <;> simp
  positive := fun _ => by change 1 ≤ (512 : UInt32).toNat; decide
  segments := nofun

theorem oneBlock_extent (hkind : kind ≠ .write12) {ld : LunData} {fh inode : Nat} {f : File} (h : Mounted ld w fh inode f) :
    ld.extent? (oneBlock kind n).request.cmnd = some (0, 512) := by
  rw [h.extent? (oneBlock_opcode kind n)]
  have hlba : MediaCommand.lba (oneBlock kind n).request.cmnd = 0 := lba_cdb10 kind.opcode 0 1
  have hlength : kind.length (oneBlock kind n).request.cmnd = 1 := length_cdb10 hkind kind.opcode 0 1
  rw [hlba, hlength]

theorem oneBlock_fits (hkind : kind ≠ .write12) (hdisks : Disks td w) (hsbc : ∀ ld ∈ td.luns, ld.cmds = some .sbc) (n : UInt8) :
    (oneBlock kind n).request.Fits td where
  complete := by
    change needs kind.opcode ≤ (10 : UInt8).toNat
    cases kind <;> decide
  restarts := by
    rintro ⟨ld, cmds, -, -, -, hopcode, -⟩
    rw [oneBlock_opcode] at hopcode
    cases kind <;> exact absurd hopcode (by decide)
  bufflen ld e hlun he := by
    have hld := List.mem_of_find?_eq_some hlun
    obtain ⟨fh, inode, f, hmounted⟩ := hdisks.mounted ld hld (hsbc ld hld)
    obtain rfl := Option.some.inj ((oneBlock_extent hkind hmounted).symm.trans he)
    rfl
  direction ld e _ _ _ := by
    rw [oneBlock_direction, oneBlock_opcode]
    cases kind <;> decide

/-- What it does to arrays of bytes. -/
theorem oneBlock_images {d d' : Images} {r : Returned} (hstep : Images.Step td d r d') (hkind : kind ≠ .write12)
    (hrequest : r.request = (oneBlock kind n).request) {ld : LunData} {fh inode : Nat} {f : File}
    (hlun : newest td n = some ld) (hmounted : Mounted ld w fh inode f) (hbound : 512 ≤ bound ld) :
    r.result = 0 ∧ (kind = .read10 → r.received = slice (d n) 0 512 ∧ d' = d) ∧
      (kind ≠ .read10 → d' = Function.update d n (blit (d n) 0 r.sent)) := by
  have hnumber : r.request.number = n := by rw [hrequest, oneBlock_number]
  have hopcode : r.request.cmnd.get 0 = kind.opcode := by rw [hrequest, oneBlock_opcode]
  have hextent : ld.extent? r.request.cmnd = some (0, 512) := by rw [hrequest, oneBlock_extent hkind hmounted]
  rw [← hnumber] at hlun
  cases hstep with
  | refused ld' e hlun' hextent' hbeyond =>
    obtain rfl := Option.some.inj (hlun.symm.trans hlun')
    obtain rfl := Option.some.inj (hextent.symm.trans hextent')
    exact absurd hbeyond (Int.not_lt.mpr hbound)
  | read ld' e hlun' hextent' _ hread hresult hreceived =>
    obtain rfl := Option.some.inj (hlun.symm.trans hlun')
    obtain rfl := Option.some.inj (hextent.symm.trans hextent')
    rw [hnumber] at hreceived
    refine ⟨hresult, fun _ => ⟨hreceived, rfl⟩, fun hwrite => ?_⟩
    rw [hopcode] at hread
    cases kind with
    | read10 => exact absurd rfl hwrite
    | write10 => exact absurd hread (by decide)
    | write12 => exact absurd rfl hkind
  | written ld' e hlun' hextent' _ hwrite hresult =>
    obtain rfl := Option.some.inj (hlun.symm.trans hlun')
    obtain rfl := Option.some.inj (hextent.symm.trans hextent')
    rw [hopcode] at hwrite
    refine ⟨hresult, ?_, fun _ => by rw [hnumber]⟩
    rintro rfl
    exact absurd rfl hwrite
  | other hnone =>
    have hcontra := hnone ld hlun
    rw [hextent] at hcontra
    cases hcontra

end OneBlock

namespace System

section Engines

variable {E : Engine Unit} {s s' : System E} {act : Act Unit} {addr : Addr} {sub : Held}

/-- The steps of a target up to the completion of a command. -/
def Works (act : Act Unit) : Prop := Fetches act ∨ act = .run () ∨ act = .finish ()

/-- A step of this kind. -/
def Work (s : System E) (act : Act Unit) (s' : System E) : Prop := s.Step act s' ∧ Works act

/-- Such steps are plain, and no request comes back by them. -/
theorem Works.plain (h : Works act) (s : System E) (td : TargetData) :
    s.Plain act ∧ s.Fitting td act ∧ s.returned? act = none := by
  cases act with
  | wake pid => exact ⟨trivial, trivial, rfl⟩
  | header pid => exact ⟨trivial, trivial, rfl⟩
  | claim pid => exact ⟨trivial, trivial, rfl⟩
  | receive pid => exact ⟨trivial, trivial, rfl⟩
  | start pid => exact ⟨trivial, trivial, rfl⟩
  | run pid => exact ⟨trivial, trivial, rfl⟩
  | finish pid => exact ⟨trivial, trivial, rfl⟩
  | _ => rcases h with h | h | h <;> cases h

/-- Until the completion the command stays what it was. -/
theorem single_work (h : s.hba.Single addr sub) (hstep : Work s act s') : s'.hba.Single addr sub := by
  obtain ⟨hstep, hworks⟩ := hstep
  cases act with
  | kernel op => rcases hworks with h | h | h <;> cases h
  | complete pid => rcases hworks with h | h | h <;> cases h
  | claim pid =>
    obtain ⟨-, -, rfl⟩ := hstep
    rw [afterClaim_hba]
    have hqueue := scsitap_ioctl_receive_task_queue s.hba (s.procs pid).task.cmd_number.toNat
    have hkept := (Hba.Valid.receive_task_evolves s.hba (s.procs pid).task.cmd_number.toNat).kept addr
      (by rw [hqueue, h.queue]; exact .head _)
    refine ⟨hqueue.trans h.queue, (Hba.held_kept hkept ?_).trans h.held⟩
    rw [hkept.sc]
    exact Hba.buffer_congr (by rw [← hkept.request, hkept.sc]) (scsitap_ioctl_receive_task_mem _ _)
  | _ =>
    rw [step_hba hstep nofun nofun nofun]
    exact h

/-- A command that the mid layer submits while nothing is queued. -/
theorem Detour.submits (h : s.Detour) (hempty : s.hba.queue = []) {cmnd : ScsiCmnd} (hptr : cmnd.SCp_ptr = none)
    (mem : Mem) : ∃ s₁ s₂ : System E, ∃ sub : Held,
    s.Step (.kernel (.prepare 0 cmnd mem)) s₁ ∧ s.Plain (.kernel (.prepare 0 cmnd mem)) ∧
    s₁.Step (.kernel (.queuecommand 0 (some 8))) s₂ ∧ (s₁.hba.cmnds 0).request = cmnd.request ∧
    s₂.hba.Single 8 sub ∧ sub.request = cmnd.request ∧
    sub.sent = cmnd.request_buffer.contents mem cmnd.request_bufflen.toNat ∧
    s₂.shared = s.shared ∧ s₂.procs = s.procs := by
  have hidle : s.hba.Idle 0 := by
    intro task ht
    rw [show s.hba.session.scsitap_queue = [] from hempty] at ht
    cases ht
  let k₁ := s.hba.apply (.prepare 0 cmnd mem)
  have hserving := h.sound.serving
  have hprepare : s.hba.Step (.prepare 0 cmnd mem) k₁ := ⟨hserving.listed, fun _ => hserving.unlocked, ⟨hidle, hptr⟩, rfl⟩
  have hqueue : k₁.Step (.queuecommand 0 (some 8)) (k₁.apply (.queuecommand 0 (some 8))) := by
    refine ⟨hserving.listed, fun _ => hserving.unlocked, ⟨hidle, fun task _ ht => ?_⟩, rfl⟩
    rw [show k₁.session.scsitap_queue = [] from hempty] at ht
    cases ht
  have hcmnd : (k₁.cmnds 0).request = cmnd.request := by simp [k₁, Hba.apply]
  obtain ⟨-, ha⟩ := scsitap_queuecommand_accepted k₁ 0 8 hserving.ready
  have hsc : ((scsitap_queuecommand k₁ 0 (some 8)).2.tasks 8).sc = 0 := by
    rw [ha.tasks, Function.update_self, newTask]
  refine ⟨{ s with hba := k₁ }, { s with hba := k₁.apply (.queuecommand 0 (some 8)) }, _, ⟨_, hprepare, rfl⟩, ?_,
    ⟨_, hqueue, rfl⟩, hcmnd, ⟨?_, rfl⟩, ?_, ?_, rfl, rfl⟩
  · intro task ht
    rw [hempty] at ht
    cases ht
  · exact ha.queue.trans (by rw [show k₁.queue = [] from hempty]; rfl)
  · simp only [Hba.held, Hba.request, Hba.apply, hsc, ha.request, hcmnd]
  · simp only [Hba.held, Hba.apply, hsc]
    rw [Hba.buffer_congr (ha.request 0) ha.mem]
    simp [k₁, Hba.apply, Hba.buffer]

end Engines

variable {s s' : System (targets Unit)} {call : Invocation} {td : TargetData} {addr : Addr} {sub : Held}

/-- A call that is left alone runs its code. -/
theorem run_returns {code : Code (UInt8 × TargetData)} {data : Mem} {choices : Nat → Choice} {status : UInt8}
    {m : Machine Choice Space} (hphase : (s.procs ()).phase = .running call (.executing call code data))
    (hexec : code.exec libc { state := s.shared.space () data, choices } = .ok ((status, td), m)) :
    ∃ s', lib.Reachable Work s s' ∧ (s'.procs ()).phase = .running call (.returned status m.state.data) ∧
      s'.hba = s.hba ∧ s'.shared.world () = m.state.world ∧ s'.shared.td () = td := by
  induction code generalizing s data choices with
  | ret r =>
    cases hexec
    have hleave : Running.Step () (.executing call (.ret (status, td)) data) s.shared (.returned status data)
        { s.shared with td := Function.update s.shared.td () td } := .leave call status td data s.shared
    obtain ⟨s', hstep, hphase', hshared, hhba⟩ := ran hphase rfl hleave
    refine ⟨s', lib.Reachable.refl.tail ⟨hstep, .inr (.inl rfl)⟩, hphase', hhba, ?_, ?_⟩
    · rw [hshared]
      rfl
    · simp only [hshared, Function.update_self]
  | fail e => cases hexec
  | call c next ih =>
    rw [Prog.exec] at hexec
    cases hcall : libc c (choices 0) (s.shared.space () data) with
    | error e => simp [hcall] at hexec
    | ok result =>
      obtain ⟨r, y⟩ := result
      simp only [hcall] at hexec
      obtain ⟨s₁, hstep, hphase₁, hshared, hhba⟩ :=
        ran hphase rfl (.libc call c next data s.shared (choices 0) r y hcall)
      have hspace : s₁.shared.space () y.data = y := by
        simp only [hshared, Storage.space, Storage.world, Storage.after, Function.update_self]
      rw [← hspace] at hexec
      obtain ⟨s', hreach, hphase', hhba', hworld, htd⟩ := ih r hphase₁ hexec
      exact ⟨s', (lib.Reachable.refl.tail ⟨hstep, .inr (.inl rfl)⟩).trans hreach, hphase', hhba'.trans hhba, hworld, htd⟩

/-- A target on its way to the call for the one command that is queued, with its
files as they were. -/
structure Fetching (s : System (targets Unit)) (addr : Addr) (sub : Held) (x : Storage Unit) : Prop where
  detour : s.Detour
  single : s.hba.Single addr sub
  shared : s.shared = x
  called : ∀ call loc, (s.procs ()).phase = .running call loc → loc = .called call

variable {x : Storage Unit} {act : Act Unit}

theorem Fetching.step (h : s.Fetching addr sub x) (hstep : Fetch s act s') : s'.Fetching addr sub x := by
  obtain ⟨hstep, hfetches⟩ := hstep
  have hworks : Works act := .inl hfetches
  have hshared : s'.shared = s.shared := by
    rcases step_storage hstep with hshared | ⟨pid, rfl, -⟩ | ⟨pid, _, _, _, rfl, -⟩ | ⟨pid, _, _, rfl, -⟩
    · exact hshared
    all_goals exact hfetches.elim
  refine ⟨h.detour.step (hworks.plain s (s.shared.td ())).1 hstep, single_work h.single ⟨hstep, hworks⟩, hshared.trans h.shared, ?_⟩
  intro call loc hphase
  cases step_progress hstep () with
  | other hproc => exact h.called call loc (by rw [← hproc, hphase])
  | idle _ _ _ hafter => exact absurd hphase (hafter call loc)
  | started _ _ hphase' =>
    obtain ⟨rfl, rfl⟩ := Phase.running.inj (hphase'.symm.trans hphase)
    rfl
  | ran _ _ _ hact =>
    rw [hact] at hfetches
    exact hfetches.elim
  | finished _ _ _ _ _ hphase' =>
    rw [hphase'] at hphase
    cases hphase
  | killed _ hphase' =>
    rw [hphase'] at hphase
    cases hphase
  | flushed n stream hact =>
    rw [hact] at hfetches
    exact hfetches.elim

/-- It comes to the call that the command asks for. -/
theorem Fetching.calls (h : s.Fetching addr sub x) (hphase : (s.procs ()).phase = .polling) :
    ∃ s' call, lib.Reachable Fetch s s' ∧ s'.Fetching addr sub x ∧
      (s'.procs ()).phase = .running call (.called call) ∧ sub.Calls call := by
  obtain ⟨s', hreach, ⟨call, loc, hphase'⟩, -⟩ := h.detour.calls (by rw [h.single.queue]; simp) (by simp [hphase])
  have hfetching : s'.Fetching addr sub x :=
    lib.Reachable.invariant (P := fun t => t.Fetching addr sub x) h (fun _ _ _ hf hstep => hf.step hstep) hreach
  obtain rfl := hfetching.called call loc hphase'
  refine ⟨s', call, hreach, hfetching, hphase', ?_⟩
  have hstage := hfetching.detour.stage
  simp only [Hba.Stage, hphase'] at hstage
  obtain ⟨first, hhead, hd, hl, rfl⟩ := hstage
  obtain rfl : first = addr := by
    have hmem := hhead.mem
    rw [hfetching.single.queue] at hmem
    exact List.mem_singleton.mp hmem
  have hcalls := calls_invocation (hfetching.detour.plain first hhead.mem) hd hl
  rw [← hfetching.single.held]
  exact ⟨hcalls.lun, hcalls.cdb, hcalls.data, hcalls.data_size⟩

/-- A target that waits for a command: nothing is queued. -/
structure Waits (s : System (targets Unit)) : Prop where
  detour : s.Detour
  polling : (s.procs ()).phase = .polling
  empty : s.hba.queue = []

/-- The mid layer has a target serve one command, which has come back when the target
waits again. -/
structure Served (s : System (targets Unit)) (cmnd : ScsiCmnd) (mem : Mem) (td : TargetData)
    (trace : List (System (targets Unit) × Act Unit)) (s' : System (targets Unit)) : Prop where
  run : Run Step s trace s'
  steps : ∀ e ∈ trace, e.1.Plain e.2 ∧ e.1.Fitting td e.2
  seen : ∃ r, seen returned? trace = [r] ∧ r.request = cmnd.request ∧
    r.sent = cmnd.request_buffer.contents mem cmnd.request_bufflen.toNat
  waits : s'.Waits

/-- The completion of the one command. -/
theorem single_completes (hdetour : s.Detour) (hsingle : s.hba.Single addr sub) {status : UInt8} {data : Mem}
    (hphase : (s.procs ()).phase = .completing call status data) :
    s.Step (.complete ()) (s.afterComplete ()) ∧ (s.afterComplete ()).Waits ∧ (s.afterComplete ()).shared = s.shared ∧
      ∃ r, s.returned? (.complete ()) = some r ∧ r.request = sub.request ∧ r.sent = sub.sent := by
  have hstep : s.Step (.complete ()) (s.afterComplete ()) :=
    ⟨⟨hdetour.sound.serving.listed, hdetour.sound.serving.unlocked⟩, ⟨call, status, data, hphase⟩, rfl⟩
  have hafter := hdetour.complete hstep
  have hpolling : ((s.afterComplete ()).procs ()).phase = .polling := by
    have hchecked : ((s.afterComplete ()).procs ()).phase = check (complete_scsi_task s.hba (s.procs ()).task).1 .polling := by
      rw [afterComplete, setProc_self]
    have halive := hafter.not_exited ()
    rw [hchecked] at halive ⊢
    unfold check at halive ⊢
    split
    · rename_i hfails
      exact absurd (if_pos hfails) halive
    · rfl
  have hstage := hdetour.stage
  simp only [Hba.Stage, hphase] at hstage
  obtain ⟨first, task, hhead, hd, -, -, htask⟩ := hstage
  have hqueue := (hdetour.completion hhead hd htask).queue
  rw [hsingle.queue] at hqueue
  refine ⟨hstep, ⟨hafter, hpolling, (List.cons.inj hqueue).2.symm⟩, rfl, ?_⟩
  rw [returned?, hsingle.queue, List.head?_cons, Option.map_some]
  refine ⟨_, rfl, ?_, ?_⟩ <;> rw [← hsingle.held] <;> rfl

/-- The steps that bring a command to the call for it, with nothing else queued. -/
def Brings (cmnd : ScsiCmnd) (s : System (targets Unit)) : Act Unit → Prop
  | .kernel (.prepare ..) => s.hba.queue = []
  | .kernel (.queuecommand sc _) => (s.hba.cmnds sc).request = cmnd.request
  | act => Fetches act

theorem Brings.plain {cmnd : ScsiCmnd} (h : Brings cmnd s act) (hplain : cmnd.request.Plain) (hfits : cmnd.request.Fits td) :
    s.Plain act ∧ s.Fitting td act ∧ s.returned? act = none := by
  cases act with
  | kernel op =>
    cases op with
    | prepare sc cmnd' mem =>
      refine ⟨fun task ht => ?_, trivial, rfl⟩
      rw [show s.hba.queue = [] from h] at ht
      cases ht
    | queuecommand sc slot =>
      have hrequest : (s.hba.cmnds sc).request = cmnd.request := h
      exact ⟨by rwa [Plain, hrequest], by rwa [Fitting, hrequest], rfl⟩
    | _ => exact h.elim
  | wake pid => exact ⟨trivial, trivial, rfl⟩
  | header pid => exact ⟨trivial, trivial, rfl⟩
  | claim pid => exact ⟨trivial, trivial, rfl⟩
  | receive pid => exact ⟨trivial, trivial, rfl⟩
  | start pid => exact ⟨trivial, trivial, rfl⟩
  | _ => exact h.elim

/-- A target that waits comes to the call for a plain command that the mid layer submits. -/
theorem Waits.calls (h : s.Waits) {cmnd : ScsiCmnd} (hptr : cmnd.SCp_ptr = none) (hplain : cmnd.request.Plain) (mem : Mem) :
    ∃ trace s' call sub, Run Step s trace s' ∧ (∀ e ∈ trace, Brings cmnd e.1 e.2 ∧ e.1.shared = s.shared) ∧
      s'.Fetching 8 sub s.shared ∧ (s'.procs ()).phase = .running call (.called call) ∧ sub.Calls call ∧
      sub.request = cmnd.request ∧ sub.sent = cmnd.request_buffer.contents mem cmnd.request_bufflen.toNat := by
  obtain ⟨s₁, s₂, sub, hprepare, hprepares, hqueue, hcmnd, hsingle, hrequest, hsent, hshared, hprocs⟩ :=
    h.detour.submits h.empty hptr mem
  have hqueues : s₁.Plain (.kernel (.queuecommand 0 (some 8))) := by rwa [Plain, hcmnd]
  have hpolling : (s₂.procs ()).phase = .polling := by rw [hprocs, h.polling]
  have hfetching : s₂.Fetching 8 sub s.shared :=
    ⟨(h.detour.step hprepares hprepare).step hqueues hqueue, hsingle, hshared, by simp [hpolling]⟩
  obtain ⟨s₃, call, ⟨fetch, hfetch⟩, hcalled, hphase, hcalls⟩ := hfetching.calls hpolling
  have hkept := hfetch.always_of_steps (C := fun _ _ => True) (I := fun t => t.Fetching 8 sub s.shared)
    (P := fun t => t.shared = s.shared) hfetching (fun t ht => Fetching.shared ht) (fun _ _ _ ht _ hstep => Fetching.step ht hstep)
    fun _ _ => trivial
  obtain ⟨hfetch, hfetches⟩ := hfetch.of_kind
  have hbefore : s₁.shared = s.shared := by
    obtain ⟨k, -, rfl⟩ := id hprepare
    rfl
  refine ⟨_, s₃, call, sub, ((Run.nil.snoc hprepare).snoc hqueue).append hfetch, fun e he => ?_, hcalled, hphase, hcalls,
    hrequest, hsent⟩
  simp only [List.nil_append, List.cons_append, List.mem_cons] at he
  rcases he with rfl | rfl | he
  · exact ⟨h.empty, rfl⟩
  · exact ⟨hcmnd, hbefore⟩
  · refine ⟨?_, hkept.1 e he⟩
    obtain ⟨t, act⟩ := e
    have hfetches := hfetches _ he
    cases act with
    | kernel op => exact hfetches.elim
    | _ => exact hfetches

/-- A target that waits and is then left alone serves a plain command, if the code that
it runs for it comes to an end. -/
theorem Waits.serves (h : s.Waits) {cmnd : ScsiCmnd} {mem : Mem} (hptr : cmnd.SCp_ptr = none) (hplain : cmnd.request.Plain)
    (hfits : cmnd.request.Fits td) {P : TargetData → World → Prop}
    (hends : ∀ sub call, Held.request sub = cmnd.request → sub.Calls call → ∃ fuel choices status td' m,
      (run_scsi_command fuel (s.shared.td ()) call.lun call.cdb call.data_size).exec libc
        { state := s.shared.space () call.data, choices } = .ok ((status, td'), m) ∧ P td' m.state.world) :
    ∃ trace s', Served s cmnd mem td trace s' ∧ P (s'.shared.td ()) (s'.shared.world ()) := by
  obtain ⟨before, s₃, call, sub, hrun, hbrings, hcalled, hphase₃, hcalls, hrequest, hsent⟩ := h.calls hptr hplain mem
  -- through the call
  obtain ⟨fuel, choices, status, td', m, hexec, hP⟩ := hends sub call hrequest hcalls
  obtain ⟨s₄, henter, hphase₄, hshared₄, hhba₄⟩ := ran hphase₃ hcalled.shared (.enter call fuel s.shared)
  rw [← hshared₄] at hexec hphase₄
  obtain ⟨s₅, hruns, hphase₅, hhba₅, hworld, htd⟩ := run_returns hphase₄ hexec
  have hfinish : s₅.Step (.finish ()) (s₅.setProc () (.completing call status m.state.data)
      ((s₅.procs ()).task.finished status m.state.data)) := ⟨call, _, status, _, hphase₅, rfl, rfl⟩
  have hwork : lib.Reachable Work s₃ _ :=
    ((lib.Reachable.refl.tail ⟨henter, .inr (.inl rfl)⟩).trans hruns).tail ⟨hfinish, .inr (.inr rfl)⟩
  have hsingle := lib.Reachable.invariant (P := fun t => t.hba.Single 8 sub) hcalled.single
    (fun _ _ _ hs hstep => single_work hs hstep) hwork
  obtain ⟨during, hwork⟩ := hwork
  obtain ⟨hwork, hworks⟩ := hwork.of_kind
  have hdetour := hwork.invariant_of_steps hcalled.detour (fun _ _ _ hd hp hstep => hd.step hp hstep)
    fun e he => ((hworks e he).plain e.1 td).1
  -- to the completion
  have hphase₆ : ((s₅.setProc () (.completing call status m.state.data)
      ((s₅.procs ()).task.finished status m.state.data)).procs ()).phase = .completing call status m.state.data := by
    rw [setProc_self]
  obtain ⟨hcomplete, hwaits, hshared', r, hreturned, hasked, hgot⟩ := single_completes hdetour hsingle hphase₆
  have hquiet : ∀ e ∈ before ++ during, e.1.Plain e.2 ∧ e.1.Fitting td e.2 ∧ e.1.returned? e.2 = none := fun e he =>
    (List.mem_append.mp he).elim (fun he => (hbrings e he).1.plain hplain hfits) fun he => (hworks e he).plain e.1 td
  have hsilent : seen returned? (before ++ during) = [] := List.filterMap_eq_nil_iff.mpr fun e he => (hquiet e he).2.2
  refine ⟨_, _, ⟨(hrun.append hwork).snoc hcomplete, fun e he => ?_, ⟨r, ?_, hasked.trans hrequest, hgot.trans hsent⟩,
    hwaits⟩, ?_⟩
  · rcases List.mem_append.mp he with he | he
    · exact (hquiet e he).imp_right And.left
    · rw [List.mem_singleton.mp he]
      exact ⟨trivial, trivial⟩
  · rw [seen_snoc, hsilent, hreturned]
    rfl
  · rw [hshared', setProc, hworld, htd]
    exact hP

/-- Its LUNs with the commands of a disk are disks. -/
structure Standby (td : TargetData) (s : System (targets Unit)) : Prop where
  waits : s.Waits
  target : s.shared.td () = td
  disks : Disks td (s.shared.world ())

/-- A target that stands by, and is left alone, serves every plain command on the blocks
of a disk that fits, and stands by again. -/
theorem Standby.serves (h : s.Standby td) {cmnd : ScsiCmnd} {mem : Mem} (hptr : cmnd.SCp_ptr = none)
    (hplain : cmnd.request.Plain) (hfits : cmnd.request.Fits td) {kind : MediaCommand}
    (hopcode : cmnd.cmnd.get 0 = kind.opcode) {ld : LunData} (hld : ld ∈ td.luns) (hsbc : ld.cmds = some .sbc)
    (hlun : cmnd.request.number = ld.lun) : ∃ trace s', Served s cmnd mem td trace s' ∧ s'.Standby td := by
  obtain ⟨fh, inode, f, hmounted⟩ := h.disks.mounted ld hld hsbc
  have hends : ∀ sub call, Held.request sub = cmnd.request → sub.Calls call → ∃ fuel choices status td' m,
      (run_scsi_command fuel (s.shared.td ()) call.lun call.cdb call.data_size).exec libc
        { state := s.shared.space () call.data, choices } = .ok ((status, td'), m) ∧
      td' = td ∧ Disks td m.state.world := by
    intro sub call hrequest hcalls
    have hagree : Agree (needs (cmnd.request.cmnd.get 0)) call.cdb cmnd.request.cmnd := by
      refine hfits.agree ?_
      rw [← hrequest]
      exact hcalls.cdb
    have hnumber : call.lun = ld.lun := by
      rw [← hlun, Request.number, ← hrequest, ← hcalls.lun, UInt8.ofNat_toNat]
    have hcdb : call.cdb.get 0 = kind.opcode := (hagree 0 (needs_pos _)).trans hopcode
    let c : Command := { kind, lun := call.lun, cdb := call.cdb, opcode := hcdb, data := call.data }
    have hsize : call.data_size = c.size := by
      have hfound : newest td cmnd.request.number = some ld := by rw [hlun, newest, (h.disks.serves hld).find]
      have hextent := hmounted.extent? hcdb
      rw [extent?_agree ld hagree] at hextent
      rw [hcalls.data_size, hrequest, hfits.bufflen ld _ hfound hextent]
      rfl
    have hfair : Machine.Fair Choice.Progress
        { state := s.shared.space () call.data, choices := fun _ => Choice.whole } := fun _ => Choice.whole_progress
    obtain ⟨a, s', hserve⟩ := serve_answers c (h.disks.serves hld) hfair hnumber hmounted (Nat.le_refl c.size)
    have hkept := serve_keeps h.disks hfair hserve
    refine ⟨c.size, fun _ => .whole, a.status, s'.1, s'.2, ?_, hkept.target, hkept.disks⟩
    rw [h.target, hsize]
    exact hserve.1
  obtain ⟨trace, s', hserved, htarget, hdisks⟩ := h.waits.serves (P := fun td' w => td' = td ∧ Disks td w) hptr hplain hfits hends
  exact ⟨trace, s', hserved, hserved.waits, htarget, hdisks⟩

theorem Standby.serves_oneBlock (h : s.Standby td) (hsbc : ∀ ld ∈ td.luns, ld.cmds = some .sbc) {ld : LunData}
    (hld : ld ∈ td.luns) {kind : MediaCommand} (hkind : kind ≠ .write12) (mem : Mem) :
    ∃ trace s', Served s (oneBlock kind ld.lun) mem td trace s' ∧ s'.Standby td :=
  h.serves rfl (oneBlock_plain kind ld.lun) (oneBlock_fits hkind h.disks hsbc ld.lun) rfl hld (hsbc ld hld)
    (oneBlock_number kind ld.lun)

end System

end vscsi
