import Vscsi.Target.Processes
import Vscsi.Target.Queue
import Vscsi.Target.Transparency

open lib

namespace vscsi

open hba device api

/-- The submissions whose tasks are in the queue, in its order. -/
def Hba.waiting (k : Hba) : List Nat := k.queue.map fun addr => (k.tasks addr).seq

/-- How many of its steps a target has made for the first command of the queue. -/
def Phase.made {Local : Type} : Phase Local → Nat
  | .claiming => 1
  | .receiving => 2
  | .loaded => 3
  | .running _ _ => 4
  | .completing _ _ _ => 5
  | _ => 0

/-- The steps of the main loop itself: its calls into the kernel, and the call of
`run_scsi_command` and the return from it. That a read passes its wait is no step of
its own. -/
def Act.own {Pid : Type} : Act Pid → Bool
  | .kernel _ => false
  | .wake _ => false
  | .run _ => false
  | .kill _ => false
  | .flush _ => false
  | _ => true

namespace Hba

variable {k k' : Hba}

theorem waiting_congr (hqueue : k'.queue = k.queue) (hseq : ∀ task ∈ k.queue, (k'.tasks task).seq = (k.tasks task).seq) :
    k'.waiting = k.waiting := by
  rw [waiting, waiting, hqueue]
  exact List.map_congr_left hseq

/-- What is submitted waits behind what was submitted before. -/
theorem Extends.waiting (h : k.Extends k') : ∃ added, k'.waiting = k.waiting ++ added := by
  obtain ⟨added, hqueue, -⟩ := h.queue
  refine ⟨added.map fun addr => (k'.tasks addr).seq, ?_⟩
  rw [Hba.waiting, Hba.waiting, hqueue, List.map_append]
  congr 1
  exact List.map_congr_left fun task ht => by rw [h.tasks task ht]

end Hba

namespace System

variable {E : Engine Unit} {s s' : System E} {act : Act Unit}

/-- The step completes the submission, which is the first one waiting. -/
def Serves (n : Nat) (s : System E) (act : Act Unit) : Prop := act = .complete () ∧ s.hba.waiting.head? = some n

/-- How many steps of its own the target makes at most until it has completed the
submission: six for each that waits before it and for itself, less those it has made. -/
def remaining (n : Nat) (s : System E) : Nat := 6 * (s.hba.waiting.idxOf n + 1) - (s.procs ()).phase.made

theorem made_lt (phase : Phase E.Local) : phase.made < 6 := by
  cases phase <;> simp [Phase.made]

/-- The mid layer goes on submitting. -/
theorem Detour.kernel_extends (h : s.Detour) {op : Op} (hplain : s.Plain (.kernel op)) {hba : Hba}
    (hstep : s.hba.Step op hba) : s.hba.Extends hba := by
  obtain ⟨_, _, hallowed, rfl⟩ := hstep
  cases op with
  | prepare sc cmnd mem => exact Hba.prepare_extends s.hba hallowed.1 hplain
  | queuecommand sc slot => exact h.sound.valid.queuecommand_extends hallowed
  | _ => exact hplain.elim

theorem afterClaim_waiting (s : System E) : (s.afterClaim ()).hba.waiting = s.hba.waiting := by
  have hevolves := Hba.Valid.receive_task_evolves s.hba (s.procs ()).task.cmd_number.toNat
  have hqueue := scsitap_ioctl_receive_task_queue s.hba (s.procs ()).task.cmd_number.toNat
  rw [afterClaim_hba]
  exact Hba.waiting_congr hqueue fun task ht => (hevolves.kept task (by rw [hqueue]; exact ht)).seq

variable {n : Nat}

/-- A step that leaves the submissions where they are waiting. -/
theorem remaining_extended (s s' : System E) (added : List Nat) (hn : n ∈ s.hba.waiting)
    (hwaiting : s'.hba.waiting = s.hba.waiting ++ added) : n ∈ s'.hba.waiting ∧
      ((s.procs ()).phase.made ≤ (s'.procs ()).phase.made → s'.remaining n ≤ s.remaining n) ∧
      ((s.procs ()).phase.made < (s'.procs ()).phase.made → s'.remaining n < s.remaining n) := by
  have hlt := made_lt (s'.procs ()).phase
  rw [remaining, remaining, hwaiting, List.idxOf_append_of_mem hn]
  exact ⟨List.mem_append_left _ hn, by omega, by omega⟩

/-- A step that completes another. -/
theorem remaining_completed {first : Nat} (hn : n ∈ s.hba.waiting) (hfirst : first ≠ n)
    (hwaiting : s.hba.waiting = first :: s'.hba.waiting) : n ∈ s'.hba.waiting ∧ s'.remaining n < s.remaining n := by
  have hlt := made_lt (s.procs ()).phase
  have hlater : n ∈ s'.hba.waiting := by
    rw [hwaiting] at hn
    exact (List.mem_cons.mp hn).resolve_left hfirst.symm
  refine ⟨hlater, ?_⟩
  rw [remaining, remaining, hwaiting, List.idxOf_cons_ne _ hfirst]
  omega

theorem Detour.header_claims (h : s.Detour) (hqueue : s.hba.queue ≠ []) (hstep : s.Step (.header ()) s') :
    (s'.procs ()).phase = .claiming ∧ s'.hba = s.hba := by
  obtain ⟨-, hphase, hresult⟩ := hstep
  obtain ⟨addr, hoffer, hlen⟩ := h.offers hphase hqueue
  rw [get_scsi_task_header_eq, if_neg (not_not.mpr h.sound.serving.ready), hoffer] at hresult
  simp only [if_pos hlen] at hresult
  rw [hresult, setProc_self]
  exact ⟨rfl, rfl⟩

/-- The claim of a target leads to the read of the data or past it. -/
theorem Detour.claim_made (h : s.Detour) (hstep : s.Step (.claim ()) s') : 2 ≤ (s'.procs ()).phase.made := by
  obtain ⟨-, hphase, rfl⟩ := hstep
  have hstage := h.stage
  simp only [Hba.Stage, hphase] at hstage
  obtain ⟨addr, -, hd⟩ := hstage
  have hsucceeds := (get_scsi_task_claim_succeeds h.sound.serving.ready (s.procs ()).task).1
  have hafter : ((s.afterClaim ()).procs ()).phase = dispatch (s.procs ()).task := by
    rw [afterClaim, setProc_self, hsucceeds]
    rfl
  rw [hafter]
  by_cases hdir : (s.hba.cmnds (s.hba.tasks addr).sc).sc_data_direction = .dma_to_device
  · have hdispatch : dispatch (E := E) (s.procs ()).task = .receiving := by
      simp [dispatch, hd.direction, directionChar, hdir]
    rw [hdispatch, Phase.made]
  · have hdispatch : dispatch (E := E) (s.procs ()).task = .loaded := by
      simp [dispatch, hd.direction, directionChar, hdir]
    rw [hdispatch, Phase.made]
    omega

/-- A completion is that of the first submission. -/
theorem Detour.complete_serves (h : s.Detour) (hstep : s.Step (.complete ()) s') :
    ∃ first, s.hba.waiting = first :: s'.hba.waiting := by
  obtain ⟨-, ⟨call, status, data, hphase⟩, rfl⟩ := hstep
  have hstage := h.stage
  simp only [Hba.Stage, hphase] at hstage
  obtain ⟨addr, task, hhead, hd, hl, hcall, htask⟩ := hstage
  have hcompleted := h.completion hhead hd htask
  refine ⟨(s.hba.tasks addr).seq, ?_⟩
  rw [Hba.waiting, hcompleted.queue, List.map_cons, Hba.waiting, hcompleted.tasks]

/-- Each step of its own brings the target closer to a submission that is waiting,
and nothing that the mid layer does takes it away from there. -/
theorem Detour.lowers (h : s.Detour) (hn : n ∈ s.hba.waiting) (hplain : s.Plain act) (hnot : ¬ Serves n s act)
    (hstep : s.Step act s') :
    n ∈ s'.hba.waiting ∧ s'.remaining n ≤ s.remaining n ∧ (act.own = true → s'.remaining n < s.remaining n) := by
  have hqueue : s.hba.queue ≠ [] := by
    rintro hnil
    simp [Hba.waiting, hnil] at hn
  -- a step of its own that completes nothing
  have hforward (hwaiting : s'.hba.waiting = s.hba.waiting) (hmade : (s.procs ()).phase.made < (s'.procs ()).phase.made) :
      n ∈ s'.hba.waiting ∧ s'.remaining n ≤ s.remaining n ∧ (act.own = true → s'.remaining n < s.remaining n) := by
    obtain ⟨hlater, -, hless⟩ := remaining_extended s s' [] hn (hwaiting.trans (List.append_nil _).symm)
    exact ⟨hlater, Nat.le_of_lt (hless hmade), fun _ => hless hmade⟩
  cases act with
  | kernel op =>
    obtain ⟨hba, hop, rfl⟩ := hstep
    obtain ⟨added, hwaiting⟩ := (h.kernel_extends hplain hop).waiting
    obtain ⟨hlater, hle, -⟩ := remaining_extended s { s with hba } added hn hwaiting
    exact ⟨hlater, hle le_rfl, fun hown => absurd hown Bool.false_ne_true⟩
  | wake pid =>
    obtain ⟨-, -, -, rfl⟩ := hstep
    obtain ⟨hlater, hle, -⟩ := remaining_extended s (s.afterWake ()) [] hn (List.append_nil _).symm
    refine ⟨hlater, hle ?_, fun hown => absurd hown Bool.false_ne_true⟩
    rw [afterWake_phase]
  | header pid =>
    obtain ⟨hphase', hhba⟩ := h.header_claims hqueue hstep
    obtain ⟨-, hphase, -⟩ := hstep
    exact hforward (by rw [hhba]) (by simp [hphase, hphase', Phase.made])
  | claim pid =>
    have hmade := h.claim_made hstep
    obtain ⟨-, hphase, rfl⟩ := hstep
    refine hforward s.afterClaim_waiting (Nat.lt_of_lt_of_le ?_ hmade)
    simp [hphase, Phase.made]
  | receive pid =>
    have hphase' := h.receive_loads hstep
    obtain ⟨-, hphase, rfl⟩ := hstep
    exact hforward rfl (by simp [hphase, hphase', Phase.made])
  | start pid =>
    obtain ⟨hphase, rfl⟩ := hstep
    refine hforward rfl ?_
    simp only [hphase, afterStart, setProc_self, Phase.made]
    omega
  | run pid =>
    obtain ⟨call, loc, loc', shared, hphase, -, rfl⟩ := hstep
    obtain ⟨hlater, hle, -⟩ := remaining_extended s
      ({ s with shared }.setProc () (.running call loc') (s.procs ()).task) [] hn (List.append_nil _).symm
    refine ⟨hlater, hle ?_, fun hown => absurd hown Bool.false_ne_true⟩
    simp only [hphase, setProc_self, Phase.made, le_refl]
  | finish pid =>
    obtain ⟨call, loc, status, data, hphase, -, rfl⟩ := hstep
    refine hforward rfl ?_
    simp only [hphase, setProc_self, Phase.made]
    omega
  | complete pid =>
    obtain ⟨first, hwaiting⟩ := h.complete_serves hstep
    have hfirst : first ≠ n := by
      rintro rfl
      exact hnot ⟨rfl, by rw [hwaiting, List.head?_cons]⟩
    obtain ⟨hlater, hless⟩ := remaining_completed hn hfirst hwaiting
    exact ⟨hlater, Nat.le_of_lt hless, fun _ => hless⟩
  | kill pid => exact hplain.elim
  | flush pid =>
    obtain ⟨shared, hphase, -, -⟩ := hstep
    exact absurd hphase (h.not_exited pid)

variable {start : System E} {trace trace' : List (System E × Act Unit)}

/-- In a run that does not complete it a submission goes on waiting, and the target
makes fewer steps of its own than remained. -/
theorem Detour.waits (h : s.Detour) (hn : n ∈ s.hba.waiting) (hrun : Run Step s trace s')
    (hsteps : ∀ e ∈ trace, e.1.Plain e.2 ∧ ¬ Serves n e.1 e.2) :
    trace.countP (fun e => e.2.own) + s'.remaining n ≤ s.remaining n := by
  refine hrun.counted_le (C := fun s act => s.Plain act ∧ ¬ Serves n s act) (I := fun s => s.Detour ∧ n ∈ s.hba.waiting)
    ⟨h, hn⟩ ?_ ?_ hsteps
  · rintro s act s' ⟨hd, hwaits⟩ ⟨hplain, hnot⟩ hstep
    exact ⟨hd.step hplain hstep, (hd.lowers hwaits hplain hnot hstep).1⟩
  · rintro s act s' ⟨hd, hwaits⟩ ⟨hplain, hnot⟩ hstep
    exact (hd.lowers hwaits hplain hnot hstep).2

/-- A target with something to do can do the next step of its own, a read once it has
passed its wait, unless it waits for `run_scsi_command`. -/
theorem Detour.able (h : s.Detour) (hqueue : s.hba.queue ≠ [])
    (hwaits : ∀ call loc, (s.procs ()).phase = .running call loc → ∃ result, E.result loc = some result) :
    ∃ s₁ act s', (s₁ = s ∨ s.Step (.wake ()) s₁) ∧ act.own = true ∧ s₁.Plain act ∧ s₁.Step act s' := by
  have hanswers : s.hba.Answers := ⟨h.sound.serving.listed, h.sound.serving.unlocked⟩
  have hqueued := Hba.queued_iff.mpr hqueue
  have hstage := h.stage
  cases hphase : (s.procs ()).phase with
  | polling =>
    obtain ⟨addr, hoffer, hlen⟩ := h.offers hphase hqueue
    obtain ⟨s₁, hwake, hawake, hhba, hphase₁⟩ := Reads.wakes (.inl hphase) hqueued
    have hdetour : s₁.Detour := hwake.elim (fun hsame => hsame ▸ h) h.wake
    rw [← hhba] at hoffer hlen
    exact ⟨s₁, .header (), _, hwake, rfl, trivial,
      header_step hdetour.sound.serving (hphase₁.trans hphase) hawake hoffer hlen⟩
  | claiming => exact ⟨s, .claim (), _, .inl rfl, rfl, trivial, hanswers, hphase, rfl⟩
  | receiving =>
    obtain ⟨s₁, hwake, hawake, hhba, hphase₁⟩ := Reads.wakes (.inr hphase) hqueued
    rw [← hhba] at hanswers
    exact ⟨s₁, .receive (), _, hwake, rfl, trivial, ⟨hanswers, hawake⟩, hphase₁.trans hphase, rfl⟩
  | loaded => exact ⟨s, .start (), _, .inl rfl, rfl, trivial, hphase, rfl⟩
  | running call loc =>
    obtain ⟨⟨status, data⟩, hresult⟩ := hwaits call loc hphase
    exact ⟨s, .finish (), _, .inl rfl, rfl, trivial, call, loc, status, data, hphase, hresult, rfl⟩
  | completing call status data =>
    exact ⟨s, .complete (), _, .inl rfl, rfl, trivial, hanswers, ⟨call, status, data, hphase⟩, rfl⟩
  | exited => simp [Hba.Stage, hphase] at hstage
  | killed => simp [Hba.Stage, hphase] at hstage

/-- No plain command is left waiting. With its first `6 * (i + 1)` steps in the main
loop a target completes the submission that `i` others wait before, however many plain
ones the mid layer goes on submitting; and while anything waits the target can always
make the next of these steps, a read once it has passed its wait, and once the call of
`run_scsi_command` it is in has returned. -/
theorem served_within (h : start.Attached) (hrun : Run Step start trace s) (hplain : ∀ e ∈ trace, e.1.Plain e.2) :
    (∀ n ∈ s.hba.waiting, ∀ trace' s', Run Step s trace' s' → (∀ e ∈ trace', e.1.Plain e.2) →
      6 * (s.hba.waiting.idxOf n + 1) ≤ trace'.countP (fun e => e.2.own) → ∃ e ∈ trace', Serves n e.1 e.2) ∧
    (s.hba.waiting ≠ [] →
      (∀ call loc, (s.procs ()).phase = .running call loc → ∃ result, E.result loc = some result) →
      ∃ s₁ act s', (s₁ = s ∨ s.Step (.wake ()) s₁) ∧ act.own = true ∧ s₁.Plain act ∧ s₁.Step act s') := by
  have hdetour : s.Detour := hrun.invariant_of_steps (.attached h) (fun _ _ _ hd hp hstep => hd.step hp hstep) hplain
  refine ⟨fun n hn trace' s' hrun' hplain' hcount => ?_, fun hwaiting hwaits => hdetour.able ?_ hwaits⟩
  · by_contra hnone
    have hnot : ∀ e ∈ trace', e.1.Plain e.2 ∧ ¬ Serves n e.1 e.2 :=
      fun e he => ⟨hplain' e he, fun hserves => hnone ⟨e, he, hserves⟩⟩
    have hbound := hdetour.waits hn hrun' hnot
    have hmade := made_lt (s'.procs ()).phase
    have hremains : 0 < s'.remaining n := by
      rw [remaining]
      omega
    have hle : s.remaining n ≤ 6 * (s.hba.waiting.idxOf n + 1) := by
      rw [remaining]
      omega
    omega
  · rintro hnil
    exact hwaiting (by rw [Hba.waiting, hnil, List.map_nil])

def servedTrace : List (System (silent Unit) × Act Unit) :=
  [(alone oneTargetQueued, .wake ()), ((alone oneTargetQueued).afterWake (), .header ()), (offered, .claim ())] ++
    returnedTrace ++ [(returned, .complete ())]

theorem served_run : Run Step (alone oneTargetQueued) servedTrace (returned.afterComplete ()) := by
  have hcomplete : Step returned (.complete ()) (returned.afterComplete ()) := ⟨⟨rfl, rfl⟩, ⟨_, _, _, returned_phase⟩, rfl⟩
  have hclaimed := ((Run.nil.snoc oneTarget_wake).snoc offered_step).snoc claimed_step
  exact (hclaimed.append returned_run).snoc hcomplete

/-- The one command is served with six steps. -/
theorem served_within_one_block : ∃ e ∈ servedTrace, Serves 0 e.1 e.2 := by
  have hqueued : Run Step (alone oneTarget) (claimedTrace.take 2) (alone oneTargetQueued) :=
    (Run.nil.snoc (alone_step oneTarget_prepare)).snoc (alone_step oneTarget_queue)
  have hwaiting : (alone oneTargetQueued).hba.waiting = [0] := rfl
  refine (served_within alone_attached hqueued fun e he => claimedTrace_plain e (List.mem_of_mem_take he)).1 0 ?_ _ _
    served_run ?_ ?_
  · rw [hwaiting]
    exact List.mem_singleton.mpr rfl
  · intro e he
    simp only [servedTrace, returnedTrace, List.cons_append, List.nil_append, List.mem_cons, List.not_mem_nil,
      or_false] at he
    rcases he with rfl | rfl | rfl | rfl | rfl | rfl | rfl | rfl <;> trivial
  · rw [hwaiting]
    decide

end System

end vscsi
