import Vscsi.Target.Header
import Vscsi.Target.MainLoop

open lib

namespace vscsi

open hba device api

namespace System

variable {Pid : Type} [DecidableEq Pid] {E : Engine Pid} {s s' : System E} {act : Act Pid}

/-- What a completion makes of the session is what its write does. -/
theorem afterComplete_hba (s : System E) (pid : Pid) : ∃ user count,
    (s.afterComplete pid).hba = (scsitap_ctl_write s.hba user count).2 :=
  ⟨_, _, rfl⟩

theorem afterClaim_hba (s : System E) (pid : Pid) :
    (s.afterClaim pid).hba = (scsitap_ioctl_receive_task s.hba (s.procs pid).task.cmd_number.toNat).2 := rfl

/-- Only the mid layer, claims and completions change the session. -/
theorem step_hba (hstep : s.Step act s') (hkernel : ∀ op, act ≠ .kernel op) (hclaim : ∀ pid, act ≠ .claim pid)
    (hcomplete : ∀ pid, act ≠ .complete pid) : s'.hba = s.hba := by
  cases act with
  | kernel op => exact absurd rfl (hkernel op)
  | claim pid => exact absurd rfl (hclaim pid)
  | complete pid => exact absurd rfl (hcomplete pid)
  | wake pid =>
    obtain ⟨-, -, -, rfl⟩ := hstep
    rfl
  | header pid =>
    obtain ⟨-, -, hresult⟩ := hstep
    cases hheader : get_scsi_task_header s.hba 0 (s.procs pid).task with
    | returned x =>
      rw [hheader] at hresult
      rw [show s' = _ from hresult]
      rfl
    | offered task =>
      rw [hheader] at hresult
      rw [show s' = _ from hresult]
      rfl
    | overrun =>
      rw [hheader] at hresult
      exact hresult.elim
  | receive pid =>
    obtain ⟨-, -, rfl⟩ := hstep
    rfl
  | start pid =>
    obtain ⟨-, rfl⟩ := hstep
    rfl
  | run pid =>
    obtain ⟨_, _, _, _, -, -, rfl⟩ := hstep
    rfl
  | finish pid =>
    obtain ⟨_, _, _, _, -, -, rfl⟩ := hstep
    rfl
  | kill pid =>
    obtain ⟨-, -, rfl⟩ := hstep
    rfl
  | flush pid =>
    obtain ⟨_, -, -, rfl⟩ := hstep
    rfl

/-- Without a submission the queue only has tasks that were there before. -/
theorem step_evolves (h : s.hba.Valid) (hstep : s.Step act s') (hact : ∀ sc slot, act ≠ .kernel (.queuecommand sc slot)) :
    s.hba.Evolves s'.hba := by
  cases act with
  | kernel op =>
    obtain ⟨hba, ⟨_, _, hallowed, rfl⟩, rfl⟩ := hstep
    exact h.apply_evolves hallowed fun sc slot hop => hact sc slot (congrArg Act.kernel hop)
  | claim pid =>
    obtain ⟨-, -, rfl⟩ := hstep
    rw [afterClaim_hba]
    exact Hba.Valid.receive_task_evolves _ _
  | complete pid =>
    obtain ⟨-, -, rfl⟩ := hstep
    obtain ⟨user, count, heq⟩ := s.afterComplete_hba pid
    rw [heq]
    exact Hba.Valid.ctl_write_evolves _ _ _
  | _ =>
    rw [step_hba hstep nofun nofun nofun]
    exact .refl _

/-- Each task of the queue was there before or has just been submitted. -/
theorem step_queue (h : s.hba.Valid) (hstep : s.Step act s') {task : Addr} (htask : task ∈ s'.hba.queue) :
    s.hba.Kept s'.hba task ∨ ∃ sc slot, act = .kernel (.queuecommand sc slot) ∧ s.hba.Fresh s'.hba sc task := by
  by_cases hact : ∃ sc slot, act = .kernel (.queuecommand sc slot)
  · obtain ⟨sc, slot, rfl⟩ := hact
    obtain ⟨hba, ⟨_, _, hallowed, rfl⟩, rfl⟩ := hstep
    rcases h.queuecommand_evolves hallowed with hevolves | ⟨added, hfresh, haccepted⟩
    · exact .inl (hevolves.kept task htask)
    · exact (Hba.Valid.accepted_queue hfresh haccepted task htask).imp id fun hnew => ⟨sc, slot, rfl, hnew⟩
  · exact .inl ((step_evolves h hstep fun sc slot heq => hact ⟨sc, slot, heq⟩).kept task htask)

end System

end vscsi
