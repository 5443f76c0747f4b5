import Vscsi.Target.Header
import Vscsi.Kernel.Service
import Vscsi.Lib.Run

open lib

namespace vscsi

open hba device api

/-- Target processes that call `get_scsi_task` on one session. `held` is the
command whose header a call has read, up to its ioctl, and `returned` lists the
calls that returned 0 with the command each of them returned. -/
structure Callers (Pid : Type) where
  hba : Hba
  tasks : Pid → UserScsitapTask
  held : Pid → Option Nat
  returned : List (Pid × Nat)

/-- One call into the session by anyone, or one of the two kernel steps of a
process's `get_scsi_task`. -/
inductive Call (Pid : Type) where
  | kernel (op : Op)
  | header (pid : Pid)
  | claim (pid : Pid)

namespace Callers

variable {Pid : Type}

def Step [DecidableEq Pid] (s : Callers Pid) : Call Pid → Callers Pid → Prop
  | .kernel op, s' => ∃ hba, s.hba.Step op hba ∧ s' = { s with hba }
  | .header pid, s' =>
    s.hba.session.listed = true ∧ s.hba.session.scsitap_queue_lock = false ∧ s.held pid = none ∧
      match get_scsi_task_header s.hba 0 (s.tasks pid) with
      | .returned _ => s' = s
      | .offered task => s' = { s with
          tasks := Function.update s.tasks pid task
          held := Function.update s.held pid ((offer s.hba).map fun addr => (s.hba.tasks addr).seq) }
      | .overrun => False
  | .claim pid, s' =>
    s.hba.session.listed = true ∧ s.hba.session.scsitap_queue_lock = false ∧
      ∃ seq, s.held pid = some seq ∧
        s' = { s with
          hba := (get_scsi_task_claim s.hba (s.tasks pid)).2
          held := Function.update s.held pid none
          returned :=
            if (get_scsi_task_claim s.hba (s.tasks pid)).1 = 0 then s.returned ++ [(pid, seq)]
            else s.returned }

/-- Processes that have not called anything yet, on a session just created. -/
def Initial (s : Callers Pid) : Prop := s.hba.Initial ∧ (∀ pid, s.held pid = none) ∧ s.returned = []

/-- The commands returned so far, in order. -/
def commands (s : Callers Pid) : List Nat := s.returned.map Prod.snd

/-- A header read offers no command that a call still holds, and a claim finds
the task of the command it is for if that is still queued. -/
def Exclusive (s : Callers Pid) : Call Pid → Prop
  | .kernel _ => True
  | .header _ => ∀ addr, offer s.hba = some addr → ∀ other, s.held other ≠ some (s.hba.tasks addr).seq
  | .claim pid => ∀ addr ∈ s.hba.queue, s.held pid = some (s.hba.tasks addr).seq →
      task_of_cmd s.hba (s.tasks pid).cmd_number = some addr

/-- What runs of exclusive steps keep: nothing returned is offered again, and
no command is held twice or held after it was returned. -/
structure Shared (s : Callers Pid) : Prop where
  valid : s.hba.Valid
  accepted : ∀ seq ∈ s.commands, seq < s.hba.history.accepted.length
  claimed : ∀ task ∈ s.hba.queue, (s.hba.tasks task).seq ∈ s.commands →
    (s.hba.tasks task).flags ≠ .submitted
  heldAccepted : ∀ pid seq, s.held pid = some seq → seq < s.hba.history.accepted.length
  unreturned : ∀ pid seq, s.held pid = some seq → seq ∉ s.commands
  distinct : ∀ pid other seq, s.held pid = some seq → s.held other = some seq → pid = other
  nodup : s.commands.Nodup

theorem Shared.initial {s : Callers Pid} (h : s.Initial) : s.Shared := by
  obtain ⟨hhba, hheld, hreturned⟩ := h
  have hcommands : s.commands = [] := by rw [commands, hreturned, List.map_nil]
  constructor
  · exact .initial hhba
  all_goals simp [hcommands, hheld]

/-- Claims and returned commands are about submissions, so a session that
changes by keeping its tasks and adding new ones does not disturb them. -/
theorem Shared.session {s : Callers Pid} (h : s.Shared) {hba : Hba} (hvalid : hba.Valid)
    (haccepted : s.hba.history.accepted.length ≤ hba.history.accepted.length)
    (hqueue : ∀ task ∈ hba.queue, Hba.Kept s.hba hba task ∨
      s.hba.history.accepted.length ≤ (hba.tasks task).seq) : Shared { s with hba } := by
  refine ⟨hvalid, ?_, ?_, ?_, h.unreturned, h.distinct, h.nodup⟩
  · intro seq hseq
    exact Nat.lt_of_lt_of_le (h.accepted seq hseq) haccepted
  · intro task ht hseq
    rcases hqueue task ht with hkept | hnew
    · change (hba.tasks task).seq ∈ s.commands at hseq
      rw [hkept.seq] at hseq
      have hbefore := h.claimed task hkept.queued hseq
      rcases hkept.flags with hsame | hreceived
      · rwa [hsame]
      · rw [hreceived]
        decide
    · exact absurd (h.accepted _ hseq) (not_lt.mpr hnew)
  · intro pid seq hheld
    exact Nat.lt_of_lt_of_le (h.heldAccepted pid seq hheld) haccepted

theorem Shared.kernel {s : Callers Pid} (h : s.Shared) {op : Op} {hba : Hba} (hstep : s.hba.Step op hba) :
    Shared { s with hba } := by
  obtain ⟨_, _, hallowed, rfl⟩ := hstep
  have hvalid := h.valid.apply op hallowed
  by_cases hop : ∃ sc slot, op = .queuecommand sc slot
  · obtain ⟨sc, slot, rfl⟩ := hop
    rcases h.valid.queuecommand_evolves hallowed with hevolves | ⟨task, hfresh, ha⟩
    · exact h.session hvalid hevolves.accepted fun t ht => .inl (hevolves.kept t ht)
    · refine h.session hvalid ?_ fun t ht => ?_
      · rw [show (s.hba.apply (.queuecommand sc slot)).history = _ from ha.history, History.accept,
          List.length_append]
        omega
      · refine (Hba.Valid.accepted_queue hfresh ha t ht).imp_right fun hnew => ?_
        exact Nat.le_of_eq hnew.seq.symm
  · have hevolves := h.valid.apply_evolves hallowed fun sc slot heq => hop ⟨sc, slot, heq⟩
    exact h.session hvalid hevolves.accepted fun t ht => .inl (hevolves.kept t ht)

variable [DecidableEq Pid]

/-- A header read of a command that nobody holds. -/
theorem Shared.header {s s' : Callers Pid} (h : s.Shared) {pid : Pid}
    (hexclusive : s.Exclusive (.header pid)) (hstep : s.Step (.header pid) s') : s'.Shared := by
  obtain ⟨_, _, hnone, hresult⟩ := hstep
  split at hresult
  · rw [hresult]
    exact h
  · rename_i task htask
    obtain ⟨_, addr, haddr, _, _⟩ := get_scsi_task_header_offered htask
    obtain ⟨hqueued, hflags⟩ := offer_some haddr
    have hheld : ∀ other seq, s'.held other = some seq →
        (other = pid ∧ seq = (s.hba.tasks addr).seq) ∨ (other ≠ pid ∧ s.held other = some seq) := by
      intro other seq hother
      rw [hresult, haddr] at hother
      by_cases heq : other = pid
      · subst heq
        simp only [Function.update_self, Option.map_some, Option.some.injEq] at hother
        exact .inl ⟨rfl, hother.symm⟩
      · simp only [Function.update_of_ne heq] at hother
        exact .inr ⟨heq, hother⟩
    have hfresh : (s.hba.tasks addr).seq ∉ s.commands := fun hseq => h.claimed addr hqueued hseq hflags
    subst hresult
    refine ⟨h.valid, h.accepted, h.claimed, ?_, ?_, ?_, h.nodup⟩
    · intro other seq hother
      rcases hheld other seq hother with ⟨_, rfl⟩ | ⟨_, hold⟩
      · exact h.valid.seq_lt hqueued
      · exact h.heldAccepted other seq hold
    · intro other seq hother
      rcases hheld other seq hother with ⟨_, rfl⟩ | ⟨_, hold⟩
      · exact hfresh
      · exact h.unreturned other seq hold
    · intro first second seq hfirst hsecond
      rcases hheld first seq hfirst with ⟨rfl, rfl⟩ | ⟨_, hold⟩ <;>
        rcases hheld second _ hsecond with ⟨rfl, hseq⟩ | ⟨_, hold'⟩
      · rfl
      · exact absurd hold' (hexclusive addr haddr second)
      · rw [hseq] at hold
        exact absurd hold (hexclusive addr haddr first)
      · exact h.distinct first second seq hold hold'
  · exact hresult.elim

theorem Shared.claim {s s' : Callers Pid} (h : s.Shared) {pid : Pid}
    (hexclusive : s.Exclusive (.claim pid)) (hstep : s.Step (.claim pid) s') : s'.Shared := by
  obtain ⟨_, _, seq, hseq, rfl⟩ := hstep
  have hsnd := get_scsi_task_claim_snd s.hba (s.tasks pid)
  have hevolves := Hba.Valid.receive_task_evolves s.hba (s.tasks pid).cmd_number.toNat
  have hvalid := h.valid.receive_task (s.tasks pid).cmd_number.toNat
  rw [← hsnd] at hevolves hvalid
  have hbase := h.session hvalid hevolves.accepted fun t ht => .inl (hevolves.kept t ht)
  have hheld : ∀ other n, Function.update s.held pid none other = some n →
      other ≠ pid ∧ s.held other = some n := by
    intro other n hother
    by_cases heq : other = pid
    · subst heq
      simp at hother
    · exact ⟨heq, by simpa [heq] using hother⟩
  have hdistinct : ∀ first second n, Function.update s.held pid none first = some n →
      Function.update s.held pid none second = some n → first = second :=
    fun first second n hfirst hsecond =>
      h.distinct first second n (hheld first n hfirst).2 (hheld second n hsecond).2
  by_cases hreturned : (get_scsi_task_claim s.hba (s.tasks pid)).1 = 0
  · have hcommands : ({ s with
        hba := (get_scsi_task_claim s.hba (s.tasks pid)).2
        held := Function.update s.held pid none
        returned := if (get_scsi_task_claim s.hba (s.tasks pid)).1 = 0 then s.returned ++ [(pid, seq)]
          else s.returned } : Callers Pid).commands = s.commands ++ [seq] := by
      simp [commands, hreturned]
    have hmem : ∀ n, n ∈ s.commands ++ [seq] ↔ n ∈ s.commands ∨ n = seq := by simp
    refine ⟨hvalid, ?_, ?_, ?_, ?_, hdistinct, ?_⟩
    · intro n hn
      rw [hcommands, hmem] at hn
      rcases hn with hold | rfl
      · exact hbase.accepted n hold
      · exact hbase.heldAccepted pid n hseq
    · intro task ht hn
      rw [hcommands, hmem] at hn
      rcases hn with hold | hnew
      · exact hbase.claimed task ht hold
      · have hkept := hevolves.kept task ht
        have hfound := hexclusive task hkept.queued (by rw [hseq, ← hkept.seq, hnew])
        have hclaim := get_scsi_task_claim_eq (get_scsi_task_claim_ready hreturned) (s.tasks pid)
        rw [hfound] at hclaim
        simp [hclaim]
    · intro other n hother
      exact hbase.heldAccepted other n (hheld other n hother).2
    · intro other n hother hn
      obtain ⟨hne, hold⟩ := hheld other n hother
      rw [hcommands, hmem] at hn
      rcases hn with hreturned' | rfl
      · exact h.unreturned other n hold hreturned'
      · exact hne (h.distinct other pid n hold hseq)
    · rw [hcommands]
      exact List.nodup_append.mpr ⟨h.nodup, List.nodup_singleton _, by
        intro n hn m hm
        rw [List.mem_singleton.mp hm]
        rintro rfl
        exact h.unreturned pid n hseq hn⟩
  · simp only [hreturned, if_false]
    exact ⟨hvalid, hbase.accepted, hbase.claimed,
      fun other n hother => hbase.heldAccepted other n (hheld other n hother).2,
      fun other n hother => h.unreturned other n (hheld other n hother).2, hdistinct, h.nodup⟩

theorem Shared.step {s s' : Callers Pid} {call : Call Pid} (h : s.Shared) (hexclusive : s.Exclusive call)
    (hstep : s.Step call s') : s'.Shared := by
  cases call with
  | kernel op =>
    obtain ⟨hba, hop, rfl⟩ := hstep
    exact h.kernel hop
  | header pid => exact h.header hexclusive hstep
  | claim pid => exact h.claim hexclusive hstep

/-- In a run of exclusive steps no two calls of `get_scsi_task` return the same
command. -/
theorem returned_at_most_once {start s : Callers Pid} {trace : List (Callers Pid × Call Pid)}
    (hinit : start.Initial) (hrun : Run Step start trace s) (hsteps : ∀ e ∈ trace, e.1.Exclusive e.2) :
    (s.returned.map Prod.snd).Nodup := by
  have hshared := hrun.invariant_of_steps (C := Exclusive) (P := Shared) (.initial hinit)
    (fun _ _ _ hs hexclusive hstep => hs.step hexclusive hstep) hsteps
  exact hshared.nodup

/-- The state after a process has read the header of a queued task. -/
def afterHeader (s : Callers Pid) (pid : Pid) (addr : Addr) : Callers Pid := { s with
  tasks := Function.update s.tasks pid (decoded s.hba addr (s.hba.tasks addr).type (s.tasks pid))
  held := Function.update s.held pid (some (s.hba.tasks addr).seq) }

/-- The state after a claim that succeeds for the command `seq`. -/
def afterClaim (s : Callers Pid) (pid : Pid) (seq : Nat) : Callers Pid := { s with
  hba := (get_scsi_task_claim s.hba (s.tasks pid)).2
  held := Function.update s.held pid none
  returned := s.returned ++ [(pid, seq)] }

theorem header_step (s : Callers Pid) (hserving : s.hba.Serving) {pid : Pid} (hheld : s.held pid = none)
    {addr : Addr} (hoffer : offer s.hba = some addr)
    (hlen : (s.hba.cmnds (s.hba.tasks addr).sc).cmd_len.toNat ≤ 16) :
    s.Step (.header pid) (s.afterHeader pid addr) := by
  have hheader : get_scsi_task_header s.hba 0 (s.tasks pid) =
      .offered (decoded s.hba addr (s.hba.tasks addr).type (s.tasks pid)) := by
    rw [get_scsi_task_header_eq, if_neg (not_not.mpr hserving.ready), hoffer]
    exact if_pos hlen
  refine ⟨hserving.listed, hserving.unlocked, hheld, ?_⟩
  rw [hheader, hoffer]
  rfl

theorem claim_step (s : Callers Pid) (hserving : s.hba.Serving) {pid : Pid} {seq : Nat}
    (hheld : s.held pid = some seq) :
    s.Step (.claim pid) (s.afterClaim pid seq) ∧ (s.afterClaim pid seq).hba.Serving := by
  obtain ⟨hresult, hsession⟩ := get_scsi_task_claim_succeeds hserving.ready (s.tasks pid)
  constructor
  · refine ⟨hserving.listed, hserving.unlocked, seq, hheld, ?_⟩
    rw [hresult, if_pos rfl, afterClaim]
  · constructor <;> simp only [afterClaim, hsession]
    exacts [hserving.listed, hserving.unlocked, hserving.ready]

/-- Two processes that both read the header of an unclaimed command before either
claims it both get that command. -/
theorem offered_twice (s : Callers Pid) {first second : Pid} (hne : first ≠ second)
    (hserving : s.hba.Serving) {addr : Addr} (hoffer : offer s.hba = some addr)
    (hlen : (s.hba.cmnds (s.hba.tasks addr).sc).cmd_len.toNat ≤ 16)
    (hfirst : s.held first = none) (hsecond : s.held second = none) :
    ∃ s', lib.Reachable Step s s' ∧ s'.returned =
      s.returned ++ [(first, (s.hba.tasks addr).seq), (second, (s.hba.tasks addr).seq)] := by
  let s₁ := s.afterHeader first addr
  let s₂ := s₁.afterHeader second addr
  have hread := header_step s hserving hfirst hoffer hlen
  have hread' : s₁.Step (.header second) s₂ := by
    refine header_step s₁ hserving ?_ hoffer hlen
    rw [← hsecond]
    exact Function.update_of_ne hne.symm _ _
  have hheld : s₂.held first = some (s.hba.tasks addr).seq := by
    simp [s₂, s₁, afterHeader, Function.update_of_ne hne]
  obtain ⟨hclaim, hserving'⟩ := claim_step s₂ hserving hheld
  have hheld' : (s₂.afterClaim first (s.hba.tasks addr).seq).held second = some (s.hba.tasks addr).seq := by
    simp [s₂, s₁, afterHeader, afterClaim, Function.update_of_ne hne.symm]
  obtain ⟨hclaim', -⟩ := claim_step _ hserving' hheld'
  refine ⟨_, (((lib.Reachable.refl.tail hread).tail hread').tail hclaim).tail hclaim', ?_⟩
  simp [s₂, s₁, afterHeader, afterClaim]

/-- Two targets that have not called anything yet. -/
def idlePair (hba : Hba) : Callers Bool where
  hba := hba
  tasks := fun _ => register_scsi_host
  held := fun _ => none
  returned := []

theorem idlePair_step {k k' : Hba} {op : Op} (h : k.Step op k') :
    Step (idlePair k) (.kernel op) (idlePair k') := ⟨k', h, rfl⟩

theorem idlePair_reachable {hba : Hba} (h : lib.Reachable Hba.Step .fresh hba) :
    lib.Reachable Step (idlePair .fresh) (idlePair hba) := by
  obtain ⟨trace, hrun⟩ := h
  induction hrun with
  | nil => exact lib.Reachable.refl
  | snoc run hstep ih => exact ih.tail (idlePair_step hstep)

/-- Both targets read the header of the one queued command, then both claim it. -/
theorem returned_twice : ¬ ∀ start s : Callers Bool, start.Initial → lib.Reachable Step start s →
    (s.returned.map Prod.snd).Nodup := by
  intro honce
  obtain ⟨s, hreach, hreturned⟩ := offered_twice (idlePair .oneCommand)
    (show true ≠ false by decide) ⟨rfl, rfl, rfl⟩ (show offer Hba.oneCommand = some 8 from rfl) (by decide) rfl rfl
  have hnodup := honce (idlePair .fresh) s ⟨Hba.fresh_initial, fun _ => rfl, rfl⟩
    ((idlePair_reachable Hba.oneCommand_reachable).trans hreach)
  rw [hreturned] at hnodup
  revert hnodup
  decide

/-- Each of the two targets gets one of two commands. -/
theorem returned_at_most_once_two_calls : ∃ trace s, Run Step (idlePair .fresh) trace s ∧
    s.returned = [(true, 0), (false, 1)] ∧ s.hba.history.accepted.length = 2 ∧ (s.returned.map Prod.snd).Nodup := by
  have hregister := idlePair_step Hba.register_step
  have hregister' := idlePair_step Hba.register_step'
  have hqueue := idlePair_step Hba.oneCommand_step
  have hqueue' := idlePair_step Hba.twoCommands_step
  let s₁ := (idlePair .twoCommands).afterHeader true 8
  let s₂ := s₁.afterClaim true 0
  let s₃ := s₂.afterHeader false 9
  have hread : Step (idlePair .twoCommands) (.header true) s₁ := header_step _ ⟨rfl, rfl, rfl⟩ rfl rfl (by decide)
  obtain ⟨hclaim, hserving⟩ := claim_step s₁ ⟨rfl, rfl, rfl⟩ (show s₁.held true = some 0 from rfl)
  have hread' : Step s₂ (.header false) s₃ := header_step s₂ hserving rfl rfl (by decide)
  obtain ⟨hclaim', -⟩ := claim_step s₃ hserving (show s₃.held false = some 1 from rfl)
  have hrun := (((((((Run.nil.snoc hregister).snoc hregister').snoc hqueue).snoc hqueue').snoc hread).snoc hclaim).snoc
    hread').snoc hclaim'
  have hinit : (idlePair .fresh).Initial := ⟨Hba.fresh_initial, fun _ => rfl, rfl⟩
  refine ⟨_, _, hrun, rfl, rfl, returned_at_most_once hinit hrun fun e he => ?_⟩
  simp only [List.nil_append, List.cons_append, List.mem_cons, List.not_mem_nil, or_false] at he
  rcases he with rfl | rfl | rfl | rfl | rfl | rfl | rfl | rfl
  · trivial
  · trivial
  · trivial
  · trivial
  · intro addr _ other hheld
    cases hheld
  · intro addr haddr hheld
    rcases List.mem_pair.mp (show addr ∈ [8, 9] from haddr) with rfl | rfl
    · rfl
    · cases hheld
  · intro addr _ other hheld
    cases other <;> cases hheld
  · intro addr haddr hheld
    rcases List.mem_pair.mp (show addr ∈ [8, 9] from haddr) with rfl | rfl
    · cases hheld
    · rfl

end Callers

end vscsi
