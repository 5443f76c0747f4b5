import Vscsi.Kernel.Freed

open lib

namespace vscsi

open slab

namespace Hosts

variable {h h' : Hosts} {c : HostCall}

/-- An aborted command is never answered, and a command that has left the queue
otherwise is answered once. -/
def Notified (h : Hosts) : Prop :=
  ∀ host seq s, (h.view host).history.accepted[seq]? = some s →
    (s.aborted = true → s.done_calls = 0) ∧
      (s.aborted = false → ¬ (h.view host).Queued seq → s.done_calls = 1)

/-- Every session is as it should be, and no slot is in two queues. -/
structure Shared (h : Hosts) : Prop where
  valid : ∀ host, (h.view host).Valid
  apart : ∀ i j, i ≠ j → ∀ task ∈ (h.view i).queue, task ∉ (h.view j).queue

/-- The slots that a call frees keep telling what the call has left in them. -/
def Undisturbed (h : Hosts) (c : HostCall) : Prop := slab.Undisturbed (h.view c.host) c.op c.freed

theorem Shared.initial (hinit : Initial h) : h.Shared where
  valid host := .initial (hinit host)
  apart i j _ task ht := by
    obtain ⟨id, tasks, cmnds, mem, _, heq⟩ := hinit i
    rw [heq] at ht
    cases ht

theorem Shared.notified (hs : h.Shared) : h.Notified := by
  intro host seq s hentry
  rcases (hs.valid host).settled seq s hentry with hqueued | ⟨hcalls, haborted⟩ | ⟨hcalls, haborted⟩
  · obtain ⟨task, ht, rfl⟩ := hqueued
    obtain ⟨s', hs'⟩ := (hs.valid host).pending task ht
    have heq : s = s' := Option.some.inj (hentry.symm.trans hs'.entry)
    subst heq
    exact ⟨fun _ => hs'.done_calls, fun _ hnot => absurd ⟨task, ht, rfl⟩ hnot⟩
  · exact ⟨fun htrue => by simp [haborted] at htrue, fun _ _ => hcalls⟩
  · exact ⟨fun _ => hcalls, fun hfalse => by simp [haborted] at hfalse⟩

theorem view_apply_self (h : Hosts) (c : HostCall) :
    (h.apply c).view c.host = slab.apply (scsitap_complete_task c.freed) (h.view c.host) c.op := by
  simp [view, apply]

theorem view_apply_other (h : Hosts) (c : HostCall) {host : Nat} (hne : host ≠ c.host) :
    (h.apply c).view host = { h.view host with tasks := (h.apply c).slots } := by
  simp [view, apply, hne]

/-- The slot a call is given is in nobody's queue. -/
theorem Allocates.newSlot {op : Op} (halloc : h.Allocates op) {task : Addr} (hslot : newSlot op = some task) (host : Nat) :
    task ∉ (h.view host).queue := by
  cases op with
  | queuecommand sc slot => exact halloc task hslot host
  | prepare sc cmnd mem => cases hslot
  | eh_abort sc => cases hslot
  | eh_host_reset => cases hslot
  | read f_pos user count => cases hslot
  | write user count => cases hslot
  | receive_task arg => cases hslot
  | register_client pid => cases hslot
  | unregister_client => cases hslot
  | release => cases hslot

/-- A call into one session leaves the queued tasks of the others alone. -/
theorem Shared.other (hs : h.Shared) (halloc : h.Allocates c.op) {host : Nat} (hne : host ≠ c.host) :
    Hba.Same (h.view host) ((h.apply c).view host) := by
  have hlocal := apply_local c.freed (hs.valid c.host) c.op
  have hview := view_apply_other h c hne
  have hslots : ∀ task ∈ (h.view host).queue, ((h.apply c).view host).tasks task = (h.view host).tasks task := by
    intro task ht
    refine hlocal.slots task (hs.apart host c.host hne task ht) fun hslot => ?_
    exact halloc.newSlot hslot host ht
  exact ⟨by rw [hview], by rw [hview], by rw [hview], fun t ht => by rw [hslots t ht], fun t ht => by rw [hslots t ht],
    fun t ht => by rw [hslots t ht], fun t ht => .inl (by rw [hslots t ht]), fun _ => by rw [hview], by rw [hview]⟩

theorem Shared.apply (hs : h.Shared) (hallowed : (h.view c.host).Allowed c.op) (halloc : h.Allocates c.op)
    (hundisturbed : h.Undisturbed c) : (h.apply c).Shared := by
  have hlocal := apply_local c.freed (hs.valid c.host) c.op
  have hqueue : ∀ host ≠ c.host, ((h.apply c).view host).queue = (h.view host).queue := fun host hne =>
    (hs.other halloc hne).queue
  have hfree : ∀ host ≠ c.host, ∀ task ∈ ((h.apply c).view c.host).queue, task ∉ (h.view host).queue := by
    intro host hne task ht
    rw [view_apply_self] at ht
    rcases hlocal.queue task ht with hold | hslot
    · exact hs.apart c.host host hne.symm task hold
    · exact halloc.newSlot hslot host
  constructor
  · intro host
    by_cases heq : host = c.host
    · subst heq
      rw [view_apply_self]
      exact apply_valid (hs.valid c.host) hallowed hundisturbed
    · exact (hs.valid host).same (hs.other halloc heq)
  · intro i j hne task hi hj
    by_cases hci : i = c.host
    · subst hci
      rw [hqueue j hne.symm] at hj
      exact hfree j hne.symm task hi hj
    · rw [hqueue i hci] at hi
      by_cases hcj : j = c.host
      · subst hcj
        exact hfree i hci task hj hi
      · rw [hqueue j hcj] at hj
        exact hs.apart i j hne task hi hj

/-- A slot that has changed its tale in time makes the call answer a command it
has aborted, or keep silent about one it has completed. -/
theorem not_notified_of_disturbed (hs : h.Shared) (hdisturbed : ¬ h.Undisturbed c) : ¬ (h.apply c).Notified := by
  intro hnotified
  simp only [Undisturbed, slab.Undisturbed, not_forall] at hdisturbed
  obtain ⟨task, hfrees, hflags⟩ := hdisturbed
  have hvalid := hs.valid c.host
  obtain ⟨s, hpending⟩ := hvalid.pending task (hfrees.queued hvalid)
  obtain ⟨s', hentry, hgone, houtcome⟩ := frees_entry c.freed hvalid hfrees hpending
  rw [← view_apply_self] at hentry hgone
  obtain ⟨hsilent, hanswered⟩ := hnotified c.host _ s' hentry
  rcases houtcome with ⟨haborts, rfl⟩ | ⟨haborts, rfl⟩
  · have hne : (c.freed task).flags ≠ .aborted := fun heq => hflags ⟨fun _ => haborts, fun _ => heq⟩
    rw [notify_of_ne hne] at hsilent
    have hcalls : s.done_calls + 1 = 0 := hsilent rfl
    omega
  · have heq : (c.freed task).flags = .aborted := by
      by_contra hne
      exact hflags ⟨fun heq => absurd heq hne, fun h => absurd h haborts⟩
    rw [heq, notify_aborted] at hanswered
    have hcalls := hanswered hpending.aborted hgone
    rw [hpending.done_calls] at hcalls
    cases hcalls

/-- In a run of several sessions, aborted commands are never answered and
completed ones are answered once exactly if no freed slot changes its tale
before the function that has freed it looks at it again. -/
theorem notified_iff {start : Hosts} {trace : List (Hosts × HostCall)} (hinit : Initial start)
    (hrun : Run Step start trace h) : Always Notified trace h ↔ ∀ e ∈ trace, e.1.Undisturbed e.2 := by
  refine hrun.always_iff (I := Shared) (C := Undisturbed) (.initial hinit) (fun _ hs => hs.notified) ?_ ?_
  · rintro h c h' hs hundisturbed ⟨_, _, hallowed, halloc, rfl⟩
    exact hs.apply hallowed halloc hundisturbed
  · rintro h c h' hs hdisturbed ⟨_, _, _, _, rfl⟩
    exact not_notified_of_disturbed hs hdisturbed

/-- Sessions in cleared memory. -/
def fresh : Hosts := { slots := fun _ => .empty 0, hosts := fun _ => Hba.fresh }

theorem fresh_initial : Initial fresh := fun _ => Hba.fresh_initial

def register (host : Nat) : HostCall := { host, op := .register_client 1, freed := fun _ => .empty 0 }

/-- A submission that gets the slot 8. -/
def submit (host : Nat) : HostCall := { host, op := .queuecommand 0 (some 8), freed := fun _ => .empty 0 }

/-- Two sessions with a target each, and a command queued in the first. -/
def oneSubmitted : Hosts := ((fresh.apply (register 0)).apply (register 1)).apply (submit 0)

/-- The abort of that command, when its slot holds `task` at the end. -/
def abort (task : ScsitapTask) : HostCall := { host := 0, op := .eh_abort 0, freed := fun _ => task }

theorem register_queue (h : Hosts) (i host : Nat) : ((h.apply (register i)).view host).queue = (h.view host).queue := by
  by_cases heq : host = i
  · subst heq
    simp [view, apply, register, slab.apply, Hba.apply, Hba.queue, device.scsitap_ioctl_register_client]
  · rw [view_apply_other h (register i) heq]

theorem oneSubmitted_run : ∃ trace, Run Step fresh trace oneSubmitted ∧ ∀ e ∈ trace, e.1.Undisturbed e.2 := by
  have hfirst : Step fresh (register 0) (fresh.apply (register 0)) := ⟨rfl, fun _ => rfl, trivial, trivial, rfl⟩
  have hsecond : Step (fresh.apply (register 0)) (register 1) ((fresh.apply (register 0)).apply (register 1)) :=
    ⟨rfl, fun _ => rfl, trivial, trivial, rfl⟩
  have hempty : ∀ host, (((fresh.apply (register 0)).apply (register 1)).view host).queue = [] := by
    intro host
    rw [register_queue, register_queue]
    rfl
  have hthird : Step ((fresh.apply (register 0)).apply (register 1)) (submit 0) oneSubmitted := by
    refine ⟨rfl, fun _ => rfl, ⟨?_, ?_⟩, ?_, rfl⟩
    · rintro task ht
      cases ht
    · rintro task _ ht
      cases ht
    · rintro task _ host ht
      rw [← Hba.queue, hempty] at ht
      cases ht
  refine ⟨_, ((Run.nil.snoc hfirst).snoc hsecond).snoc hthird, ?_⟩
  intro e he
  simp only [List.nil_append, List.cons_append, List.mem_cons, List.not_mem_nil, or_false] at he
  rcases he with rfl | rfl | rfl <;> exact fun task hfrees => hfrees.elim

theorem abort_step (task : ScsitapTask) : Step oneSubmitted (abort task) (oneSubmitted.apply (abort task)) :=
  ⟨rfl, fun _ => rfl, trivial, trivial, rfl⟩

/-- The other session gets the slot and fills it in before the abort is over;
the abort answers the command it has given up. -/
theorem answered_after_reuse : ¬ ∀ start h trace, Initial start → Run Step start trace h → Always Notified trace h := by
  intro halways
  obtain ⟨trace, hrun, hundisturbed⟩ := oneSubmitted_run
  have hshared : oneSubmitted.Shared := hrun.invariant_of_steps (.initial fresh_initial)
    (fun _ _ _ hs hu hstep => hstep.2.2.2.2 ▸ hs.apply hstep.2.2.1 hstep.2.2.2.1 hu) hundisturbed
  have hstep := abort_step (hba.newTask (oneSubmitted.view 1) 0)
  have hnotified := (halways fresh _ _ fresh_initial (hrun.snoc hstep)).2
  refine not_notified_of_disturbed hshared ?_ hnotified
  intro hundisturbed
  have hmark : TaskFlags.submitted = TaskFlags.aborted := (hundisturbed 8 rfl).mpr trivial
  cases hmark

/-- The aborted task, still in its slot. -/
def kept : ScsitapTask := { oneSubmitted.slots 8 with flags := .aborted }

theorem notified_one_abort : ∃ trace, Run Step fresh trace (oneSubmitted.apply (abort kept)) ∧
    Always Notified trace (oneSubmitted.apply (abort kept)) := by
  obtain ⟨trace, hrun, hundisturbed⟩ := oneSubmitted_run
  have hrun' := hrun.snoc (abort_step kept)
  refine ⟨_, hrun', (notified_iff fresh_initial hrun').mpr ?_⟩
  intro e he
  rcases List.mem_append.mp he with he | he
  · exact hundisturbed e he
  · rw [List.mem_singleton.mp he]
    exact fun task _ => ⟨fun _ => trivial, fun _ => rfl⟩

end Hosts

end vscsi
