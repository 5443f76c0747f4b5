import Vscsi.Kernel.Removal
import Mathlib.Data.List.Nodup

open lib

namespace vscsi

/-- The command number of the `n`-th accepted command. -/
def numberOf (n : Nat) : Nat := 1 + n % (2 ^ 32 - 1)

namespace Hba

abbrev queue (k : Hba) : List Addr := k.session.scsitap_queue

/-- The `seq`-th accepted command is still in the queue. -/
def Queued (k : Hba) (seq : Nat) : Prop := ∃ task ∈ k.queue, (k.tasks task).seq = seq

/-- A queued task is the only trace of its submission: nothing was called or
aborted yet, and the latest submission of its command is this one. -/
structure Pending (k : Hba) (task : Addr) (s : Submission) : Prop where
  entry : k.history.accepted[(k.tasks task).seq]? = some s
  sc : s.sc = (k.tasks task).sc
  number : s.cmd_number = (k.tasks task).cmd_number
  done_calls : s.done_calls = 0
  aborted : s.aborted = false
  origin : k.history.origin s.sc = .accepted (k.tasks task).seq

/-- What a submission that left the queue looks like. -/
def Resolved (s : Submission) : Prop :=
  (s.done_calls = 1 ∧ s.aborted = false) ∨ (s.done_calls = 0 ∧ s.aborted = true)

/-- The invariant of a session, tying the queue to its counter, the back
pointers of the commands, the number generator and the history of calls. -/
structure Valid (k : Hba) : Prop where
  count : k.session.cmd_numbers.toNat = k.queue.length % 2 ^ 32
  order : k.queue.Pairwise fun t u => (k.tasks t).seq < (k.tasks u).seq
  back : ∀ sc task, (k.cmnds sc).SCp_ptr = some task ↔ task ∈ k.queue ∧ (k.tasks task).sc = sc
  live : ∀ task ∈ k.queue, (k.tasks task).flags = .submitted ∨ (k.tasks task).flags = .received
  pending : ∀ task ∈ k.queue, ∃ s, k.Pending task s
  settled : ∀ seq s, k.history.accepted[seq]? = some s → k.Queued seq ∨ Resolved s
  numbers : ∀ seq s, k.history.accepted[seq]? = some s → s.cmd_number.toNat = numberOf seq
  next : (if k.session.next_cmdnumber ≠ 0 then k.session.next_cmdnumber else 1).toNat =
    numberOf k.history.accepted.length
  refused : ∀ calls ∈ k.history.refused, calls = 1
  stray : k.history.stray = 0

namespace Valid

variable {k k' : Hba}

theorem initial {k : Hba} (h : Initial k) : k.Valid := by
  obtain ⟨id, tasks, cmnds, mem, hptr, rfl⟩ := h
  constructor <;> simp [hba.scsitap_create_session, History.initial, queue, numberOf, hptr]

theorem nodup (h : k.Valid) : k.queue.Nodup := by
  refine h.order.imp ?_
  rintro t u hlt rfl
  exact lt_irrefl _ hlt

theorem seq_injective (h : k.Valid) {t u : Addr} (ht : t ∈ k.queue) (hu : u ∈ k.queue)
    (heq : (k.tasks t).seq = (k.tasks u).seq) : t = u := by
  have hnodup : (k.queue.map fun t => (k.tasks t).seq).Nodup := by
    rw [List.Nodup, List.pairwise_map]
    exact h.order.imp fun hlt => Nat.ne_of_lt hlt
  exact List.inj_on_of_nodup_map hnodup ht hu heq

theorem seq_lt (h : k.Valid) {task : Addr} (ht : task ∈ k.queue) :
    (k.tasks task).seq < k.history.accepted.length := by
  obtain ⟨s, hs⟩ := h.pending task ht
  exact (List.getElem?_eq_some_iff.mp hs.entry).1

/-- A command with a queued task has that task as its `SCp.ptr`, so no two
queued tasks belong to one command. -/
theorem sc_injective (h : k.Valid) {t u : Addr} (ht : t ∈ k.queue) (hu : u ∈ k.queue)
    (heq : (k.tasks t).sc = (k.tasks u).sc) : t = u := by
  have hptr := (h.back _ t).mpr ⟨ht, heq⟩
  rw [(h.back _ u).mpr ⟨hu, rfl⟩] at hptr
  exact (Option.some.inj hptr).symm

/-- Removing a task keeps the invariant, whatever becomes of its submission, as
long as that is final. -/
theorem removed (h : k.Valid) {task : Addr} (ht : task ∈ k.queue)
    {f : Submission → Submission} (hr : hba.Removed k task f k')
    (hnumber : ∀ s, (f s).cmd_number = s.cmd_number)
    (hfinal : ∀ s, s.done_calls = 0 → s.aborted = false → Resolved (f s)) : k'.Valid := by
  have hmem : ∀ t, t ∈ k'.queue ↔ t ≠ task ∧ t ∈ k.queue := by
    intro t
    rw [queue, hr.queue]
    exact h.nodup.mem_erase_iff
  have htasks : ∀ t ∈ k'.queue, k'.tasks t = k.tasks t := fun t h' => hr.tasks t ((hmem t).mp h').1
  have hentry : ∀ seq s, k'.history.accepted[seq]? = some s → ∃ s₀, k.history.accepted[seq]? = some s₀ ∧
      s = if seq = (k.tasks task).seq then f s₀ else s₀ := by
    intro seq s hs
    rw [hr.accepted] at hs
    by_cases heq : (k.tasks task).seq = seq
    · subst heq
      rw [List.getElem?_modify_eq] at hs
      obtain ⟨s₀, hs₀, rfl⟩ := Option.map_eq_some_iff.mp hs
      exact ⟨s₀, hs₀, by rw [if_pos rfl]⟩
    · rw [List.getElem?_modify_ne _ _ heq] at hs
      exact ⟨s, hs, by rw [if_neg (Ne.symm heq)]⟩
  refine {
    count := ?_, order := ?_, back := ?_, live := ?_, pending := ?_, settled := ?_, numbers := ?_,
    next := ?_, refused := ?_, stray := ?_ }
  · have hpos := List.length_pos_of_mem ht
    have hone : (1 : UInt32).toNat = 1 := rfl
    rw [hr.count, queue, hr.queue, List.length_erase_of_mem ht, UInt32.toNat_sub, h.count, hone]
    omega
  · have hsub : k'.queue.Sublist k.queue := by
      rw [queue, hr.queue]
      exact List.erase_sublist
    refine (h.order.sublist hsub).imp_of_mem ?_
    intro t u ht' hu' hlt
    rwa [htasks t ht', htasks u hu']
  · intro sc t
    rw [hr.ptr, hmem]
    by_cases hsc' : sc = (k.tasks task).sc
    · rw [if_pos hsc']
      constructor
      · intro hnone
        cases hnone
      · rintro ⟨⟨hne, hmem'⟩, hsc''⟩
        rw [hr.tasks t hne] at hsc''
        exact absurd (h.sc_injective hmem' ht (hsc''.trans hsc')) hne
    · rw [if_neg hsc', h.back]
      constructor
      · rintro ⟨hmem', rfl⟩
        have hne : t ≠ task := by
          rintro rfl
          exact hsc' rfl
        exact ⟨⟨hne, hmem'⟩, by rw [hr.tasks t hne]⟩
      · rintro ⟨⟨hne, hmem'⟩, hsc''⟩
        exact ⟨hmem', by rwa [hr.tasks t hne] at hsc''⟩
  · intro t ht'
    rw [htasks t ht']
    exact h.live t ((hmem t).mp ht').2
  · intro t ht'
    obtain ⟨hne, hmem'⟩ := (hmem t).mp ht'
    obtain ⟨s, hs⟩ := h.pending t hmem'
    have hseq : (k.tasks task).seq ≠ (k.tasks t).seq := fun heq => hne (h.seq_injective hmem' ht heq.symm)
    refine ⟨s, ?_, ?_, ?_, hs.done_calls, hs.aborted, ?_⟩ <;> rw [htasks t ht']
    · rw [hr.accepted, List.getElem?_modify_ne _ _ hseq]
      exact hs.entry
    · exact hs.sc
    · exact hs.number
    · rw [hr.origin]
      exact hs.origin
  · intro seq s hs
    obtain ⟨s₀, hs₀, rfl⟩ := hentry seq s hs
    by_cases heq : seq = (k.tasks task).seq
    · rw [if_pos heq]
      obtain ⟨s₁, hs₁⟩ := h.pending task ht
      have hsame : s₀ = s₁ := Option.some.inj (by rw [← hs₀, ← hs₁.entry, heq])
      subst hsame
      exact .inr (hfinal s₀ hs₁.done_calls hs₁.aborted)
    · rw [if_neg heq]
      refine (h.settled seq s₀ hs₀).imp_left ?_
      rintro ⟨t, hmem', hseq⟩
      have hne : t ≠ task := by
        rintro rfl
        exact heq hseq.symm
      exact ⟨t, (hmem t).mpr ⟨hne, hmem'⟩, by rw [hr.tasks t hne, hseq]⟩
  · intro seq s hs
    obtain ⟨s₀, hs₀, rfl⟩ := hentry seq s hs
    have hbefore := h.numbers seq s₀ hs₀
    split
    · rw [hnumber, hbefore]
    · exact hbefore
  · rw [hr.next, hr.accepted, List.length_modify]
    exact h.next
  · rw [hr.refused]
    exact h.refused
  · rw [hr.stray]
    exact h.stray

end Valid

/-- The two states agree on everything the invariant speaks of, except that
queued tasks may have become received. -/
structure Same (k k' : Hba) : Prop where
  queue : k'.queue = k.queue
  count : k'.session.cmd_numbers = k.session.cmd_numbers
  next : k'.session.next_cmdnumber = k.session.next_cmdnumber
  seq : ∀ task ∈ k.queue, (k'.tasks task).seq = (k.tasks task).seq
  sc : ∀ task ∈ k.queue, (k'.tasks task).sc = (k.tasks task).sc
  number : ∀ task ∈ k.queue, (k'.tasks task).cmd_number = (k.tasks task).cmd_number
  flags : ∀ task ∈ k.queue, (k'.tasks task).flags = (k.tasks task).flags ∨ (k'.tasks task).flags = .received
  ptr : ∀ sc, (k'.cmnds sc).SCp_ptr = (k.cmnds sc).SCp_ptr
  history : k'.history = k.history

/-- Only the session's flags or the memory of commands and buffers changed. -/
theorem Same.of_tasks {k k' : Hba} (hqueue : k'.queue = k.queue)
    (hcount : k'.session.cmd_numbers = k.session.cmd_numbers)
    (hnext : k'.session.next_cmdnumber = k.session.next_cmdnumber) (htasks : k'.tasks = k.tasks)
    (hptr : ∀ sc, (k'.cmnds sc).SCp_ptr = (k.cmnds sc).SCp_ptr) (hhistory : k'.history = k.history) :
    Same k k' :=
  ⟨hqueue, hcount, hnext, fun _ _ => by rw [htasks], fun _ _ => by rw [htasks],
    fun _ _ => by rw [htasks], fun _ _ => .inl (by rw [htasks]), hptr, hhistory⟩

theorem Valid.same {k k' : Hba} (h : k.Valid) (hs : Same k k') : k'.Valid := by
  refine {
    count := ?_, order := ?_, back := ?_, live := ?_, pending := ?_, settled := ?_, numbers := ?_,
    next := ?_, refused := ?_, stray := ?_ }
  · rw [hs.count, hs.queue]
    exact h.count
  · rw [hs.queue]
    refine h.order.imp_of_mem ?_
    intro t u ht hu hlt
    rwa [hs.seq t ht, hs.seq u hu]
  · intro sc t
    rw [hs.ptr, h.back, hs.queue]
    constructor
    · rintro ⟨ht, hsc⟩
      exact ⟨ht, by rwa [hs.sc t ht]⟩
    · rintro ⟨ht, hsc⟩
      exact ⟨ht, by rwa [hs.sc t ht] at hsc⟩
  · intro t ht
    rw [hs.queue] at ht
    rcases hs.flags t ht with hflags | hflags
    · rw [hflags]
      exact h.live t ht
    · exact .inr hflags
  · intro t ht
    rw [hs.queue] at ht
    obtain ⟨s, hs'⟩ := h.pending t ht
    refine ⟨s, ?_, ?_, ?_, hs'.done_calls, hs'.aborted, ?_⟩
    · rw [hs.history, hs.seq t ht]
      exact hs'.entry
    · rw [hs.sc t ht]
      exact hs'.sc
    · rw [hs.number t ht]
      exact hs'.number
    · rw [hs.history, hs.seq t ht]
      exact hs'.origin
  · intro seq s hs'
    rw [hs.history] at hs'
    refine (h.settled seq s hs').imp_left ?_
    rintro ⟨t, ht, hseq⟩
    exact ⟨t, by rwa [hs.queue], by rw [hs.seq t ht, hseq]⟩
  · rw [hs.history]
    exact h.numbers
  · rw [hs.next, hs.history]
    exact h.next
  · rw [hs.history]
    exact h.refused
  · rw [hs.history]
    exact h.stray

end Hba

end vscsi
