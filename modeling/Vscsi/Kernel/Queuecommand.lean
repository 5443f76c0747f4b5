import Vscsi.Kernel.Valid

open lib

namespace vscsi

open hba

namespace hba

/-- The number the next accepted command gets. -/
def nextNumber (k : Hba) : UInt32 :=
  if k.session.next_cmdnumber ≠ 0 then k.session.next_cmdnumber else 1

/-- The task that `scsitap_queuecommand` fills in. -/
def newTask (k : Hba) (sc : Addr) : ScsitapTask where
  cmd_number := nextNumber k
  lun := (k.cmnds sc).lun
  flags := .submitted
  type := 67
  sc := sc
  seq := k.history.accepted.length

/-- The submission went into the queue as `task`. -/
structure Accepted (k : Hba) (sc task : Addr) (k' : Hba) : Prop where
  queue : k'.queue = k.queue ++ [task]
  count : k'.session.cmd_numbers = k.session.cmd_numbers + 1
  next : k'.session.next_cmdnumber = nextNumber k + 1
  tasks : k'.tasks = Function.update k.tasks task (newTask k sc)
  ptr : ∀ c, (k'.cmnds c).SCp_ptr = if c = sc then some task else (k.cmnds c).SCp_ptr
  history : k'.history = k.history.accept sc (nextNumber k)
  flags : k'.session.flags = k.session.flags
  lock : k'.session.scsitap_queue_lock = k.session.scsitap_queue_lock
  request : ∀ c, (k'.cmnds c).request = (k.cmnds c).request
  mem : k'.mem = k.mem

/-- The submission was turned away: nothing but the latest origin of its command
and the answered refusals is different. -/
structure TurnedAway (k : Hba) (sc : Addr) (k' : Hba) : Prop where
  session : k'.session = k.session
  tasks : k'.tasks = k.tasks
  ptr : ∀ c, (k'.cmnds c).SCp_ptr = if c = sc then none else (k.cmnds c).SCp_ptr
  accepted : k'.history.accepted = k.history.accepted
  refused : k'.history.refused = k.history.refused ∨ k'.history.refused = k.history.refused ++ [1]
  stray : k'.history.stray = k.history.stray
  origin : ∀ c ≠ sc, k'.history.origin c = k.history.origin c
  request : ∀ c, (k'.cmnds c).request = (k.cmnds c).request
  mem : k'.mem = k.mem

theorem modify_concat_length {α : Type} (l : List α) (x : α) (f : α → α) :
    (l ++ [x]).modify l.length f = l ++ [f x] := by
  induction l with
  | nil => rfl
  | cons y l ih => simpa using ih

theorem scsitap_queuecommand_accepted (k : Hba) (sc task : Addr) (hready : k.session.flags = .ready) :
    (scsitap_queuecommand k sc (some task)).1 = 0 ∧
      Accepted k sc task (scsitap_queuecommand k sc (some task)).2 := by
  constructor
  · simp [scsitap_queuecommand, scsitap_alloc_task, hready]
  · constructor <;>
      simp [scsitap_queuecommand, scsitap_alloc_task, ScsitapTask.empty, hready, nextNumber, newTask]
    · intro c
      by_cases h : c = sc <;> simp [h]
    · intro c
      by_cases h : c = sc <;> simp [h, ScsiCmnd.request]

theorem scsitap_queuecommand_busy (k : Hba) (sc : Addr) (hready : k.session.flags = .ready) :
    (scsitap_queuecommand k sc none).1 = SCSI_MLQUEUE_HOST_BUSY ∧
      TurnedAway k sc (scsitap_queuecommand k sc none).2 := by
  constructor
  · simp [scsitap_queuecommand, scsitap_alloc_task, hready]
  · constructor <;> simp [scsitap_queuecommand, scsitap_alloc_task, hready, History.busy]
    · intro c
      by_cases h : c = sc <;> simp [h]
    · intro c h
      simp [h]
    · intro c
      by_cases h : c = sc <;> simp [h, ScsiCmnd.request]

/-- The NOT_READY branch answers the command at once and does not look at its
`SCp.ptr`. -/
theorem scsitap_queuecommand_refused (k : Hba) (sc : Addr) (slot : Option Addr)
    (hready : k.session.flags ≠ .ready) (hptr : (k.cmnds sc).SCp_ptr = none) :
    (scsitap_queuecommand k sc slot).1 = 0 ∧
      TurnedAway k sc (scsitap_queuecommand k sc slot).2 := by
  constructor
  · simp [scsitap_queuecommand, hready]
  · have hmodify := modify_concat_length k.history.refused 0 (· + 1)
    constructor <;> simp [scsitap_queuecommand, hready, History.refuse, History.scsi_done, hmodify]
    · intro c
      by_cases h : c = sc <;> simp [h, hptr, set_sensedata_commfailure]
    · intro c h
      simp [h]
    · intro c
      by_cases h : c = sc <;> simp [h, ScsiCmnd.request, set_sensedata_commfailure]

end hba

namespace Hba.Valid

variable {k k' : Hba} {sc task : Addr}

theorem idle_ptr (h : k.Valid) (hidle : k.Idle sc) : (k.cmnds sc).SCp_ptr = none := by
  cases hptr : (k.cmnds sc).SCp_ptr with
  | none => rfl
  | some task =>
    obtain ⟨hmem, hsc⟩ := (h.back sc task).mp hptr
    exact absurd hsc (hidle task hmem)

theorem turnedAway (h : k.Valid) (hidle : k.Idle sc) (ha : TurnedAway k sc k') : k'.Valid := by
  have hqueue : k'.queue = k.queue := by rw [queue, ha.session]
  refine {
    count := ?_, order := ?_, back := ?_, live := ?_, pending := ?_, settled := ?_, numbers := ?_,
    next := ?_, refused := ?_, stray := ?_ }
  · rw [ha.session, hqueue]
    exact h.count
  · rw [hqueue, ha.tasks]
    exact h.order
  · intro c t
    rw [hqueue, ha.tasks, ha.ptr]
    by_cases hc : c = sc
    · subst hc
      rw [if_pos rfl, ← h.back, h.idle_ptr hidle]
    · rw [if_neg hc, h.back]
  · rw [hqueue, ha.tasks]
    exact h.live
  · intro t ht
    rw [hqueue] at ht
    obtain ⟨s, hs⟩ := h.pending t ht
    have hne : s.sc ≠ sc := by
      rw [hs.sc]
      exact hidle t ht
    refine ⟨s, ?_, ?_, ?_, hs.done_calls, hs.aborted, ?_⟩ <;> rw [ha.tasks]
    · rw [ha.accepted]
      exact hs.entry
    · exact hs.sc
    · exact hs.number
    · rw [ha.origin _ hne]
      exact hs.origin
  · intro seq s hs
    rw [ha.accepted] at hs
    rw [Queued, hqueue, ha.tasks]
    exact h.settled seq s hs
  · rw [ha.accepted]
    exact h.numbers
  · rw [ha.session, ha.accepted]
    exact h.next
  · intro calls hcalls
    rcases ha.refused with heq | heq <;> rw [heq] at hcalls
    · exact h.refused calls hcalls
    · rcases List.mem_append.mp hcalls with hold | hnew
      · exact h.refused calls hold
      · exact List.mem_singleton.mp hnew
  · rw [ha.stray]
    exact h.stray

theorem nextNumber_toNat (h : k.Valid) :
    (nextNumber k).toNat = numberOf k.history.accepted.length := h.next

/-- The generator skips zero when it wraps. -/
theorem numberOf_succ {x : UInt32} {n : Nat} (h : x.toNat = numberOf n) :
    (if x + 1 ≠ 0 then x + 1 else 1).toNat = numberOf (n + 1) := by
  have hadd : (x + 1).toNat = (x.toNat + 1) % 2 ^ 32 := UInt32.toNat_add x 1
  have hzero : x + 1 = 0 ↔ (x + 1).toNat = 0 := UInt32.toNat_inj.symm
  simp only [numberOf] at h ⊢
  by_cases hwrap : x + 1 = 0
  · have hnat := hzero.mp hwrap
    rw [if_neg (not_not_intro hwrap)]
    have hone : (1 : UInt32).toNat = 1 := rfl
    omega
  · have hnat := mt hzero.mpr hwrap
    rw [if_pos hwrap]
    omega

theorem accepted (h : k.Valid) (hidle : k.Idle sc) (hfresh : task ∉ k.queue)
    (ha : Accepted k sc task k') : k'.Valid := by
  have hself : k'.tasks task = newTask k sc := by rw [ha.tasks, Function.update_self]
  have hold : ∀ t ∈ k.queue, k'.tasks t = k.tasks t := by
    intro t ht
    rw [ha.tasks, Function.update_of_ne]
    rintro rfl
    exact hfresh ht
  have hmem : ∀ t, t ∈ k'.queue ↔ t ∈ k.queue ∨ t = task := by
    intro t
    rw [ha.queue, List.mem_append, List.mem_singleton]
  refine {
    count := ?_, order := ?_, back := ?_, live := ?_, pending := ?_, settled := ?_, numbers := ?_,
    next := ?_, refused := ?_, stray := ?_ }
  · have hone : (1 : UInt32).toNat = 1 := rfl
    rw [ha.count, ha.queue, UInt32.toNat_add, h.count, List.length_append, List.length_singleton, hone]
    omega
  · rw [ha.queue, List.pairwise_append]
    refine ⟨h.order.imp_of_mem ?_, List.pairwise_singleton _ _, ?_⟩
    · intro t u ht hu hlt
      rwa [hold t ht, hold u hu]
    · intro t ht u hu
      rw [List.mem_singleton.mp hu, hold t ht, hself]
      exact h.seq_lt ht
  · intro c t
    rw [ha.ptr, hmem]
    by_cases hc : c = sc
    · rw [if_pos hc]
      constructor
      · intro heq
        obtain rfl := Option.some.inj heq
        exact ⟨.inr rfl, by rw [hself, hc, newTask]⟩
      · rintro ⟨ht | rfl, hsc⟩
        · rw [hold t ht, hc] at hsc
          exact absurd hsc (hidle t ht)
        · rfl
    · rw [if_neg hc, h.back]
      constructor
      · rintro ⟨ht, hsc⟩
        exact ⟨.inl ht, by rwa [hold t ht]⟩
      · rintro ⟨ht | rfl, hsc⟩
        · exact ⟨ht, by rwa [hold t ht] at hsc⟩
        · rw [hself] at hsc
          exact absurd hsc.symm hc
  · intro t ht
    rcases (hmem t).mp ht with ht | rfl
    · rw [hold t ht]
      exact h.live t ht
    · rw [hself]
      exact .inl rfl
  · intro t ht
    rcases (hmem t).mp ht with ht | rfl
    · obtain ⟨s, hs⟩ := h.pending t ht
      have hne : s.sc ≠ sc := by
        rw [hs.sc]
        exact hidle t ht
      refine ⟨s, ?_, ?_, ?_, hs.done_calls, hs.aborted, ?_⟩ <;> rw [hold t ht]
      · rw [ha.history, History.accept, List.getElem?_append_left (h.seq_lt ht)]
        exact hs.entry
      · exact hs.sc
      · exact hs.number
      · rw [ha.history]
        exact (Function.update_of_ne hne _ _).trans hs.origin
    · refine ⟨{ sc, cmd_number := nextNumber k, done_calls := 0, aborted := false }, ?_, ?_, ?_, rfl, rfl, ?_⟩ <;>
        rw [hself] <;> simp [ha.history, History.accept, newTask]
  · intro seq s hs
    rw [ha.history, History.accept] at hs
    rcases Nat.lt_or_ge seq k.history.accepted.length with hlt | hge
    · rw [List.getElem?_append_left hlt] at hs
      refine (h.settled seq s hs).imp_left ?_
      rintro ⟨t, ht, hseq⟩
      exact ⟨t, (hmem t).mpr (.inl ht), by rw [hold t ht, hseq]⟩
    · have hlen := (List.getElem?_eq_some_iff.mp hs).1
      rw [List.length_append, List.length_singleton] at hlen
      refine .inl ⟨task, (hmem task).mpr (.inr rfl), ?_⟩
      rw [hself]
      change k.history.accepted.length = seq
      omega
  · intro seq s hs
    rw [ha.history, History.accept] at hs
    rcases Nat.lt_or_ge seq k.history.accepted.length with hlt | hge
    · rw [List.getElem?_append_left hlt] at hs
      exact h.numbers seq s hs
    · have hlen := (List.getElem?_eq_some_iff.mp hs).1
      rw [List.length_append, List.length_singleton] at hlen
      obtain rfl : seq = k.history.accepted.length := by omega
      rw [List.getElem?_concat_length] at hs
      obtain rfl := Option.some.inj hs
      exact h.nextNumber_toNat
  · have hlen : k'.history.accepted.length = k.history.accepted.length + 1 := by
      rw [ha.history, History.accept, List.length_append, List.length_singleton]
    rw [ha.next, hlen]
    exact numberOf_succ h.nextNumber_toNat
  · rw [ha.history]
    exact h.refused
  · rw [ha.history]
    exact h.stray

theorem queuecommand (h : k.Valid) (hidle : k.Idle sc) (slot : Option Addr)
    (hfresh : ∀ task, slot = some task → task ∉ k.queue) :
    (scsitap_queuecommand k sc slot).2.Valid := by
  by_cases hready : k.session.flags = .ready
  · cases slot with
    | none => exact h.turnedAway hidle (scsitap_queuecommand_busy k sc hready).2
    | some task =>
      exact h.accepted hidle (hfresh task rfl) (scsitap_queuecommand_accepted k sc task hready).2
  · exact h.turnedAway hidle (scsitap_queuecommand_refused k sc slot hready (h.idle_ptr hidle)).2

end Hba.Valid

end vscsi
