import Vscsi.Lib.Memory
import Mathlib.Data.List.Induction

namespace lib

/-- Bytes stored from an address on. -/
structure Store where
  start : Nat
  bytes : List UInt8

/-- The byte a store puts at an address, if it covers it. -/
def Store.byte? (s : Store) (i : Nat) : Option UInt8 := if s.start ≤ i then s.bytes[i - s.start]? else none

/-- Memory after some stores, the oldest first. -/
def replay (stores : List Store) (mem : Mem) : Mem := stores.foldl (fun mem s => blit mem s.start s.bytes) mem

/-- The byte of the latest store that covers an address. -/
def latest (stores : List Store) (i : Nat) : Option UInt8 :=
  stores.foldl (fun before s => (s.byte? i).or before) none

@[simp] theorem replay_nil (mem : Mem) : replay [] mem = mem := rfl

theorem replay_append (stores : List Store) (s : Store) (mem : Mem) :
    replay (stores ++ [s]) mem = blit (replay stores mem) s.start s.bytes := by
  simp [replay]

theorem latest_append (stores : List Store) (s : Store) (i : Nat) :
    latest (stores ++ [s]) i = (s.byte? i).or (latest stores i) := by
  simp [latest]

theorem blit_byte? (mem : Mem) (s : Store) (i : Nat) : blit mem s.start s.bytes i = (s.byte? i).getD (mem i) := by
  unfold blit Store.byte?
  split <;> simp

/-- The latest store wins: an address holds what the last store that covers it
has put there, or what it held at first. -/
theorem replay_apply (stores : List Store) (mem : Mem) (i : Nat) :
    replay stores mem i = (latest stores i).getD (mem i) := by
  induction stores using List.reverseRecOn with
  | nil => rfl
  | append_singleton stores s ih =>
    rw [replay_append, latest_append, blit_byte?, ih]
    cases s.byte? i with
    | none => rfl
    | some byte => rfl

/-- A store that no later one covers is the latest. -/
theorem latest_covered {stores later : List Store} {s : Store} {i : Nat} {byte : UInt8} (h : s.byte? i = some byte)
    (hlater : ∀ s' ∈ later, s'.byte? i = none) : latest (stores ++ s :: later) i = some byte := by
  induction later using List.reverseRecOn with
  | nil => rw [latest_append, h, Option.some_or]
  | append_singleton later s' ih =>
    rw [← List.cons_append, ← List.append_assoc, latest_append, hlater s' (by simp), Option.none_or]
    exact ih fun s'' hs'' => hlater s'' (List.mem_append_left _ hs'')

/-- Of the elements that have a property there is a last one. -/
theorem exists_last {α : Type} {P : α → Prop} {l : List α} (h : ∃ a ∈ l, P a) :
    ∃ earlier a later, l = earlier ++ a :: later ∧ P a ∧ ∀ b ∈ later, ¬ P b := by
  induction l using List.reverseRecOn with
  | nil =>
    obtain ⟨a, ha, -⟩ := h
    cases ha
  | append_singleton l b ih =>
    by_cases hb : P b
    · exact ⟨l, b, [], rfl, hb, by simp⟩
    · obtain ⟨a, hmem, ha⟩ := h
      have hbefore : a ∈ l := by
        rcases List.mem_append.mp hmem with hmem | hmem
        · exact hmem
        · rw [List.mem_singleton.mp hmem] at ha
          exact absurd ha hb
      obtain ⟨earlier, a', later, rfl, ha', hlater⟩ := ih ⟨a, hbefore, ha⟩
      refine ⟨earlier, a', later ++ [b], by simp, ha', fun c hc => ?_⟩
      rcases List.mem_append.mp hc with hc | hc
      · exact hlater c hc
      · rw [List.mem_singleton.mp hc]
        exact hb

theorem Store.byte?_nil (start i : Nat) : ({ start, bytes := [] } : Store).byte? i = none := by
  simp [byte?]

/-- The bytes of a store of memory. -/
theorem Store.byte?_slice (mem : Mem) (start first count i : Nat) (byte : UInt8) :
    ({ start, bytes := slice mem first count } : Store).byte? i = some byte ↔
      ∃ k < count, i = start + k ∧ byte = mem (first + k) := by
  unfold byte?
  constructor
  · intro h
    split at h
    · rename_i hstart
      obtain ⟨k, rfl⟩ := Nat.exists_eq_add_of_le hstart
      have hlt := (List.getElem?_eq_some_iff.mp h).1
      simp only [slice_length] at hlt
      rw [Nat.add_sub_cancel_left] at h hlt
      rw [slice_getElem? _ _ hlt] at h
      exact ⟨k, hlt, rfl, (Option.some.inj h).symm⟩
    · cases h
  · rintro ⟨k, hk, rfl, rfl⟩
    rw [if_pos (Nat.le_add_right _ _), Nat.add_sub_cancel_left, slice_getElem? _ _ hk]

end lib
