import Vscsi.Lib.UserCopy

namespace lib

/-- What kernel code has made of the memory of a process, with the places it has
tried to load from or store to. -/
structure Touched (α : Type) where
  result : α
  user : UserMem
  places : List Nat

abbrev Access (α : Type) := UserMem → Touched α

namespace Access

variable {α β : Type}

instance : Monad Access where
  pure a user := ⟨a, user, []⟩
  bind p next user :=
    let first := p user
    let second := next first.result first.user
    ⟨second.result, second.user, first.places ++ second.places⟩

def load (i : Nat) : Access (Option UInt8) := fun user => ⟨user i, user, [i]⟩

/-- Returns whether the byte has been stored. -/
def store (i : Nat) (byte : UInt8) : Access Bool := fun user => ⟨(user i).isSome, lib.put_user user i byte, [i]⟩

def get_user (i : Nat) : Access UInt8 := do
  let byte ← load i
  return byte.getD 0

def put_user (i : Nat) (byte : UInt8) : Access Unit := do
  let _ ← store i byte

def copy_from_user (i : Nat) : (count : Nat) → Access (List UInt8)
  | 0 => return []
  | count + 1 => do
    match ← load i with
    | none => return []
    | some byte =>
      let bytes ← copy_from_user (i + 1) count
      return byte :: bytes

def copy_to_user (i : Nat) : List UInt8 → Access Nat
  | [] => return 0
  | byte :: bytes => do
    if ← store i byte then copy_to_user (i + 1) bytes else return (byte :: bytes).length

/-- What it comes to, without the places. -/
def run (p : Access α) (user : UserMem) : α × UserMem := ((p user).result, (p user).user)

/-- It touches no place from a limit on. -/
def Stays (limit : Nat) (p : Access α) (user : UserMem) : Prop := ∀ i ∈ (p user).places, i < limit

variable {user : UserMem} {i count limit : Nat}

@[simp] theorem run_pure (a : α) : (pure a : Access α).run user = (a, user) := rfl

@[simp] theorem run_bind (p : Access α) (next : α → Access β) :
    (p >>= next).run user = (next (p.run user).1).run (p.run user).2 := rfl

@[simp] theorem stays_pure (a : α) : (pure a : Access α).Stays limit user := nofun

@[simp] theorem stays_bind (p : Access α) (next : α → Access β) :
    (p >>= next).Stays limit user ↔ p.Stays limit user ∧ (next (p.run user).1).Stays limit (p.run user).2 :=
  List.forall_mem_append

@[simp] theorem run_load : (load i).run user = (user i, user) := rfl

@[simp] theorem stays_load : (load i).Stays limit user ↔ i < limit := List.forall_mem_singleton

@[simp] theorem run_store (byte : UInt8) : (store i byte).run user = ((user i).isSome, lib.put_user user i byte) := rfl

@[simp] theorem stays_store (byte : UInt8) : (store i byte).Stays limit user ↔ i < limit := List.forall_mem_singleton

@[simp] theorem run_get_user : (get_user i).run user = (lib.get_user user i, user) := rfl

@[simp] theorem stays_get_user : (get_user i).Stays limit user ↔ i < limit := by simp [get_user]

@[simp] theorem run_put_user (byte : UInt8) : (put_user i byte).run user = ((), lib.put_user user i byte) := rfl

@[simp] theorem stays_put_user (byte : UInt8) : (put_user i byte).Stays limit user ↔ i < limit := by simp [put_user]

@[simp] theorem run_copy_from_user (user : UserMem) (i count : Nat) :
    (copy_from_user i count).run user = (lib.copy_from_user user i count, user) := by
  induction count generalizing i with
  | zero => rfl
  | succ count ih =>
    rw [copy_from_user, run_bind, run_load, lib.copy_from_user]
    cases user i with
    | none => rfl
    | some byte => simp only [run_bind, ih, run_pure]

@[simp] theorem run_copy_to_user (user : UserMem) (i : Nat) (bytes : List UInt8) :
    (copy_to_user i bytes).run user = lib.copy_to_user user i bytes := by
  induction bytes generalizing user i with
  | nil => rfl
  | cons byte bytes ih =>
    rw [copy_to_user, run_bind, run_store, lib.copy_to_user, lib.put_user]
    cases hbyte : (user i).isSome with
    | false => rfl
    | true => exact ih _ _

/-- A copy of a range is over before a limit: the range ends there, or there is a
fault in it before. -/
def Before (user : UserMem) (i count limit : Nat) : Prop :=
  count = 0 ∨ i + count ≤ limit ∨ ∃ j, i ≤ j ∧ j < limit ∧ user j = none

theorem before_succ {byte : UInt8} (h : user i = some byte) :
    Before user i (count + 1) limit ↔ i < limit ∧ Before user (i + 1) count limit := by
  constructor
  · rintro (hnone | hend | ⟨j, hlo, hhi, hfault⟩)
    · exact absurd hnone (Nat.succ_ne_zero count)
    · exact ⟨by omega, .inr (.inl (by omega))⟩
    · have hne : j ≠ i := by
        rintro rfl
        rw [h] at hfault
        cases hfault
      exact ⟨by omega, .inr (.inr ⟨j, by omega, hhi, hfault⟩)⟩
  · rintro ⟨hfirst, hzero | hend | ⟨j, hlo, hhi, hfault⟩⟩
    · exact .inr (.inl (by omega))
    · exact .inr (.inl (by omega))
    · exact .inr (.inr ⟨j, by omega, hhi, hfault⟩)

theorem before_fault (h : user i = none) : Before user i (count + 1) limit ↔ i < limit := by
  constructor
  · rintro (hnone | hend | ⟨j, hlo, hhi, -⟩)
    · exact absurd hnone (Nat.succ_ne_zero count)
    · omega
    · omega
  · exact fun hfirst => .inr (.inr ⟨i, Nat.le_refl i, hfirst, h⟩)

@[simp] theorem before_zero : Before user i 0 limit := .inl rfl

/-- One range after the other: the second one counts unless the first has a fault. -/
theorem before_add {first second : Nat} : Before user i (first + second) limit ↔
    Before user i first limit ∧ (user.Accessible i first → Before user (i + first) second limit) := by
  constructor
  · rintro (hnone | hend | ⟨j, hlo, hhi, hfault⟩)
    · exact ⟨.inl (by omega), fun _ => .inl (by omega)⟩
    · exact ⟨.inr (.inl (by omega)), fun _ => .inr (.inl (by omega))⟩
    · by_cases hj : j < i + first
      · refine ⟨.inr (.inr ⟨j, hlo, hhi, hfault⟩), fun hall => ?_⟩
        have hsome := hall j hlo hj
        rw [hfault] at hsome
        cases hsome
      · exact ⟨.inr (.inl (by omega)), fun _ => .inr (.inr ⟨j, by omega, hhi, hfault⟩)⟩
  · rintro ⟨hfirst, hsecond⟩
    by_cases hall : user.Accessible i first
    · rcases hsecond hall with hzero | hend | ⟨j, hlo, hhi, hfault⟩
      · rwa [hzero, Nat.add_zero]
      · exact .inr (.inl (by omega))
      · exact .inr (.inr ⟨j, by omega, hhi, hfault⟩)
    · rcases hfirst with hzero | hend | hfault
      · exact absurd (hzero ▸ user.accessible_zero i) hall
      · obtain ⟨j, hlo, hhi, hfault⟩ : ∃ j, i ≤ j ∧ j < i + first ∧ ¬ (user j).isSome := by
          by_contra hnot
          push Not at hnot
          exact hall hnot
        exact .inr (.inr ⟨j, hlo, by omega, Option.not_isSome_iff_eq_none.mp hfault⟩)
      · exact .inr (.inr hfault)

/-- Without a fault it has to end there. -/
theorem before_accessible (hall : user.Accessible i count) : Before user i count limit ↔ count = 0 ∨ i + count ≤ limit := by
  refine or_congr_right ⟨?_, .inl⟩
  rintro (hend | ⟨j, hlo, hhi, hfault⟩)
  · exact hend
  · by_contra hlong
    have hsome := hall j hlo (by omega)
    rw [hfault] at hsome
    cases hsome

/-- That is where a copy from user memory touches nothing from the limit on. -/
theorem stays_copy_from_user (user : UserMem) (i count limit : Nat) :
    (copy_from_user i count).Stays limit user ↔ Before user i count limit := by
  induction count generalizing i with
  | zero => exact ⟨fun _ => .inl rfl, fun _ => stays_pure []⟩
  | succ count ih =>
    rw [copy_from_user, stays_bind, stays_load, run_load]
    cases hbyte : user i with
    | none =>
      rw [before_fault hbyte]
      exact and_iff_left (stays_pure [])
    | some byte =>
      rw [before_succ hbyte, stays_bind, ih]
      exact and_congr_right fun _ => and_iff_left (stays_pure _)

/-- A copy to user memory stays in its range. -/
theorem stays_copy_to_user {bytes : List UInt8} (h : i + bytes.length ≤ limit) (user : UserMem) :
    (copy_to_user i bytes).Stays limit user := by
  induction bytes generalizing user i with
  | nil => exact stays_pure 0
  | cons byte bytes ih =>
    rw [List.length_cons] at h
    rw [copy_to_user, stays_bind, stays_store, run_store]
    refine ⟨by omega, ?_⟩
    cases (user i).isSome with
    | false => exact stays_pure _
    | true => exact ih (by omega) _

end Access

end lib
