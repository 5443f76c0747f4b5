import Vscsi.Lib.Memory

namespace lib

/-- Memory of a user process as the kernel sees it. An access to `none` faults. -/
abbrev UserMem := Nat → Option UInt8

/-- A process's own memory, all of it mapped. -/
def UserMem.mapped (mem : Mem) : UserMem := fun i => some (mem i)

/-- The contents a process finds in its memory. -/
def UserMem.contents (user : UserMem) : Mem := fun i => (user i).getD 0

/-- The range can be accessed without a fault. -/
def UserMem.Accessible (user : UserMem) (start count : Nat) : Prop :=
  ∀ i, start ≤ i → i < start + count → (user i).isSome

/-- Stores one byte, reporting nothing: a fault leaves memory as it was. -/
def put_user (user : UserMem) (i : Nat) (byte : UInt8) : UserMem :=
  if (user i).isSome then Function.update user i (some byte) else user

/-- Loads one byte. A fault yields zero, which a caller that drops the return
code takes for the value. -/
def get_user (user : UserMem) (i : Nat) : UInt8 := (user i).getD 0

/-- Copies bytes out to user memory up to the first fault; the result is the
number of bytes left uncopied and the memory. -/
def copy_to_user (user : UserMem) (i : Nat) : List UInt8 → Nat × UserMem
  | [] => (0, user)
  | byte :: bytes =>
    if (user i).isSome then copy_to_user (Function.update user i (some byte)) (i + 1) bytes
    else ((byte :: bytes).length, user)

/-- The bytes that a copy of `count` bytes from user memory transfers: all of
them, or those before the first fault. -/
def copy_from_user (user : UserMem) (i : Nat) : Nat → List UInt8
  | 0 => []
  | count + 1 =>
    match user i with
    | none => []
    | some byte => byte :: copy_from_user user (i + 1) count

@[simp] theorem UserMem.contents_mapped (mem : Mem) : (UserMem.mapped mem).contents = mem := rfl

@[simp] theorem get_user_mapped (mem : Mem) (i : Nat) : get_user (UserMem.mapped mem) i = mem i := rfl

@[simp] theorem UserMem.mapped_isSome (mem : Mem) (i : Nat) : (UserMem.mapped mem i).isSome = true := rfl

theorem UserMem.mapped_accessible (mem : Mem) (start count : Nat) :
    (UserMem.mapped mem).Accessible start count := fun _ _ _ => rfl

theorem UserMem.update_mapped (mem : Mem) (i : Nat) (byte : UInt8) :
    Function.update (UserMem.mapped mem) i (some byte) = UserMem.mapped (blit mem i [byte]) := by
  funext j
  by_cases h : j = i
  · subst h
    have hself : blit mem j [byte] (j + 0) = byte := blit_add mem j (by simp)
    simp only [Nat.add_zero] at hself
    simp [UserMem.mapped, hself]
  · have hother : blit mem i [byte] j = mem j := blit_outside mem (by simp; omega)
    simp [UserMem.mapped, Function.update, h, hother]

@[simp] theorem put_user_mapped (mem : Mem) (i : Nat) (byte : UInt8) :
    put_user (UserMem.mapped mem) i byte = UserMem.mapped (blit mem i [byte]) := by
  rw [put_user, if_pos (UserMem.mapped_isSome mem i), UserMem.update_mapped]

/-- Copying out to mapped memory stores every byte. -/
@[simp] theorem copy_to_user_mapped (mem : Mem) (i : Nat) (bytes : List UInt8) :
    copy_to_user (UserMem.mapped mem) i bytes = (0, UserMem.mapped (blit mem i bytes)) := by
  induction bytes generalizing mem i with
  | nil => simp [copy_to_user]
  | cons byte bytes ih =>
    rw [copy_to_user, if_pos (UserMem.mapped_isSome mem i), UserMem.update_mapped, ih]
    have happend := blit_append mem i [byte] bytes
    simp only [List.length_singleton, List.singleton_append] at happend
    rw [happend]

/-- Copying in from mapped memory loads every byte. -/
@[simp] theorem copy_from_user_mapped (mem : Mem) (i count : Nat) :
    copy_from_user (UserMem.mapped mem) i count = slice mem i count := by
  induction count generalizing i with
  | zero => rfl
  | succ count ih => simp [copy_from_user, UserMem.mapped, slice_succ, ← ih]

theorem copy_from_user_length_le (user : UserMem) (i count : Nat) :
    (copy_from_user user i count).length ≤ count := by
  induction count generalizing i with
  | zero => simp [copy_from_user]
  | succ count ih =>
    unfold copy_from_user
    cases user i with
    | none => simp
    | some byte => simpa using ih (i + 1)

@[simp] theorem UserMem.accessible_zero (user : UserMem) (start : Nat) : user.Accessible start 0 :=
  fun _ hlo hhi => absurd hhi (by omega)

/-- A copy gets all its bytes exactly when none of them faults. -/
theorem copy_from_user_length_iff (user : UserMem) (i count : Nat) :
    (copy_from_user user i count).length = count ↔ user.Accessible i count := by
  induction count generalizing i with
  | zero => simp [copy_from_user]
  | succ count ih =>
    unfold copy_from_user
    cases hbyte : user i with
    | none =>
      have hfault : ¬ user.Accessible i (count + 1) := by
        intro hall
        have hfirst := hall i (Nat.le_refl i) (by omega)
        rw [hbyte] at hfirst
        cases hfirst
      simp [hfault]
    | some byte =>
      rw [List.length_cons, Nat.add_right_cancel_iff, ih]
      constructor
      · intro hrest j hlo hhi
        by_cases heq : j = i
        · rw [heq, hbyte]
          rfl
        · exact hrest j (by omega) (by omega)
      · exact fun hall j hlo hhi => hall j (by omega) (by omega)

/-- What it gets then is what is there. -/
theorem copy_from_user_accessible {user : UserMem} {i count : Nat} (h : user.Accessible i count) :
    copy_from_user user i count = slice user.contents i count := by
  induction count generalizing i with
  | zero => rfl
  | succ count ih =>
    obtain ⟨byte, hbyte⟩ := Option.isSome_iff_exists.mp (h i (Nat.le_refl i) (by omega))
    have hrest : user.Accessible (i + 1) count := fun j hlo hhi => h j (by omega) (by omega)
    simp [copy_from_user, hbyte, slice_succ, ih hrest, UserMem.contents]

theorem UserMem.accessible_add {user : UserMem} {start first second : Nat} :
    user.Accessible start (first + second) ↔ user.Accessible start first ∧ user.Accessible (start + first) second := by
  constructor
  · exact fun h => ⟨fun i hlo hhi => h i hlo (by omega), fun i hlo hhi => h i (by omega) (by omega)⟩
  · rintro ⟨hfirst, hsecond⟩ i hlo hhi
    by_cases hi : i < start + first
    · exact hfirst i hlo hi
    · exact hsecond i (by omega) (by omega)

end lib
