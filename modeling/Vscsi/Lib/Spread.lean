import Vscsi.Lib.UserCopy

namespace lib

/-- Memory after bytes have been stored at the listed places, one at each,
until one of the lists runs out. -/
def spread (mem : Mem) : List Nat → List UInt8 → Mem
  | place :: places, byte :: bytes => spread (Function.update mem place byte) places bytes
  | _, _ => mem

section spread

variable (mem : Mem)

@[simp] theorem spread_nil_left (bytes : List UInt8) : spread mem [] bytes = mem := rfl

@[simp] theorem spread_nil_right (places : List Nat) : spread mem places [] = mem := by
  cases places with
  | nil => rfl
  | cons place places => rfl

theorem spread_outside {places : List Nat} {i : Nat} (h : i ∉ places) (bytes : List UInt8) :
    spread mem places bytes i = mem i := by
  induction places generalizing mem bytes with
  | nil => rfl
  | cons place places ih =>
    cases bytes with
    | nil => rfl
    | cons byte bytes =>
      rw [spread, ih _ (mt (.tail _) h)]
      exact Function.update_of_ne (List.ne_of_not_mem_cons h) _ _

/-- What comes after the bytes of the first places goes to the others. -/
theorem spread_append {front : List Nat} {bytes : List UInt8} (h : bytes.length = front.length) (back : List Nat)
    (rest : List UInt8) :
    spread mem (front ++ back) (bytes ++ rest) = spread (spread mem front bytes) back rest := by
  induction front generalizing mem bytes with
  | nil => rw [List.eq_nil_of_length_eq_zero h, List.nil_append, List.nil_append, spread_nil_left]
  | cons place front ih =>
    cases bytes with
    | nil => cases h
    | cons byte bytes =>
      rw [List.cons_append, List.cons_append, spread, spread, ih _ (Nat.succ_inj.mp h)]

/-- Bytes that end within the first places leave the others alone. -/
theorem spread_append_of_le {front : List Nat} {bytes : List UInt8} (h : bytes.length ≤ front.length)
    (back : List Nat) : spread mem (front ++ back) bytes = spread mem front bytes := by
  induction front generalizing mem bytes with
  | nil => rw [List.eq_nil_of_length_eq_zero (Nat.le_zero.mp h), spread_nil_right, spread_nil_right]
  | cons place front ih =>
    cases bytes with
    | nil => rfl
    | cons byte bytes => rw [List.cons_append, spread, spread, ih _ (Nat.le_of_succ_le_succ h)]

/-- Distinct places hold what was stored there. -/
theorem map_spread {places : List Nat} (hnodup : places.Nodup) {bytes : List UInt8}
    (hlen : bytes.length = places.length) : places.map (spread mem places bytes) = bytes := by
  induction places generalizing mem bytes with
  | nil => exact (List.eq_nil_of_length_eq_zero hlen).symm
  | cons place places ih =>
    cases bytes with
    | nil => cases hlen
    | cons byte bytes =>
      obtain ⟨hnew, hrest⟩ := List.nodup_cons.mp hnodup
      rw [List.map_cons, spread, ih _ hrest (Nat.succ_inj.mp hlen), spread_outside _ hnew, Function.update_self]

/-- Storing what is there changes nothing. -/
theorem spread_map_self (places : List Nat) : spread mem places (places.map mem) = mem := by
  induction places with
  | nil => rfl
  | cons place places ih => rw [List.map_cons, spread, Function.update_eq_self, ih]

/-- A range is a list of places, and a store to it need not fill it. -/
theorem blit_eq_spread (start : Nat) {count : Nat} {bytes : List UInt8} (h : bytes.length ≤ count) :
    blit mem start bytes = spread mem (List.range' start count) bytes := by
  induction count generalizing mem start bytes with
  | zero => rw [List.eq_nil_of_length_eq_zero (Nat.le_zero.mp h), blit_nil, spread_nil_right]
  | succ count ih =>
    cases bytes with
    | nil => rw [blit_nil, spread_nil_right]
    | cons byte bytes =>
      have hfirst : blit mem start [byte] = Function.update mem start byte := by
        funext i
        by_cases hi : i = start
        · subst hi
          have hself : blit mem i [byte] (i + 0) = byte := blit_add mem i (by simp)
          rw [Function.update_self]
          exact hself
        · rw [Function.update_of_ne hi]
          exact blit_outside mem (by rw [List.length_singleton]; omega)
      rw [List.range'_succ, spread, ← ih _ _ (Nat.le_of_succ_le_succ h), ← hfirst, ← List.singleton_append,
        ← blit_append, List.length_singleton]

theorem slice_eq_map (start count : Nat) : slice mem start count = (List.range' start count).map mem := by
  induction count generalizing start with
  | zero => rfl
  | succ count ih => rw [slice_succ, ih, List.range'_succ, List.map_cons]

end spread

section copies

variable {user : UserMem} {i : Nat}

/-- A copy in two parts stops in the first or goes on with the second. -/
theorem copy_from_user_add (user : UserMem) (i first second : Nat) :
    copy_from_user user i (first + second) = copy_from_user user i first ++
      if (copy_from_user user i first).length = first then copy_from_user user (i + first) second else [] := by
  induction first generalizing i with
  | zero => simp [copy_from_user]
  | succ first ih =>
    have hshift : i + 1 + first = i + (first + 1) := by omega
    rw [show first + 1 + second = first + second + 1 by omega, copy_from_user, copy_from_user]
    cases hbyte : user i with
    | none => simp
    | some byte => simp only [ih, hshift, List.length_cons, Nat.add_right_cancel_iff, List.cons_append]

/-- Copying out succeeds exactly when no byte faults. -/
theorem copy_to_user_eq_zero (user : UserMem) (i : Nat) (bytes : List UInt8) :
    (copy_to_user user i bytes).1 = 0 ↔ user.Accessible i bytes.length := by
  induction bytes generalizing user i with
  | nil => simp [copy_to_user]
  | cons byte bytes ih =>
    have hone : user.Accessible i 1 ↔ (user i).isSome := by
      constructor
      · exact fun h => h i (Nat.le_refl i) (by omega)
      · intro h j hlo hhi
        rw [show j = i by omega]
        exact h
    have hrest : ∀ byte, UserMem.Accessible (Function.update user i (some byte)) (i + 1) bytes.length ↔
        user.Accessible (i + 1) bytes.length := by
      intro byte
      apply forall₃_congr
      intro j hlo hhi
      rw [Function.update_of_ne (by omega)]
    rw [copy_to_user, List.length_cons, Nat.add_comm bytes.length 1, UserMem.accessible_add, hone]
    by_cases hsome : (user i).isSome
    · rw [if_pos hsome, ih, hrest]
      exact (and_iff_right hsome).symm
    · rw [if_neg hsome]
      simp [hsome]

/-- No copy makes a byte accessible or takes one away. -/
theorem copy_to_user_isSome (user : UserMem) (i : Nat) (bytes : List UInt8) (j : Nat) :
    ((copy_to_user user i bytes).2 j).isSome = (user j).isSome := by
  induction bytes generalizing user i with
  | nil => rfl
  | cons byte bytes ih =>
    rw [copy_to_user]
    by_cases hsome : (user i).isSome
    · rw [if_pos hsome, ih]
      by_cases hj : j = i
      · rw [hj, Function.update_self, hsome]
        rfl
      · rw [Function.update_of_ne hj]
    · rw [if_neg hsome]

theorem copy_to_user_accessible (user : UserMem) (i : Nat) (bytes : List UInt8) (start count : Nat) :
    (copy_to_user user i bytes).2.Accessible start count ↔ user.Accessible start count := by
  simp only [UserMem.Accessible, copy_to_user_isSome]

/-- Bytes that are not copied to are untouched. -/
theorem copy_to_user_outside (user : UserMem) {bytes : List UInt8} {j : Nat} (h : j < i ∨ i + bytes.length ≤ j) :
    (copy_to_user user i bytes).2 j = user j := by
  induction bytes generalizing user i with
  | nil => rfl
  | cons byte bytes ih =>
    rw [List.length_cons] at h
    rw [copy_to_user]
    by_cases hsome : (user i).isSome
    · rw [if_pos hsome, ih _ (by omega), Function.update_of_ne (by omega)]
    · rw [if_neg hsome]

/-- Copying out in two parts stops in the first or goes on with the second. -/
theorem copy_to_user_append (user : UserMem) (i : Nat) (front back : List UInt8) :
    copy_to_user user i (front ++ back) =
      if (copy_to_user user i front).1 = 0 then
        copy_to_user (copy_to_user user i front).2 (i + front.length) back
      else ((copy_to_user user i front).1 + back.length, (copy_to_user user i front).2) := by
  induction front generalizing user i with
  | nil => simp [copy_to_user]
  | cons byte front ih =>
    rw [List.cons_append, copy_to_user, copy_to_user]
    by_cases hsome : (user i).isSome
    · have hshift : i + 1 + front.length = i + (front.length + 1) := by omega
      simp only [if_pos hsome, ih, List.length_cons, hshift]
    · simp only [if_neg hsome, List.length_cons, List.length_append, Nat.succ_ne_zero, if_false]
      congr 1
      omega

/-- What was copied out can be copied in again. -/
theorem copy_from_user_copy_to_user {bytes : List UInt8} (h : user.Accessible i bytes.length) :
    copy_from_user (copy_to_user user i bytes).2 i bytes.length = bytes := by
  induction bytes generalizing user i with
  | nil => rfl
  | cons byte bytes ih =>
    have hsome : (user i).isSome := h i (Nat.le_refl i) (by rw [List.length_cons]; omega)
    have hrest : UserMem.Accessible (Function.update user i (some byte)) (i + 1) bytes.length := by
      intro j hlo hhi
      rw [Function.update_of_ne (by omega)]
      exact h j (by omega) (by rw [List.length_cons]; omega)
    have hfirst : (copy_to_user (Function.update user i (some byte)) (i + 1) bytes).2 i = some byte := by
      rw [copy_to_user_outside _ (.inl (Nat.lt_succ_self i)), Function.update_self]
    rw [copy_to_user, if_pos hsome, List.length_cons, copy_from_user, hfirst]
    exact congrArg (byte :: ·) (ih hrest)

end copies

end lib
