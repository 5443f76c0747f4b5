import Mathlib.Data.List.Basic

namespace lib

/-! Strings in arrays of characters. A result of `none` is an access past the end
of an array. -/

/-- What a string ends with. -/
def terminator : Char := Char.ofNat 0

/-- Stores one character. -/
def put (array : List Char) (i : Nat) (c : Char) : Option (List Char) :=
  if i < array.length then some (array.set i c) else none

def strlen : List Char → Option Nat
  | [] => none
  | c :: array => if c = terminator then some 0 else (strlen array).map (· + 1)

/-- The sign of the result is that of the first difference. -/
def strcmp : List Char → List Char → Option Int
  | c :: array, c' :: array' =>
    if c ≠ c' then some (c.toNat - c'.toNat)
    else if c = terminator then some 0
    else strcmp array array'
  | _, _ => none

def strcpy : (dest src : List Char) → Option (List Char)
  | _ :: dest, c :: src => if c = terminator then some (terminator :: dest) else (strcpy dest src).map (c :: ·)
  | _, _ => none

/-- What a function gets that is given an array as a string. -/
def string (array : List Char) : Option (List Char) := (strlen array).map fun length => array.take length

/-- An array starts with a string and the terminator of it. -/
def Holds (array s : List Char) : Prop := terminator ∉ s ∧ ∃ rest, array = s ++ terminator :: rest

variable {array array' dest src s s' : List Char} {c : Char}

theorem put_some {i : Nat} (h : i < array.length) (c : Char) : put array i c = some (array.set i c) := if_pos h

/-- A character behind the others. -/
theorem put_append (s : List Char) (old : Char) (rest : List Char) (c : Char) :
    put (s ++ old :: rest) s.length c = some ((s ++ [c]) ++ rest) := by
  rw [put_some (by simp)]
  simp

/-- The terminator ends the string before it. -/
theorem put_holds (hs : terminator ∉ s) (old : Char) (rest : List Char) :
    ∃ array, put (s ++ old :: rest) s.length terminator = some array ∧ Holds array s ∧
      array.length = (s ++ old :: rest).length := by
  refine ⟨_, put_append s old rest _, ⟨hs, rest, by simp⟩, by simp⟩

theorem holds_cons (hc : c ≠ terminator) : Holds (c :: array) (c :: s) ↔ Holds array s := by
  unfold Holds
  simp [hc.symm]

theorem Holds.nil_iff : Holds (c :: array) [] ↔ c = terminator := by
  unfold Holds
  simp

/-- A string that is not empty starts with the array. -/
theorem Holds.cons_inv (h : Holds array (c :: s)) : c ≠ terminator ∧ ∃ rest, array = c :: rest ∧ Holds rest s := by
  obtain ⟨hs, rest, rfl⟩ := h
  rw [List.mem_cons, not_or] at hs
  exact ⟨fun hc => hs.1 hc.symm, _, rfl, hs.2, rest, rfl⟩

theorem Holds.nil_inv (h : Holds array []) : ∃ rest, array = terminator :: rest := by
  obtain ⟨_, rest, rfl⟩ := h
  exact ⟨rest, rfl⟩

theorem strlen_holds (h : Holds array s) : strlen array = some s.length := by
  induction s generalizing array with
  | nil =>
    obtain ⟨rest, rfl⟩ := h.nil_inv
    rfl
  | cons c s ih =>
    obtain ⟨hc, rest, rfl, hrest⟩ := h.cons_inv
    rw [strlen, if_neg hc, ih hrest]
    rfl

theorem string_holds (h : Holds array s) : string array = some s := by
  rw [string, strlen_holds h]
  obtain ⟨_, rest, rfl⟩ := h
  simp

/-- A copy fits if the string does with its terminator. -/
theorem strcpy_holds (h : Holds src s) (hroom : s.length < dest.length) :
    ∃ dest', strcpy dest src = some dest' ∧ Holds dest' s ∧ dest'.length = dest.length := by
  induction s generalizing src dest with
  | nil =>
    obtain ⟨rest, rfl⟩ := h.nil_inv
    cases dest with
    | nil => cases hroom
    | cons old dest => exact ⟨terminator :: dest, rfl, Holds.nil_iff.mpr rfl, rfl⟩
  | cons c s ih =>
    obtain ⟨hc, rest, rfl, hrest⟩ := h.cons_inv
    cases dest with
    | nil => cases hroom
    | cons old dest =>
      obtain ⟨dest', hcopied, hholds, hlength⟩ := ih hrest (show s.length < dest.length from Nat.lt_of_succ_lt_succ hroom)
      refine ⟨c :: dest', ?_, (holds_cons hc).mpr hholds, congrArg Nat.succ hlength⟩
      rw [strcpy, if_neg hc, hcopied]
      rfl

/-- A comparison finds no difference exactly between equal strings. -/
theorem strcmp_holds (h : Holds array s) (h' : Holds array' s') :
    ∃ d, strcmp array array' = some d ∧ (d = 0 ↔ s = s') := by
  induction s generalizing array array' s' with
  | nil =>
    obtain ⟨rest, rfl⟩ := h.nil_inv
    cases s' with
    | nil =>
      obtain ⟨rest', rfl⟩ := h'.nil_inv
      exact ⟨0, rfl, iff_of_true rfl rfl⟩
    | cons c' s' =>
      obtain ⟨hc, rest', rfl, -⟩ := h'.cons_inv
      refine ⟨_, if_pos hc.symm, iff_of_false (fun hzero => hc ?_) (List.cons_ne_nil _ _).symm⟩
      exact (Char.toNat_inj.mp (by omega)).symm
  | cons c s ih =>
    obtain ⟨hc, rest, rfl, hrest⟩ := h.cons_inv
    cases s' with
    | nil =>
      obtain ⟨rest', rfl⟩ := h'.nil_inv
      refine ⟨_, if_pos hc, iff_of_false (fun hzero => hc ?_) (List.cons_ne_nil _ _)⟩
      exact Char.toNat_inj.mp (by omega)
    | cons c' s' =>
      obtain ⟨hc', rest', rfl, hrest'⟩ := h'.cons_inv
      by_cases heq : c = c'
      · subst heq
        obtain ⟨d, hd, hiff⟩ := ih hrest hrest'
        refine ⟨d, ?_, by simp [hiff]⟩
        rw [strcmp, if_neg (not_not.mpr rfl), if_neg hc, hd]
      · refine ⟨_, if_pos heq, iff_of_false (fun hzero => heq ?_) fun hsame => heq (List.cons.inj hsame).1⟩
        exact Char.toNat_inj.mp (by omega)

end lib
