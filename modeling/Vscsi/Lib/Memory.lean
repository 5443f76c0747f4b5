import Mathlib.Algebra.Group.Nat.Defs
import Mathlib.Data.List.Basic
import Mathlib.Logic.Function.Basic

namespace lib

@[simp] theorem get_ofFn {n : Nat} {α : Type} (f : Fin n → α) (i : Fin n) : (Vector.ofFn f).get i = f i :=
  Vector.getElem_ofFn i.isLt

/-- A byte-addressed memory. -/
abbrev Mem := Nat → UInt8

/-- Memory after the bytes have been stored from `start` on. -/
def blit (mem : Mem) (start : Nat) (bytes : List UInt8) : Mem := fun i =>
  if start ≤ i then bytes[i - start]?.getD (mem i) else mem i

/-- The `count` bytes from `start` on. -/
def slice (mem : Mem) (start count : Nat) : List UInt8 :=
  (List.range count).map fun i => mem (start + i)

@[simp] theorem slice_length (mem : Mem) (start count : Nat) :
    (slice mem start count).length = count := by simp [slice]

theorem slice_getElem? (mem : Mem) (start : Nat) {count i : Nat} (h : i < count) :
    (slice mem start count)[i]? = some (mem (start + i)) := by
  simp [slice, h]

@[simp] theorem slice_zero (mem : Mem) (start : Nat) : slice mem start 0 = [] := rfl

theorem slice_succ (mem : Mem) (start count : Nat) :
    slice mem start (count + 1) = mem start :: slice mem (start + 1) count := by
  simp [slice, List.range_succ_eq_map, Function.comp_def, Nat.add_assoc, Nat.add_comm 1]

theorem slice_append (mem : Mem) (start first second : Nat) :
    slice mem start (first + second) = slice mem start first ++ slice mem (start + first) second := by
  simp [slice, List.range_add, Function.comp_def, Nat.add_assoc]

theorem take_slice (mem : Mem) (start count first : Nat) :
    (slice mem start count).take first = slice mem start (min first count) := by
  simp [slice, ← List.map_take, List.take_range]

theorem drop_slice (mem : Mem) (start count first : Nat) :
    (slice mem start count).drop first = slice mem (start + first) (count - first) := by
  apply List.ext_getElem
  · simp
  · intro i h h'
    simp [slice, Nat.add_assoc]

theorem slice_const (byte : UInt8) (start count : Nat) :
    slice (fun _ => byte) start count = List.replicate count byte := by
  rw [slice, List.map_const', List.length_range]

theorem slice_congr {mem mem' : Mem} {start count : Nat}
    (h : ∀ i, start ≤ i → i < start + count → mem i = mem' i) :
    slice mem start count = slice mem' start count := by
  apply List.map_congr_left
  intro i hi
  have hlt := List.mem_range.mp hi
  exact h _ (by omega) (by omega)

@[simp] theorem blit_nil (mem : Mem) (start : Nat) : blit mem start [] = mem := by
  funext i
  simp [blit]

theorem blit_of_lt (mem : Mem) {start i : Nat} (bytes : List UInt8) (h : i < start) :
    blit mem start bytes i = mem i := by
  rw [blit, if_neg (by omega)]

theorem blit_of_ge (mem : Mem) {start i : Nat} {bytes : List UInt8} (h : start + bytes.length ≤ i) :
    blit mem start bytes i = mem i := by
  have hnone : bytes[i - start]? = none := List.getElem?_eq_none (by omega)
  simp [blit, hnone]

/-- Bytes outside the stored range are untouched. -/
theorem blit_outside (mem : Mem) {start i : Nat} {bytes : List UInt8}
    (h : i < start ∨ start + bytes.length ≤ i) : blit mem start bytes i = mem i := by
  rcases h with h | h
  · exact blit_of_lt mem bytes h
  · exact blit_of_ge mem h

theorem blit_add (mem : Mem) (start : Nat) {i : Nat} {bytes : List UInt8} (h : i < bytes.length) :
    blit mem start bytes (start + i) = bytes[i] := by
  simp [blit, h]

theorem slice_blit (mem : Mem) (start : Nat) (bytes : List UInt8) :
    slice (blit mem start bytes) start bytes.length = bytes := by
  apply List.ext_getElem
  · simp
  · intro i h h'
    simp [slice, blit_add mem _ h']

theorem slice_blit_prefix (mem : Mem) (start : Nat) (front back : List UInt8) :
    slice (blit mem start (front ++ back)) start front.length = front := by
  apply List.ext_getElem
  · simp
  · intro i h h'
    have hlt : i < (front ++ back).length := by simp; omega
    simp [slice, blit_add mem _ hlt, List.getElem_append_left h']

/-- A range the store does not meet reads back as before. -/
theorem slice_blit_disjoint (mem : Mem) {start from_ count : Nat} {bytes : List UInt8}
    (h : from_ + count ≤ start ∨ start + bytes.length ≤ from_) :
    slice (blit mem start bytes) from_ count = slice mem from_ count := by
  apply slice_congr
  intro i hlo hhi
  apply blit_outside
  omega

/-- Two adjacent stores are one store of the concatenation. -/
theorem blit_append (mem : Mem) (start : Nat) (front back : List UInt8) :
    blit (blit mem start front) (start + front.length) back = blit mem start (front ++ back) := by
  funext i
  by_cases hlo : start ≤ i
  · obtain ⟨k, rfl⟩ := Nat.exists_eq_add_of_le hlo
    by_cases hfront : k < front.length
    · rw [blit_of_lt _ back (by omega), blit_add mem _ hfront, blit_add mem _ (by simp; omega),
        List.getElem_append_left hfront]
    · by_cases hback : k < front.length + back.length
      · have hk : k = front.length + (k - front.length) := by omega
        rw [hk, ← Nat.add_assoc, blit_add _ _ (show k - front.length < back.length by omega), Nat.add_assoc,
          blit_add mem _ (by simp; omega), List.getElem_append_right (by omega)]
        congr 1
        omega
      · rw [blit_outside _ (by omega), blit_outside _ (by omega), blit_outside _ (by simp; omega)]
  · rw [blit_of_lt _ _ (by omega), blit_of_lt _ _ (by omega), blit_of_lt _ _ (by omega)]

/-- The part in front may also be stored last. -/
theorem blit_before (mem : Mem) (start : Nat) (front back : List UInt8) :
    blit (blit mem (start + front.length) back) start front = blit mem start (front ++ back) := by
  rw [← blit_append]
  funext i
  by_cases hfront : start ≤ i ∧ i < start + front.length
  · obtain ⟨k, rfl⟩ := Nat.exists_eq_add_of_le hfront.1
    have hk : k < front.length := by omega
    rw [blit_add _ _ hk, blit_of_lt _ back hfront.2, blit_add _ _ hk]
  · rw [blit_outside _ (by omega)]
    by_cases hback : start + front.length ≤ i ∧ i < start + front.length + back.length
    · obtain ⟨k, rfl⟩ := Nat.exists_eq_add_of_le hback.1
      have hk : k < back.length := by omega
      rw [blit_add _ _ hk, blit_add _ _ hk]
    · rw [blit_outside _ (by omega), blit_outside _ (by omega), blit_outside _ (by omega)]

/-- Part of what was stored reads back. -/
theorem slice_blit_middle (mem : Mem) (start : Nat) (front middle back : List UInt8) :
    slice (blit mem start (front ++ (middle ++ back))) (start + front.length) middle.length = middle := by
  rw [← blit_append, slice_blit_prefix]

end lib
