import Vscsi.Lib.Memory

namespace lib

/-- A regular file: its bytes up to its size, and zero beyond. -/
@[ext] structure File where
  size : Nat
  bytes : Mem
  zero_beyond : ∀ i, size ≤ i → bytes i = 0

namespace File

def empty : File := ⟨0, fun _ => 0, fun _ _ => rfl⟩

/-- Cuts a file or extends it with zeros. -/
def truncate (f : File) (size : Nat) : File where
  size := size
  bytes := fun i => if i < size then f.bytes i else 0
  zero_beyond := fun _ h => if_neg (Nat.not_lt.mpr h)

/-- A write of no bytes does not extend the file. -/
def pwrite (f : File) (offset : Nat) (bytes : List UInt8) : File where
  size := if bytes = [] then f.size else max f.size (offset + bytes.length)
  bytes := blit f.bytes offset bytes
  zero_beyond := by
    intro i h
    split at h
    · rename_i hnil
      rw [hnil, blit_nil]
      exact f.zero_beyond i h
    · rw [blit_outside _ (.inr (by omega))]
      exact f.zero_beyond i (by omega)

/-- The bytes a read finds, which ends at the end of the file. -/
def pread (f : File) (offset count : Nat) : List UInt8 :=
  slice f.bytes offset (min count (f.size - offset))

variable (f : File) (offset : Nat)

@[simp] theorem pwrite_nil : f.pwrite offset [] = f := by
  apply File.ext <;> simp [pwrite]

@[simp] theorem pwrite_bytes (bytes : List UInt8) : (f.pwrite offset bytes).bytes = blit f.bytes offset bytes := rfl

/-- Two adjacent writes are one write of the concatenation. -/
theorem pwrite_append (front back : List UInt8) :
    (f.pwrite offset front).pwrite (offset + front.length) back = f.pwrite offset (front ++ back) := by
  by_cases hfront : front = []
  · simp [hfront]
  · by_cases hback : back = []
    · simp [hback]
    · apply File.ext
      · simp only [pwrite, hfront, hback, List.append_eq_nil_iff, false_and, if_false, List.length_append]
        omega
      · simp [blit_append]

/-- A write inside the file keeps its size. -/
theorem pwrite_size {bytes : List UInt8} (h : offset + bytes.length ≤ f.size) :
    (f.pwrite offset bytes).size = f.size := by
  simp only [pwrite]
  split
  · rfl
  · exact Nat.max_eq_left h

theorem pread_length_le (count : Nat) : (f.pread offset count).length ≤ count := by
  simp only [pread, slice_length]
  exact Nat.min_le_left _ _

/-- Inside the file a read finds all it asks for. -/
theorem pread_eq {count : Nat} (h : offset + count ≤ f.size) : f.pread offset count = slice f.bytes offset count := by
  rw [pread, Nat.min_eq_left (by omega)]

/-- A read that got all it asked for goes on where it ended. -/
theorem pread_add {first : Nat} (second : Nat) (h : (f.pread offset first).length = first) :
    f.pread offset first ++ f.pread (offset + first) second = f.pread offset (first + second) := by
  simp only [pread, slice_length] at h
  have hfirst : min first (f.size - offset) = first := h
  have hboth : min (first + second) (f.size - offset) = first + min second (f.size - (offset + first)) := by
    omega
  rw [pread, pread, pread, hfirst, hboth, slice_append]

theorem pread_length (count : Nat) : (f.pread offset count).length = min count (f.size - offset) := by
  simp [pread]

/-- Asking for as much as there was finds the same. -/
theorem pread_self (count : Nat) : f.pread offset (f.pread offset count).length = f.pread offset count := by
  simp only [pread, slice_length]
  congr 1
  omega

theorem pread_take (count first : Nat) : (f.pread offset count).take first = f.pread offset (min first count) := by
  simp only [pread, take_slice]
  congr 1
  omega

theorem pread_drop (count first : Nat) :
    (f.pread offset count).drop first = f.pread (offset + first) (count - first) := by
  simp only [pread, drop_slice]
  congr 1
  omega

theorem truncate_size : f.truncate f.size = f := by
  apply File.ext
  · rfl
  · funext i
    simp only [truncate]
    split
    · rfl
    · exact (f.zero_beyond i (by omega)).symm

end File

end lib
