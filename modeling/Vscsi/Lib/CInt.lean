import Mathlib.Algebra.Group.Int.Defs
import Mathlib.Algebra.Group.Nat.Defs
import Mathlib.Data.Int.Basic

namespace lib

/-- Conversion to a 32-bit `int`; also the value 32-bit arithmetic leaves on a
machine that wraps. -/
def int32 (x : Int) : Int := Int.bmod x (2 ^ 32)

/-- Conversion of an `int` or `long` to a 64-bit `size_t`. -/
def size_t (x : Int) : Nat := (x % 2 ^ 64).toNat

theorem int32_of_range {x : Int} (hlo : -2 ^ 31 ≤ x) (hhi : x < 2 ^ 31) : int32 x = x := by
  apply Int.bmod_eq_of_le <;> omega

theorem int32_lt (x : Int) : int32 x < 2 ^ 31 := by
  have := Int.bmod_lt (x := x) (m := 2 ^ 32) (by decide)
  simp only [int32]
  omega

/-- Only the final value of a wrapped product matters. -/
theorem int32_mul_int32 (x y : Int) : int32 (int32 x * y) = int32 (x * y) := by
  simp [int32]

/-- Wrapping does not make a number larger. -/
theorem int32_le {x : Int} (h : 0 ≤ x) : int32 x ≤ x := by
  simp only [int32, Int.bmod_def]
  split <;> omega

theorem size_t_of_range {x : Int} (hlo : 0 ≤ x) (hhi : x < 2 ^ 64) : (size_t x : Int) = x := by
  simp only [size_t]
  omega

/-- A byte survives being kept in an `int`. -/
@[simp] theorem ofInt_toNat (x : UInt8) : UInt8.ofInt x.toNat = x := by
  have hlt := x.toNat_lt
  have hmod : ((x.toNat : Int) % 2 ^ 8).toNat = x.toNat := by omega
  rw [UInt8.ofInt, hmod, UInt8.ofNat_toNat]

end lib
