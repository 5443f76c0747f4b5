import Mathlib.Algebra.Group.Nat.Defs
import Mathlib.Data.List.Induction

namespace lib

/-- The four bytes of a 32-bit value in a little-endian machine's memory. -/
def le32 (x : UInt32) : List UInt8 :=
  [UInt8.ofNat x.toNat, UInt8.ofNat (x.toNat / 2 ^ 8), UInt8.ofNat (x.toNat / 2 ^ 16),
    UInt8.ofNat (x.toNat / 2 ^ 24)]

/-- The 32-bit value a little-endian machine loads from the first four bytes. -/
def unle32 : List UInt8 → UInt32
  | b0 :: b1 :: b2 :: b3 :: _ =>
    UInt32.ofNat (b0.toNat + 2 ^ 8 * b1.toNat + 2 ^ 16 * b2.toNat + 2 ^ 24 * b3.toNat)
  | _ => 0

/-- The value of a list of bytes, most significant byte first. -/
def beNat (bytes : List UInt8) : Nat := bytes.foldl (fun acc b => 2 ^ 8 * acc + b.toNat) 0

/-- The low `count` bytes of a number, most significant byte first. -/
def be (count value : Nat) : List UInt8 :=
  (List.range count).map fun i => UInt8.ofNat (value / 2 ^ (8 * (count - 1 - i)))

/-- The value of a list of bytes, least significant byte first. -/
def leNat : List UInt8 → Nat
  | [] => 0
  | b :: bytes => b.toNat + 2 ^ 8 * leNat bytes

/-- The eight bytes of a 64-bit value in a little-endian machine's memory. -/
def le64 (x : Nat) : List UInt8 := (List.range 8).map fun i => UInt8.ofNat (x / 2 ^ (8 * i))

/-- Network byte order to the order of a little-endian machine. -/
def ntohl (x : UInt32) : UInt32 := UInt32.ofNat (beNat (le32 x))

def ntohs (x : UInt16) : UInt16 :=
  UInt16.ofNat (beNat [UInt8.ofNat x.toNat, UInt8.ofNat (x.toNat / 2 ^ 8)])

/-- The same exchange of bytes. -/
def htonl (x : UInt32) : UInt32 := ntohl x

@[simp] theorem le32_length (x : UInt32) : (le32 x).length = 4 := rfl

@[simp] theorem le64_length (x : Nat) : (le64 x).length = 8 := rfl

@[simp] theorem be_length (count value : Nat) : (be count value).length = count := by
  simp [be]

@[simp] theorem unle32_le32_append (x : UInt32) (rest : List UInt8) :
    unle32 (le32 x ++ rest) = x := by
  have hx : x.toNat < 2 ^ 32 := x.toNat_lt
  apply UInt32.toNat_inj.mp
  simp only [le32, unle32, List.cons_append, List.nil_append, UInt32.toNat_ofNat', UInt8.toNat_ofNat']
  omega

@[simp] theorem unle32_le32 (x : UInt32) : unle32 (le32 x) = x := by
  simpa using unle32_le32_append x []

theorem beNat_append_singleton (bytes : List UInt8) (b : UInt8) :
    beNat (bytes ++ [b]) = 2 ^ 8 * beNat bytes + b.toNat := by
  simp [beNat]

theorem beNat_lt (bytes : List UInt8) : beNat bytes < 2 ^ (8 * bytes.length) := by
  induction bytes using List.reverseRecOn with
  | nil => simp [beNat]
  | append_singleton bytes b ih =>
    have hb := b.toNat_lt
    rw [beNat_append_singleton, List.length_append, List.length_singleton, Nat.mul_add, Nat.pow_add]
    omega

/-- Dropping the last byte of an encoding drops the low byte of the number. -/
theorem be_succ (count value : Nat) :
    be (count + 1) value = be count (value / 2 ^ 8) ++ [UInt8.ofNat value] := by
  have hmap : ∀ i ∈ List.range count,
      UInt8.ofNat (value / 2 ^ (8 * (count + 1 - 1 - i))) =
        UInt8.ofNat (value / 2 ^ 8 / 2 ^ (8 * (count - 1 - i))) := by
    intro i hi
    have hlt := List.mem_range.mp hi
    rw [Nat.div_div_eq_div_mul, ← Nat.pow_add]
    congr 3
    omega
  simp only [be, List.range_succ, List.map_append, List.map_singleton]
  rw [List.map_congr_left hmap]
  simp

theorem beNat_be (count value : Nat) : beNat (be count value) = value % 2 ^ (8 * count) := by
  induction count generalizing value with
  | zero => simp [be, beNat, Nat.mod_one]
  | succ count ih =>
    rw [be_succ, beNat_append_singleton, ih, UInt8.toNat_ofNat', Nat.mul_succ, Nat.add_comm (8 * count),
      Nat.pow_add, Nat.mod_mul, Nat.add_comm]

/-- An encoding has no more of a number than its low bytes. -/
theorem be_mod (count value : Nat) : be count (value % 2 ^ (8 * count)) = be count value := by
  induction count generalizing value with
  | zero => rfl
  | succ count ih =>
    have hsplit : 2 ^ (8 * (count + 1)) = 2 ^ 8 * 2 ^ (8 * count) := by rw [Nat.mul_succ, Nat.add_comm, Nat.pow_add]
    have hlow : UInt8.ofNat (value % (2 ^ 8 * 2 ^ (8 * count))) = UInt8.ofNat value := by
      apply UInt8.toNat_inj.mp
      rw [UInt8.toNat_ofNat', UInt8.toNat_ofNat', Nat.mod_mul_right_mod]
    rw [be_succ, be_succ, hsplit, Nat.mod_mul_right_div_self, ih, hlow]

/-- The bytes of a stored 32-bit value are its little-endian digits. -/
theorem le32_unle32 (b0 b1 b2 b3 : UInt8) (rest : List UInt8) :
    le32 (UInt32.ofNat (leNat (b0 :: b1 :: b2 :: b3 :: rest))) = [b0, b1, b2, b3] := by
  have h0 := b0.toNat_lt
  have h1 := b1.toNat_lt
  have h2 := b2.toNat_lt
  have h3 := b3.toNat_lt
  simp only [le32, leNat, UInt32.toNat_ofNat', List.cons.injEq, and_true]
  refine ⟨?_, ?_, ?_, ?_⟩ <;> apply UInt8.toNat_inj.mp <;> simp only [UInt8.toNat_ofNat'] <;> omega

/-- A field in network byte order is read by a load of any width that reaches
its four bytes and the exchange of the bytes. -/
theorem ntohl_leNat (b0 b1 b2 b3 : UInt8) (rest : List UInt8) :
    (ntohl (UInt32.ofNat (leNat (b0 :: b1 :: b2 :: b3 :: rest)))).toNat = beNat [b0, b1, b2, b3] := by
  rw [ntohl, le32_unle32, UInt32.toNat_ofNat']
  exact Nat.mod_eq_of_lt (beNat_lt [b0, b1, b2, b3])

theorem ntohs_leNat (b0 b1 : UInt8) (rest : List UInt8) :
    (ntohs (UInt16.ofNat (leNat (b0 :: b1 :: rest)))).toNat = beNat [b0, b1] := by
  have h0 := b0.toNat_lt
  have h1 := b1.toNat_lt
  have hvalue : (UInt16.ofNat (leNat (b0 :: b1 :: rest))).toNat = b0.toNat + 2 ^ 8 * b1.toNat := by
    simp only [leNat, UInt16.toNat_ofNat']
    omega
  have hlow : UInt8.ofNat (b0.toNat + 2 ^ 8 * b1.toNat) = b0 := by
    apply UInt8.toNat_inj.mp
    rw [UInt8.toNat_ofNat']
    omega
  have hhigh : UInt8.ofNat ((b0.toNat + 2 ^ 8 * b1.toNat) / 2 ^ 8) = b1 := by
    apply UInt8.toNat_inj.mp
    rw [UInt8.toNat_ofNat']
    omega
  rw [ntohs, hvalue, hlow, hhigh, UInt16.toNat_ofNat']
  exact Nat.mod_eq_of_lt (beNat_lt [b0, b1])

/-- The eight bytes of a value that fills four. -/
theorem le64_leNat (b0 b1 b2 b3 : UInt8) :
    le64 (leNat [b0, b1, b2, b3]) = [b0, b1, b2, b3, 0, 0, 0, 0] := by
  have h0 := b0.toNat_lt
  have h1 := b1.toNat_lt
  have h2 := b2.toNat_lt
  have h3 := b3.toNat_lt
  simp only [le64, leNat, List.range, List.range.loop, List.map, List.cons.injEq, and_true]
  refine ⟨?_, ?_, ?_, ?_, ?_, ?_, ?_, ?_⟩ <;> apply UInt8.toNat_inj.mp <;>
    simp only [UInt8.toNat_ofNat', UInt8.toNat_zero] <;> omega

/-- A value stored in network byte order with a wider store is followed by zeros. -/
theorem le64_htonl (x : UInt32) : le64 (htonl x).toNat = be 4 x.toNat ++ [0, 0, 0, 0] := by
  have hswap : (htonl x).toNat = leNat (be 4 x.toNat) := by
    rw [htonl, ntohl, UInt32.toNat_ofNat']
    exact (Nat.mod_eq_of_lt (beNat_lt (le32 x))).trans (by simp [le32, beNat, be, leNat, List.range, List.range.loop]; omega)
  rw [hswap]
  exact le64_leNat _ _ _ _

end lib
