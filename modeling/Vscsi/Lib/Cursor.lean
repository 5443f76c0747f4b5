import Vscsi.Lib.Memory

namespace lib

/-- A memory and a pointer into it that moves along as bytes are stored. -/
structure Cursor where
  mem : Mem
  ptr : Nat

namespace Cursor

/-- `*ptr++ = byte` -/
def post (c : Cursor) (byte : UInt8) : Cursor := { mem := blit c.mem c.ptr [byte], ptr := c.ptr + 1 }

/-- `*++ptr = byte` -/
def pre (c : Cursor) (byte : UInt8) : Cursor := { mem := blit c.mem (c.ptr + 1) [byte], ptr := c.ptr + 1 }

/-- A store through another pointer. -/
def poke (c : Cursor) (i : Nat) (byte : UInt8) : Cursor := { c with mem := blit c.mem i [byte] }

theorem foldl_post (bytes : List UInt8) (c : Cursor) :
    bytes.foldl post c = { mem := blit c.mem c.ptr bytes, ptr := c.ptr + bytes.length } := by
  induction bytes generalizing c with
  | nil => rw [List.foldl_nil, blit_nil, List.length_nil, Nat.add_zero]
  | cons byte bytes ih =>
    have happend := blit_append c.mem c.ptr [byte] bytes
    rw [List.length_singleton, List.singleton_append] at happend
    rw [List.foldl_cons, ih, post, happend, List.length_cons, Nat.add_assoc, Nat.add_comm 1]

/-- A run of stores that each move first leaves the pointer on the last byte. -/
theorem foldl_pre (bytes : List UInt8) (c : Cursor) :
    bytes.foldl pre c = { mem := blit c.mem (c.ptr + 1) bytes, ptr := c.ptr + bytes.length } := by
  induction bytes generalizing c with
  | nil => rw [List.foldl_nil, blit_nil, List.length_nil, Nat.add_zero]
  | cons byte bytes ih =>
    have happend := blit_append c.mem (c.ptr + 1) [byte] bytes
    rw [List.length_singleton, List.singleton_append] at happend
    rw [List.foldl_cons, ih, pre, happend, List.length_cons, Nat.add_assoc, Nat.add_comm 1]

/-- A length byte that is stored when what it counts is there: `ptr - al` is
the number of bytes behind it. -/
theorem poke_length (bytes : List UInt8) (c : Cursor) :
    (bytes.foldl pre c).poke c.ptr (UInt8.ofNat ((bytes.foldl pre c).ptr - c.ptr)) =
      { mem := blit c.mem c.ptr (UInt8.ofNat bytes.length :: bytes), ptr := c.ptr + bytes.length } := by
  have hbefore := blit_before c.mem c.ptr [UInt8.ofNat bytes.length] bytes
  rw [List.length_singleton, List.singleton_append] at hbefore
  rw [foldl_pre, poke, Nat.add_sub_cancel_left, hbefore]

end Cursor

end lib
