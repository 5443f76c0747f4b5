import Mathlib.Algebra.Ring.Nat
import Vscsi.Kernel.Device

open lib

namespace vscsi

namespace Scatterlist

/-- The kernel address of a segment whose page has one. -/
def address (sg : Scatterlist) : Nat := sg.page_address.getD 0 + sg.offset

def Covers (sg : Scatterlist) (i : Nat) : Prop := sg.address ≤ i ∧ i < sg.address + sg.length

/-- No byte belongs to both segments. -/
def Apart (sg sg' : Scatterlist) : Prop := ∀ i, sg.Covers i → ¬ sg'.Covers i

end Scatterlist

/-- The number of bytes in the segments of a table. -/
def total (table : List Scatterlist) : Nat := (table.map (·.length)).sum

/-- The bytes in the segments, one segment after the other. -/
def gather (mem : Mem) (table : List Scatterlist) : List UInt8 :=
  table.flatMap fun sg => slice mem sg.address sg.length

/-- Memory after bytes have been spread over the segments in order. -/
def scatter (mem : Mem) (bytes : List UInt8) : List Scatterlist → Mem
  | [] => mem
  | sg :: rest => scatter (blit mem sg.address (bytes.take sg.length)) (bytes.drop sg.length) rest

@[simp] theorem total_cons (sg : Scatterlist) (table : List Scatterlist) :
    total (sg :: table) = sg.length + total table := by simp [total]

@[simp] theorem gather_nil (mem : Mem) : gather mem [] = [] := rfl

@[simp] theorem gather_cons (mem : Mem) (sg : Scatterlist) (table : List Scatterlist) :
    gather mem (sg :: table) = slice mem sg.address sg.length ++ gather mem table := by simp [gather]

@[simp] theorem gather_length (mem : Mem) (table : List Scatterlist) :
    (gather mem table).length = total table := by
  induction table with
  | nil => rfl
  | cons sg table ih => simp [ih]

theorem gather_congr {mem mem' : Mem} {table : List Scatterlist}
    (h : ∀ i, (∃ sg ∈ table, sg.Covers i) → mem i = mem' i) : gather mem table = gather mem' table := by
  induction table with
  | nil => rfl
  | cons sg table ih =>
    rw [gather_cons, gather_cons, ih fun i ⟨sg', hsg', hcovers⟩ => h i ⟨sg', .tail _ hsg', hcovers⟩]
    congr 1
    apply slice_congr
    intro i hlo hhi
    exact h i ⟨sg, .head _, hlo, hhi⟩

/-- Bytes outside all segments are untouched. -/
theorem scatter_outside {table : List Scatterlist} {i : Nat} (h : ∀ sg ∈ table, ¬ sg.Covers i) (mem : Mem)
    (bytes : List UInt8) : scatter mem bytes table i = mem i := by
  induction table generalizing mem bytes with
  | nil => rfl
  | cons sg table ih =>
    rw [scatter, ih fun sg' hsg' => h sg' (.tail _ hsg')]
    apply blit_outside
    have hnot : ¬ (sg.address ≤ i ∧ i < sg.address + sg.length) := h sg (.head _)
    rw [List.length_take]
    omega

/-- Segments that do not overlap hold what was spread over them. -/
theorem gather_scatter {table : List Scatterlist} (hapart : table.Pairwise Scatterlist.Apart) (mem : Mem)
    {bytes : List UInt8} (hlen : bytes.length = total table) :
    gather (scatter mem bytes table) table = bytes := by
  induction table generalizing mem bytes with
  | nil => exact (List.eq_nil_of_length_eq_zero hlen).symm
  | cons sg table ih =>
    rw [total_cons] at hlen
    obtain ⟨hfirst, hrest⟩ := List.pairwise_cons.mp hapart
    have htake : (bytes.take sg.length).length = sg.length := by rw [List.length_take]; omega
    have hslice : slice (scatter mem bytes (sg :: table)) sg.address sg.length = bytes.take sg.length := by
      have hsame : slice (scatter mem bytes (sg :: table)) sg.address sg.length =
          slice (blit mem sg.address (bytes.take sg.length)) sg.address sg.length := by
        apply slice_congr
        intro i hlo hhi
        exact scatter_outside (fun sg' hsg' => hfirst sg' hsg' i ⟨hlo, hhi⟩) _ _
      have hself := slice_blit mem sg.address (bytes.take sg.length)
      rw [htake] at hself
      rw [hsame, hself]
    rw [gather_cons, hslice, scatter, ih hrest _ (by rw [List.length_drop]; omega), List.take_append_drop]

namespace RequestBuffer

/-- The kernel can reach every byte of the buffer. -/
def Mapped : RequestBuffer → Prop
  | .flat _ => True
  | .sg table => ∀ sg ∈ table, sg.page_address.isSome

/-- The bytes of a buffer in order. -/
def contents (mem : Mem) (bufflen : Nat) : RequestBuffer → List UInt8
  | .flat address => slice mem address bufflen
  | .sg table => gather mem table

/-- Memory after a buffer has taken the bytes that start at an address of a
process's memory. -/
def fill (mem : Mem) (bufflen : Nat) (user : Mem) (start : Nat) : RequestBuffer → Mem
  | .flat address => blit mem address (slice user start bufflen)
  | .sg table => scatter mem (slice user start (total table)) table

/-- The number of bytes in a buffer. -/
def size (bufflen : Nat) : RequestBuffer → Nat
  | .flat _ => bufflen
  | .sg table => total table

end RequestBuffer

namespace device

variable {table : List Scatterlist}

/-- Copying out segments whose pages all have addresses stores their bytes. -/
theorem copy_to_user_sg_mapped (h : ∀ sg ∈ table, sg.page_address.isSome) (user : Mem) (buffer : Nat)
    (mem : Mem) : copy_to_user_sg (.mapped user) buffer mem table =
      (0, .mapped (blit user buffer (gather mem table))) := by
  induction table generalizing user buffer with
  | nil => simp [copy_to_user_sg]
  | cons sg table ih =>
    obtain ⟨kaddr, hkaddr⟩ := Option.isSome_iff_exists.mp (h sg (.head _))
    have haddress : sg.address = kaddr + sg.offset := by rw [Scatterlist.address, hkaddr, Option.getD_some]
    have happend := blit_append user buffer (slice mem sg.address sg.length) (gather mem table)
    rw [slice_length] at happend
    simp only [copy_to_user_sg, hkaddr, ← haddress, copy_to_user_mapped]
    rw [ih fun sg' hsg' => h sg' (.tail _ hsg'), happend, gather_cons]

/-- Copying in spreads the bytes over the segments. -/
theorem copy_from_user_sg_mapped (h : ∀ sg ∈ table, sg.page_address.isSome) (mem user : Mem) (buffer : Nat) :
    copy_from_user_sg mem (.mapped user) buffer table =
      (0, scatter mem (slice user buffer (total table)) table) := by
  induction table generalizing mem buffer with
  | nil => rfl
  | cons sg table ih =>
    obtain ⟨kaddr, hkaddr⟩ := Option.isSome_iff_exists.mp (h sg (.head _))
    have haddress : sg.address = kaddr + sg.offset := by rw [Scatterlist.address, hkaddr, Option.getD_some]
    have hsplit := slice_append user buffer sg.length (total table)
    simp only [copy_from_user_sg, hkaddr, ← haddress, copy_from_user_mapped, slice_length, if_true]
    rw [ih fun sg' hsg' => h sg' (.tail _ hsg'), total_cons, scatter, hsplit]
    simp

/-- Copying in fails for a page without an address and for a fault anywhere in
the bytes of the segments. -/
theorem copy_from_user_sg_eq_zero (mem : Mem) (user : UserMem) (buffer : Nat) (table : List Scatterlist) :
    (copy_from_user_sg mem user buffer table).1 = 0 ↔
      (∀ sg ∈ table, sg.page_address.isSome) ∧ user.Accessible buffer (total table) := by
  induction table generalizing mem buffer with
  | nil => simp [copy_from_user_sg, total]
  | cons sg table ih =>
    rw [List.forall_mem_cons, total_cons, UserMem.accessible_add]
    cases hkaddr : sg.page_address with
    | none => simp [copy_from_user_sg, hkaddr]
    | some kaddr =>
      have hlength := copy_from_user_length_iff user buffer sg.length
      by_cases hall : user.Accessible buffer sg.length
      · simp only [copy_from_user_sg, hkaddr, if_pos (hlength.mpr hall), ih]
        simp [hall]
      · have hle := copy_from_user_length_le user buffer sg.length
        have hne := mt hlength.mp hall
        simp only [copy_from_user_sg, hkaddr, if_neg hne]
        constructor
        · intro hzero
          omega
        · exact fun h => absurd h.2.1 hall

end device

end vscsi
