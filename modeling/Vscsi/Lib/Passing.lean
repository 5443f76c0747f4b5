import Vscsi.Lib.Journal
import Vscsi.Lib.Volume

namespace lib

/-- A file once something may have been put into it. -/
def File.put (f : File) : Option Store → File
  | some s => f.pwrite s.start s.bytes
  | none => f

/-- The bytes pending on a stream. -/
def Stream.held (s : Stream) : Store := { start := s.base, bytes := s.pending }

/-- What a flush of a stream passes on. -/
def World.held (w : World) (fh : Option Nat) : Option (Nat × Store) :=
  (fh.bind w.streams).map fun s => (s.inode, s.held)

/-- What a call on a stream passes on to the file, with the inode of the file. -/
def Call.passes (c : Call) (choice : Choice) (x : Space) : Option (Nat × Store) :=
  match c with
  | .fseeko fh _ _ => x.world.held fh
  | .fread _ _ fh => x.world.held fh
  | .fclose fh => x.world.held fh
  | .fwrite i count fh => (fh.bind x.world.streams).bind fun s =>
    if s.writable then
      some (s.inode, { start := s.base
                       bytes := (s.pending ++ (slice x.data i count).take choice.amount).take choice.flushed })
    else none
  | _ => none

/-- The files once the bytes have been passed on. -/
def passedOn (files : Nat → File) : Option (Nat × Store) → Nat → File
  | none => files
  | some (inode, s) => Function.update files inode ((files inode).pwrite s.start s.bytes)

variable {c : Call} {fh : Option Nat} {x x' : Space} {choice : Choice} {r : Reply c}

/-- A call on a stream changes files by what it passes on. -/
theorem libc_passes (hon : c.On fh) (h : libc c choice x = .ok (r, x')) :
    x'.world.fs.files = passedOn x.world.fs.files (c.passes choice x) := by
  cases c with
  | store i bytes =>
    cases h
    rfl
  | fseeko fh' offset whence =>
    obtain ⟨n, s, rfl, hs, hx⟩ := Space.onStream_ok h
    cases hx
    simp only [Call.passes, World.held, Option.bind_some, hs, Option.map_some, passedOn]
    rfl
  | ftello fh' =>
    obtain ⟨n, s, rfl, hs, hx⟩ := Space.onStream_ok h
    cases hx
    rfl
  | fread i count fh' =>
    obtain ⟨n, s, rfl, hs, hx⟩ := Space.onStream_ok h
    cases hx
    simp only [Call.passes, World.held, Option.bind_some, hs, Option.map_some, passedOn]
    rfl
  | fwrite i count fh' =>
    obtain ⟨n, s, rfl, hs, hx⟩ := Space.onStream_ok h
    have hworld : x'.world = (x.world.fwrite n s (slice x.data i count) choice).2 := (congrArg (·.2.world) hx).symm
    rw [hworld]
    simp only [Call.passes, Option.bind_some, hs]
    by_cases hwritable : s.writable = true
    · rw [if_pos hwritable, World.fwrite, Stream.write, if_pos hwritable]
      rfl
    · have hreadonly : s.writable = false := by simpa using hwritable
      rw [if_neg hwritable, World.fwrite, Stream.write_readonly hreadonly]
      exact Function.update_eq_self _ _
  | _ => exact hon.elim

/-- The byte of a file after a call. -/
theorem passedOn_byte (files : Nat → File) (p : Option (Nat × Store)) (inode a : Nat) :
    (passedOn files p inode).bytes a =
      ((p.bind fun p => if p.1 = inode then p.2.byte? a else none).getD ((files inode).bytes a)) := by
  cases p with
  | none => rfl
  | some p =>
    obtain ⟨inode', s⟩ := p
    by_cases hinode : inode' = inode
    · subst hinode
      simp only [passedOn, Function.update_self, File.pwrite_bytes, blit_byte?, Option.bind_some, if_true]
    · simp only [passedOn, Function.update_of_ne (Ne.symm hinode), Option.bind_some, hinode, if_false, Option.getD_none]

/-- Nothing is pending on any stream. -/
def World.Flushed (w : World) : Prop := ∀ fh s, w.streams fh = some s → s.pending = []

/-- The calls that put nothing into a stream. -/
def Call.Reads (fh : Option Nat) : Call → Prop
  | .store .. => True
  | .fseeko fh' _ _ => fh' = fh
  | .ftello fh' => fh' = fh
  | .fread _ _ fh' => fh' = fh
  | _ => False

theorem Call.Reads.on (h : c.Reads fh) : c.On fh := by
  cases c <;> first | exact h | exact h.elim

/-- With nothing pending such a call passes on nothing, and leaves nothing pending. -/
theorem libc_reads (hreads : c.Reads fh) (hflushed : x.world.Flushed) (h : libc c choice x = .ok (r, x')) :
    (∀ p, c.passes choice x = some p → p.2.bytes = []) ∧ x'.world.Flushed := by
  have hpasses (fh' : Option Nat) (p : Nat × Store) (hp : x.world.held fh' = some p) : p.2.bytes = [] := by
    obtain ⟨s, hs, rfl⟩ := Option.map_eq_some_iff.mp hp
    obtain ⟨n, -, hs⟩ := Option.bind_eq_some_iff.mp hs
    exact hflushed n s hs
  have hstored (n : Nat) (s' : Stream) (hs' : s'.pending = []) (inode : Nat) (f : File) :
      ((x.world.setFile inode f).setStream n (some s')).Flushed := by
    intro m s hs
    by_cases hm : m = n
    · subst hm
      simp only [World.setStream, Function.update_self, Option.some.injEq] at hs
      rw [← hs, hs']
    · simp only [World.setStream, Function.update_of_ne hm, World.setFile] at hs
      exact hflushed m s hs
  cases c with
  | store i bytes =>
    cases h
    exact ⟨fun p hp => (Option.some_ne_none p hp.symm).elim, hflushed⟩
  | fseeko fh' offset whence =>
    obtain ⟨n, s, rfl, hs, hx⟩ := Space.onStream_ok h
    cases hx
    exact ⟨hpasses (some n), hstored n _ rfl _ _⟩
  | ftello fh' =>
    obtain ⟨n, s, rfl, hs, hx⟩ := Space.onStream_ok h
    cases hx
    exact ⟨fun p hp => (Option.some_ne_none p hp.symm).elim, hflushed⟩
  | fread i count fh' =>
    obtain ⟨n, s, rfl, hs, hx⟩ := Space.onStream_ok h
    cases hx
    refine ⟨hpasses (some n), hstored n _ ?_ _ _⟩
    cases choice.refill <;> rfl
  | _ => exact hreads.elim

/-- Nor does it change what its stream makes of its file. -/
theorem libc_reads_content {n inode : Nat} {writable : Bool} {f : File} (hreads : c.Reads (some n))
    (h : libc c choice x = .ok (r, x')) (hcontent : x.world.Content n inode writable f) :
    x'.world.Content n inode writable f := by
  obtain ⟨s, hs⟩ := id hcontent
  cases c with
  | store i bytes =>
    cases h
    exact hcontent
  | fseeko fh' offset whence =>
    obtain rfl : fh' = some n := hreads
    simp only [libc, Space.onStream, hs.opened] at h
    cases h
    exact .seek hs offset whence
  | ftello fh' =>
    obtain rfl : fh' = some n := hreads
    simp only [libc, Space.onStream, hs.opened] at h
    cases h
    exact hcontent
  | fread i count fh' =>
    obtain rfl : fh' = some n := hreads
    obtain ⟨w, hcall, hkept⟩ := content_fread choice ⟨s, hs, rfl⟩ i count
    obtain ⟨-, rfl⟩ := Prod.mk.inj (Except.ok.inj (h.symm.trans hcall))
    exact hkept
  | _ => exact hreads.elim

/-- What the buffer has for a read is what the file has there. -/
def Stream.Current (s : Stream) (f : File) (count : Nat) : Prop :=
  s.served count = (s.contents f).pread s.pos (s.served count).length

theorem Stream.Current.found_eq {s : Stream} {f : File} {count : Nat} (h : s.Current f count) (choice : Choice) :
    s.found (s.contents f) count choice = ((s.contents f).pread s.pos count).take choice.amount := by
  have htake : s.served (min count choice.cached) = (s.served count).take choice.cached := by
    unfold served
    split
    · rw [List.take_take, Nat.min_comm]
    · rw [List.take_nil]
  refine Stream.found_eq ?_
  rw [htake, h, File.pread_take, File.pread_self]

end lib
