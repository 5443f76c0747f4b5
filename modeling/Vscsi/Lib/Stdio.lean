import Vscsi.Lib.File
import Vscsi.Lib.Program

namespace lib

abbrev FileName := List Char

instance FileName.lawfulBEq : LawfulBEq FileName := inferInstanceAs (LawfulBEq (List Char))

/-- Names and the files they stand for; several names may stand for one file. -/
structure FileSystem where
  directory : FileName → Option Nat
  files : Nat → File
  /-- the inode of the next file created -/
  fresh : Nat

/-- What the system and the C library leave open in a call. -/
structure Choice where
  /-- whether an open succeeds -/
  opens : Bool
  /-- the most bytes a transfer moves -/
  amount : Nat
  /-- the most bytes a read takes from the buffer -/
  cached : Nat
  /-- the part of the file a read leaves in the buffer, if it fills it anew -/
  refill : Option (Nat × Nat)
  /-- the bytes a write passes on to the file at once -/
  flushed : Nat
  /-- the answer of the clock, or the process number -/
  answer : Nat

/-- A transfer moves at least one byte. -/
def Choice.Progress (choice : Choice) : Prop := 1 ≤ choice.amount

/-- Opens succeed and transfers move all bytes, past the buffer. -/
def Choice.whole : Choice where
  opens := true
  amount := 2 ^ 31
  cached := 0
  refill := none
  flushed := 0
  answer := 0

theorem Choice.whole_progress : Choice.whole.Progress := Nat.one_le_two_pow

/-- A `FILE`. Bytes written are kept in `pending` until they are flushed; bytes
read ahead are kept in `cache`, where they do not follow the file. -/
structure Stream where
  inode : Nat
  writable : Bool
  /-- where the pending bytes belong, and the position when there are none -/
  base : Nat
  pending : List UInt8
  cacheStart : Nat
  cache : List UInt8

namespace Stream

def opened (inode : Nat) (writable : Bool) : Stream where
  inode
  writable
  base := 0
  pending := []
  cacheStart := 0
  cache := []

def pos (s : Stream) : Nat := s.base + s.pending.length

/-- The file with the pending bytes in it: what a flush makes of the file. -/
def contents (s : Stream) (f : File) : File := f.pwrite s.base s.pending

def seek (s : Stream) (pos : Nat) : Stream := { s with base := pos, pending := [] }

/-- The bytes a read finds in the buffer. -/
def served (s : Stream) (count : Nat) : List UInt8 :=
  if s.cacheStart ≤ s.pos then (s.cache.drop (s.pos - s.cacheStart)).take count else []

/-- The bytes a read of the flushed file gets: some from the buffer, the others
from the file. -/
def found (s : Stream) (f : File) (count : Nat) (choice : Choice) : List UInt8 :=
  let served := s.served (min count choice.cached)
  (served ++ f.pread (s.pos + served.length) (count - served.length)).take choice.amount

def read (s : Stream) (f : File) (count : Nat) (choice : Choice) : List UInt8 × Stream :=
  let bytes := s.found (s.contents f) count choice
  let next := s.seek (s.pos + bytes.length)
  match choice.refill with
  | none => (bytes, next)
  | some (start, size) => (bytes, { next with cacheStart := start, cache := (s.contents f).pread start size })

def write (s : Stream) (f : File) (data : List UInt8) (choice : Choice) : Nat × Stream × File :=
  if s.writable then
    let written := data.take choice.amount
    let pending := s.pending ++ written
    let out := pending.take choice.flushed
    (written.length,
      { s with base := s.base + out.length, pending := pending.drop choice.flushed, cacheStart := 0, cache := [] },
      f.pwrite s.base out)
  else (0, s, f)

end Stream

inductive Whence where
  | set
  | end_

inductive Mode where
  | r
  | r_plus
  | w_plus
deriving DecidableEq

namespace Stream

variable (s : Stream) (f : File)

@[simp] theorem pos_seek (pos : Nat) : (s.seek pos).pos = pos := by
  simp [seek, Stream.pos]

/-- A seek flushes: the file becomes the contents, which stay the same. -/
@[simp] theorem contents_seek (g : File) (pos : Nat) : (s.seek pos).contents g = g := by
  simp [seek, contents]

/-- The buffer holds what a read at its place would find. -/
def Coherent (s : Stream) (f : File) : Prop :=
  s.cache = (s.contents f).pread s.cacheStart s.cache.length

theorem Coherent.opened (inode : Nat) (writable : Bool) : (opened inode writable).Coherent f := by
  simp [Coherent, Stream.opened, File.pread]

variable {s f}

theorem Coherent.seek (h : s.Coherent f) (pos : Nat) : (s.seek pos).Coherent (s.contents f) := by
  rw [Coherent, contents_seek]
  exact h

theorem Coherent.served_eq (h : s.Coherent f) (count : Nat) :
    s.served count = (s.contents f).pread s.pos (s.served count).length := by
  unfold served
  split
  · rename_i hstart
    obtain ⟨k, hk⟩ := Nat.exists_eq_add_of_le hstart
    rw [hk, Nat.add_sub_cancel_left, h, File.pread_drop, File.pread_take, File.pread_self]
  · simp [File.pread]

/-- A read finds what is in the contents if what it takes from the buffer is. -/
theorem found_eq {count : Nat} {choice : Choice} (hserved : s.served (min count choice.cached) =
      (s.contents f).pread s.pos (s.served (min count choice.cached)).length) :
    s.found (s.contents f) count choice = ((s.contents f).pread s.pos count).take choice.amount := by
  have hle : (s.served (min count choice.cached)).length ≤ count := by
    unfold served
    split
    · rw [List.length_take]
      omega
    · exact Nat.zero_le _
  have hlength := congrArg List.length hserved
  have hadd := (s.contents f).pread_add s.pos (count - (s.served (min count choice.cached)).length) hlength.symm
  rw [Nat.add_sub_cancel' hle, ← hserved] at hadd
  simp only [found, hadd]

/-- A read through a coherent buffer finds what is in the contents. -/
theorem Coherent.found_eq (h : s.Coherent f) (count : Nat) (choice : Choice) :
    s.found (s.contents f) count choice = ((s.contents f).pread s.pos count).take choice.amount :=
  Stream.found_eq (h.served_eq _)

/-- What a read returns and leaves, with the flushed file. -/
theorem Coherent.read (h : s.Coherent f) (count : Nat) (choice : Choice) :
    (s.read f count choice).1 = ((s.contents f).pread s.pos count).take choice.amount ∧
      (s.read f count choice).2.contents (s.contents f) = s.contents f ∧
      (s.read f count choice).2.Coherent (s.contents f) ∧
      (s.read f count choice).2.inode = s.inode ∧ (s.read f count choice).2.writable = s.writable := by
  rw [← h.found_eq]
  unfold Stream.read
  cases choice.refill with
  | none => exact ⟨rfl, contents_seek _ _ _, h.seek _, rfl, rfl⟩
  | some part =>
    refine ⟨rfl, File.pwrite_nil _ _, ?_, rfl, rfl⟩
    have hsame : (s.contents f).pread part.1 part.2 =
        (s.contents f).pread part.1 ((s.contents f).pread part.1 part.2).length := (File.pread_self _ _ _).symm
    simpa [Coherent, contents, Stream.seek] using hsame

/-- What a write leaves: the bytes written are in the contents, at the position. -/
theorem write_spec (hwritable : s.writable = true) (data : List UInt8) (choice : Choice) :
    (s.write f data choice).1 = (data.take choice.amount).length ∧
      (s.write f data choice).2.1.contents (s.write f data choice).2.2 =
        (s.contents f).pwrite s.pos (data.take choice.amount) ∧
      (s.write f data choice).2.1.Coherent (s.write f data choice).2.2 ∧
      (s.write f data choice).2.1.inode = s.inode ∧ (s.write f data choice).2.1.writable = s.writable := by
  have hall : (s.pending ++ data.take choice.amount).take choice.flushed ++
      (s.pending ++ data.take choice.amount).drop choice.flushed = s.pending ++ data.take choice.amount :=
    List.take_append_drop _ _
  rw [write, if_pos hwritable]
  refine ⟨rfl, ?_, ?_, rfl, rfl⟩
  · simp only [contents, File.pwrite_append, hall, Stream.pos]
  · simp [Coherent, File.pread]

theorem read_inode (s : Stream) (f : File) (count : Nat) (choice : Choice) :
    (s.read f count choice).2.inode = s.inode := by
  unfold Stream.read
  cases choice.refill <;> rfl

theorem read_length_le (s : Stream) (f : File) (count : Nat) (choice : Choice) :
    (s.read f count choice).1.length ≤ count := by
  have hserved : (s.served (min count choice.cached)).length ≤ min count choice.cached := by
    unfold served
    split
    · exact List.length_take_le _ _
    · exact Nat.zero_le _
  have hread := (s.contents f).pread_length_le (s.pos + (s.served (min count choice.cached)).length)
    (count - (s.served (min count choice.cached)).length)
  have hfound : (s.found (s.contents f) count choice).length ≤ count := by
    simp only [found, List.length_take, List.length_append]
    omega
  unfold Stream.read
  cases choice.refill <;> exact hfound

theorem write_le (s : Stream) (f : File) (data : List UInt8) (choice : Choice) :
    (s.write f data choice).1 ≤ data.length := by
  unfold write
  split
  · exact List.length_take_le' _ _
  · exact Nat.zero_le _

theorem write_inode (s : Stream) (f : File) (data : List UInt8) (choice : Choice) :
    (s.write f data choice).2.1.inode = s.inode := by
  unfold write
  split <;> rfl

theorem write_readonly (hwritable : s.writable = false) (data : List UInt8) (choice : Choice) :
    s.write f data choice = (0, s, f) := by
  simp [write, hwritable]

end Stream

/-- The files, and the streams a process has on them. -/
structure World where
  fs : FileSystem
  streams : Nat → Option Stream
  /-- the next stream opened -/
  next : Nat

namespace World

/-- A world of one file, which nobody has open. -/
def oneFile (name : FileName) (f : File) : World where
  fs := { directory := Function.update (fun _ => none) name (some 0), files := fun _ => f, fresh := 1 }
  streams _ := none
  next := 0

def setFile (w : World) (inode : Nat) (f : File) : World :=
  { w with fs := { w.fs with files := Function.update w.fs.files inode f } }

def setStream (w : World) (fh : Nat) (s : Option Stream) : World :=
  { w with streams := Function.update w.streams fh s }

def file (w : World) (s : Stream) : File := w.fs.files s.inode

/-- The contents of the file behind a stream. -/
def contents (w : World) (s : Stream) : File := s.contents (w.file s)

/-- Flushes the stream and sets its position, unless it would be negative. -/
def fseeko (w : World) (fh : Nat) (s : Stream) (offset : Int) (whence : Whence) : World :=
  let target := match whence with
    | .set => offset
    | .end_ => (w.contents s).size + offset
  (w.setFile s.inode (w.contents s)).setStream fh
    (some (s.seek (if target < 0 then s.pos else target.toNat)))

def fread (w : World) (fh : Nat) (s : Stream) (count : Nat) (choice : Choice) : List UInt8 × World :=
  match s.read (w.file s) count choice with
  | (bytes, s') => (bytes, (w.setFile s.inode (w.contents s)).setStream fh (some s'))

def fwrite (w : World) (fh : Nat) (s : Stream) (data : List UInt8) (choice : Choice) : Nat × World :=
  match s.write (w.file s) data choice with
  | (count, s', f) => (count, (w.setFile s.inode f).setStream fh (some s'))

def fopen (w : World) (name : FileName) (mode : Mode) (choice : Choice) : Option Nat × World :=
  if choice.opens then
    match w.fs.directory name, mode with
    | some inode, .w_plus => (some w.next,
        { (w.setFile inode .empty).setStream w.next (some (.opened inode true)) with next := w.next + 1 })
    | some inode, mode => (some w.next,
        { w.setStream w.next (some (.opened inode (mode ≠ .r))) with next := w.next + 1 })
    | none, .w_plus => (some w.next,
        { (w.setFile w.fs.fresh .empty).setStream w.next (some (.opened w.fs.fresh true)) with
          fs := { files := Function.update w.fs.files w.fs.fresh .empty
                  directory := Function.update w.fs.directory name (some w.fs.fresh)
                  fresh := w.fs.fresh + 1 }
          next := w.next + 1 })
    | none, _ => (none, w)
  else (none, w)

def fclose (w : World) (fh : Nat) (s : Stream) : World :=
  (w.setFile s.inode (w.contents s)).setStream fh none

/-- What `stat` finds. -/
def size? (w : World) (name : FileName) : Option Nat :=
  (w.fs.directory name).map fun inode => (w.fs.files inode).size

/-- Renaming to a name of the same file does nothing. -/
def rename (w : World) (old new : FileName) : World :=
  match w.fs.directory old with
  | none => w
  | some inode =>
    if w.fs.directory new = some inode then w
    else { w with fs := { w.fs with
      directory := Function.update (Function.update w.fs.directory new (some inode)) old none } }

/-- Fails, without effect, for a file that does not exist or a negative size. -/
def truncate (w : World) (name : FileName) (size : Int) : World :=
  match w.fs.directory name with
  | none => w
  | some inode => if size < 0 then w else w.setFile inode ((w.fs.files inode).truncate size.toNat)

end World

/-- The calls of a process to the C library, and its stores to the memory it
works on. A stream is `none` for a null pointer. -/
inductive Call where
  | store (i : Nat) (bytes : List UInt8)
  | fseeko (fh : Option Nat) (offset : Int) (whence : Whence)
  | ftello (fh : Option Nat)
  | fread (i count : Nat) (fh : Option Nat)
  | fwrite (i count : Nat) (fh : Option Nat)
  | fopen (name : FileName) (mode : Mode)
  | fclose (fh : Option Nat)
  | rename (old new : FileName)
  | truncate (name : FileName) (size : Int)
  | stat (name : FileName)
  | time
  | getpid

def Reply : Call → Type
  | .store .. => Unit
  | .fseeko .. => Unit
  | .ftello .. => Nat
  | .fread .. => Nat
  | .fwrite .. => Nat
  | .fopen .. => Option Nat
  | .fclose .. => Unit
  | .rename .. => Unit
  | .truncate .. => Unit
  | .stat .. => Option Nat
  | .time => Nat
  | .getpid => Nat

/-- Why a computation has no result: it follows a null pointer or runs over an
array, it exits, or it is still in a loop when its fuel is used up. -/
inductive Fault where
  | crash
  | exit (code : Nat)
  | diverge
deriving DecidableEq

/-- The computations of a process. -/
abbrev Code := Prog Reply Fault

namespace Code

def store (i : Nat) (bytes : List UInt8) : Code Unit := Prog.perform (Call.store i bytes)

def fseeko (fh : Option Nat) (offset : Int) (whence : Whence) : Code Unit := Prog.perform (Call.fseeko fh offset whence)

def ftello (fh : Option Nat) : Code Nat := Prog.perform (Call.ftello fh)

def fread (i count : Nat) (fh : Option Nat) : Code Nat := Prog.perform (Call.fread i count fh)

def fwrite (i count : Nat) (fh : Option Nat) : Code Nat := Prog.perform (Call.fwrite i count fh)

def fopen (name : FileName) (mode : Mode) : Code (Option Nat) := Prog.perform (Call.fopen name mode)

def fclose (fh : Option Nat) : Code Unit := Prog.perform (Call.fclose fh)

def rename (old new : FileName) : Code Unit := Prog.perform (Call.rename old new)

def truncate (name : FileName) (size : Int) : Code Unit := Prog.perform (Call.truncate name size)

def stat (name : FileName) : Code (Option Nat) := Prog.perform (Call.stat name)

def time : Code Nat := Prog.perform Call.time

def getpid : Code Nat := Prog.perform Call.getpid

end Code

/-- What the calls of a process work on. -/
structure Space where
  world : World
  data : Mem

namespace Space

/-- A call on an open stream. -/
def onStream {ρ : Type} (x : Space) (fh : Option Nat) (f : Nat → Stream → ρ × Space) : Except Fault (ρ × Space) :=
  match fh with
  | none => .error .crash
  | some fh =>
    match x.world.streams fh with
    | none => .error .crash
    | some s => .ok (f fh s)

theorem onStream_ok {ρ : Type} {x : Space} {fh : Option Nat} {f : Nat → Stream → ρ × Space} {y : ρ × Space}
    (h : x.onStream fh f = .ok y) : ∃ n s, fh = some n ∧ x.world.streams n = some s ∧ f n s = y := by
  cases fh with
  | none => cases h
  | some n =>
    cases hs : x.world.streams n with
    | none => simp [onStream, hs] at h
    | some s => exact ⟨n, s, rfl, hs, by simpa [onStream, hs] using h⟩

end Space

def libc : Sem Reply Choice Space Fault
  | .store i bytes, _, x => .ok ((), { x with data := blit x.data i bytes })
  | .fseeko fh offset whence, _, x =>
    x.onStream fh fun fh s => ((), { x with world := x.world.fseeko fh s offset whence })
  | .ftello fh, _, x => x.onStream fh fun _ s => (s.pos, x)
  | .fread i count fh, choice, x =>
    x.onStream fh fun fh s =>
      match x.world.fread fh s count choice with
      | (bytes, world) => (bytes.length, { world, data := blit x.data i bytes })
  | .fwrite i count fh, choice, x =>
    x.onStream fh fun fh s =>
      match x.world.fwrite fh s (slice x.data i count) choice with
      | (count, world) => (count, { x with world })
  | .fopen name mode, choice, x =>
    match x.world.fopen name mode choice with
    | (fh, world) => .ok (fh, { x with world })
  | .fclose fh, _, x => x.onStream fh fun fh s => ((), { x with world := x.world.fclose fh s })
  | .rename old new, _, x => .ok ((), { x with world := x.world.rename old new })
  | .truncate name size, _, x => .ok ((), { x with world := x.world.truncate name size })
  | .stat name, _, x => .ok (x.world.size? name, x)
  | .time, choice, x => .ok (choice.answer, x)
  | .getpid, choice, x => .ok (choice.answer, x)

namespace Code

variable {m : Machine Choice Space}

/-- The machine after a call has used up a choice. -/
def next (m : Machine Choice Space) (state : Space) : Machine Choice Space :=
  { state, choices := fun n => m.choices (n + 1) }

theorem exec_fopen (name : FileName) (mode : Mode) : (fopen name mode).exec libc m =
    .ok ((m.state.world.fopen name mode (m.choices 0)).1,
      next m { m.state with world := (m.state.world.fopen name mode (m.choices 0)).2 }) := rfl

theorem exec_truncate (name : FileName) (size : Int) : (truncate name size).exec libc m =
    .ok ((), next m { m.state with world := m.state.world.truncate name size }) := rfl

theorem exec_stat (name : FileName) : (stat name).exec libc m =
    .ok (m.state.world.size? name, next m m.state) := rfl

theorem exec_time : time.exec libc m = .ok ((m.choices 0).answer, next m m.state) := rfl

end Code

end lib
