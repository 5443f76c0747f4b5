import Vscsi.Lib.Passing

namespace lib

/-- Bytes from an address on, each of which may be at its address. -/
def Admitted (may : Nat → UInt8 → Prop) (start : Nat) (bytes : List UInt8) : Prop :=
  ∀ i byte, bytes[i]? = some byte → may (start + i) byte

namespace Admitted

variable {may : Nat → UInt8 → Prop} {start : Nat} {bytes front back : List UInt8}

theorem nil : Admitted may start [] := fun i byte h => by cases h

theorem take (h : Admitted may start bytes) (n : Nat) : Admitted may start (bytes.take n) := by
  intro i byte hi
  rw [List.getElem?_take] at hi
  split at hi
  · exact h i byte hi
  · cases hi

theorem drop (h : Admitted may start bytes) (n : Nat) : Admitted may (start + n) (bytes.drop n) := by
  intro i byte hi
  rw [List.getElem?_drop] at hi
  rw [Nat.add_assoc]
  exact h (n + i) byte hi

theorem append (h : Admitted may start front) (h' : Admitted may (start + front.length) back) :
    Admitted may start (front ++ back) := by
  intro i byte hi
  rw [List.getElem?_append] at hi
  split at hi
  · exact h i byte hi
  · rename_i hlength
    obtain ⟨j, rfl⟩ := Nat.exists_eq_add_of_le (Nat.not_lt.mp hlength)
    rw [Nat.add_sub_cancel_left] at hi
    rw [← Nat.add_assoc]
    exact h' j byte hi

theorem slice {mem : Mem} {first count : Nat} (h : ∀ i < count, may (start + i) (mem (first + i))) :
    Admitted may start (slice mem first count) := by
  intro i byte hi
  have hlt := (List.getElem?_eq_some_iff.mp hi).1
  rw [slice_length] at hlt
  rw [slice_getElem? _ _ hlt] at hi
  obtain rfl := Option.some.inj hi
  exact h i hlt

theorem pread {f : File} (h : ∀ a, may a (f.bytes a)) (count : Nat) : Admitted may start (f.pread start count) :=
  slice fun i _ => h (start + i)

theorem byte? {s : Store} (h : Admitted may s.start s.bytes) {a : Nat} {byte : UInt8} (hbyte : s.byte? a = some byte) :
    may a byte := by
  unfold Store.byte? at hbyte
  split at hbyte
  · rename_i hstart
    obtain ⟨i, rfl⟩ := Nat.exists_eq_add_of_le hstart
    rw [Nat.add_sub_cancel_left] at hbyte
    exact h i byte hbyte
  · cases hbyte

theorem blit {mem : Mem} (hmem : ∀ a, may a (mem a)) (h : Admitted may start bytes) (a : Nat) :
    may a (blit mem start bytes a) := by
  rw [blit_byte? mem { start, bytes }]
  cases hbyte : ({ start, bytes } : Store).byte? a with
  | none => exact hmem a
  | some byte => exact byte? (s := { start, bytes }) h hbyte

end Admitted

variable {may : Nat → Nat → UInt8 → Prop}

/-- Every byte of a file may be where it is. -/
def World.FilesAdmitted (may : Nat → Nat → UInt8 → Prop) (w : World) : Prop :=
  ∀ inode a, may inode a ((w.fs.files inode).bytes a)

/-- So may the bytes that a stream has yet to pass on, and those it has read ahead. -/
structure Stream.Admitted (may : Nat → Nat → UInt8 → Prop) (s : Stream) : Prop where
  pending : lib.Admitted (may s.inode) s.base s.pending
  cache : lib.Admitted (may s.inode) s.cacheStart s.cache

def World.StreamsAdmitted (may : Nat → Nat → UInt8 → Prop) (w : World) : Prop :=
  ∀ n s, w.streams n = some s → s.Admitted may

namespace Stream

variable {s : Stream} {f : File}

theorem Admitted.opened (inode : Nat) (writable : Bool) : (opened inode writable).Admitted may := ⟨.nil, .nil⟩

theorem Admitted.contents (h : s.Admitted may) (hf : ∀ a, may s.inode a (f.bytes a)) (a : Nat) :
    may s.inode a ((s.contents f).bytes a) :=
  h.pending.blit hf a

theorem Admitted.seek (h : s.Admitted may) (pos : Nat) : (s.seek pos).Admitted may := ⟨.nil, h.cache⟩

/-- What a read finds may be where it is read. -/
theorem Admitted.found (h : s.Admitted may) (hf : ∀ a, may s.inode a (f.bytes a)) (count : Nat) (choice : Choice) :
    lib.Admitted (may s.inode) s.pos (s.found f count choice) := by
  have hserved (n : Nat) : lib.Admitted (may s.inode) s.pos (s.served n) := by
    unfold served
    split
    · rename_i hstart
      have hdrop := h.cache.drop (s.pos - s.cacheStart)
      rw [Nat.add_sub_cancel' hstart] at hdrop
      exact hdrop.take n
    · exact .nil
  exact ((hserved _).append (.pread hf _)).take _

theorem Admitted.read (h : s.Admitted may) (hf : ∀ a, may s.inode a (f.bytes a)) (count : Nat) (choice : Choice) :
    (s.read f count choice).2.Admitted may := by
  unfold Stream.read
  cases choice.refill with
  | none => exact h.seek _
  | some part => exact ⟨.nil, .pread (h.contents hf) _⟩

theorem Admitted.write (h : s.Admitted may) {data : List UInt8} (hdata : lib.Admitted (may s.inode) s.pos data)
    (choice : Choice) : (s.write f data choice).2.1.Admitted may := by
  unfold Stream.write
  split
  · refine ⟨?_, .nil⟩
    have hall := (h.pending.append (hdata.take choice.amount)).drop choice.flushed
    change lib.Admitted (may s.inode) (s.base + ((s.pending ++ data.take choice.amount).take choice.flushed).length)
      ((s.pending ++ data.take choice.amount).drop choice.flushed)
    by_cases hflushed : choice.flushed ≤ (s.pending ++ data.take choice.amount).length
    · rw [List.length_take_of_le hflushed]
      exact hall
    · rw [List.drop_of_length_le (by omega)]
      exact .nil
  · exact h

end Stream

/-- Closing a stream passes on what may be in its file. -/
theorem World.fclose_files_admitted {w : World} {s : Stream} (hfiles : w.FilesAdmitted may) (hs : s.Admitted may) (n : Nat) :
    (w.fclose n s).FilesAdmitted may := by
  intro inode a
  change may inode a ((Function.update w.fs.files s.inode (w.contents s) inode).bytes a)
  by_cases hinode : inode = s.inode
  · subst hinode
    rw [Function.update_self]
    exact hs.contents (hfiles s.inode) a
  · rw [Function.update_of_ne hinode]
    exact hfiles inode a

theorem World.StreamsAdmitted.fclose {w : World} (h : w.StreamsAdmitted may) (n : Nat) (s : Stream) :
    (w.fclose n s).StreamsAdmitted may := by
  intro m s' hs'
  by_cases hm : m = n
  · subst hm
    simp [World.fclose, World.setStream] at hs'
  · simp only [World.fclose, World.setStream, Function.update_of_ne hm, World.setFile] at hs'
    exact h m s' hs'

section Calls

variable {c : Call} {choice : Choice} {r : Reply c} {x x' : Space} {fh : Option Nat}

/-- The bytes of a write may go where its stream is. -/
def Call.WriteAdmitted (may : Nat → Nat → UInt8 → Prop) (c : Call) (x : Space) : Prop :=
  ∀ i count n s, c = .fwrite i count (some n) → x.world.streams n = some s →
    Admitted (may s.inode) s.pos (slice x.data i count)

theorem World.held_admitted (h : x.world.StreamsAdmitted may) {p : Nat × Store} (hp : x.world.held fh = some p) :
    Admitted (may p.1) p.2.start p.2.bytes := by
  obtain ⟨s, hs, rfl⟩ := Option.map_eq_some_iff.mp hp
  obtain ⟨n, -, hs⟩ := Option.bind_eq_some_iff.mp hs
  exact (h n s hs).pending

/-- What a call passes on may be in the file. -/
theorem Call.passes_admitted (h : x.world.StreamsAdmitted may) (hwrite : c.WriteAdmitted may x) {p : Nat × Store}
    (hp : c.passes choice x = some p) : Admitted (may p.1) p.2.start p.2.bytes := by
  cases c with
  | fseeko fh' offset whence => exact World.held_admitted h hp
  | fread i count fh' => exact World.held_admitted h hp
  | fclose fh' => exact World.held_admitted h hp
  | fwrite i count fh' =>
    obtain ⟨s, hopened, hput⟩ := Option.bind_eq_some_iff.mp hp
    obtain ⟨n, rfl, hs⟩ := Option.bind_eq_some_iff.mp hopened
    split at hput
    · obtain rfl := Option.some.inj hput
      exact ((h n s hs).pending.append ((hwrite i count n s rfl hs).take _)).take _
    · cases hput
  | _ => cases hp

/-- Files that are changed by such bytes only hold such bytes. -/
theorem passedOn_admitted {files : Nat → File} (h : ∀ inode a, may inode a ((files inode).bytes a)) {p : Option (Nat × Store)}
    (hp : ∀ q, p = some q → Admitted (may q.1) q.2.start q.2.bytes) (inode a : Nat) :
    may inode a ((passedOn files p inode).bytes a) := by
  rw [passedOn_byte]
  cases p with
  | none => exact h inode a
  | some q =>
    obtain ⟨inode', s⟩ := q
    rw [Option.bind_some]
    split
    · rename_i hinode
      obtain rfl : inode' = inode := hinode
      cases hbyte : s.byte? a with
      | none => exact h inode' a
      | some byte => exact (hp _ rfl).byte? hbyte
    · exact h inode a

/-- What a call leaves on the streams. -/
theorem libc_streams_admitted (hon : c.On fh) (hfiles : x.world.FilesAdmitted may) (h : x.world.StreamsAdmitted may)
    (hwrite : c.WriteAdmitted may x) (hcall : libc c choice x = .ok (r, x')) : x'.world.StreamsAdmitted may := by
  have hstored {n : Nat} {s' : Stream} (hs' : s'.Admitted may) (inode : Nat) (f : File) :
      ((x.world.setFile inode f).setStream n (some s')).StreamsAdmitted may := by
    intro m s hs
    by_cases hm : m = n
    · subst hm
      simp only [World.setStream, Function.update_self, Option.some.injEq] at hs
      rw [← hs]
      exact hs'
    · simp only [World.setStream, Function.update_of_ne hm, World.setFile] at hs
      exact h m s hs
  cases c with
  | store i bytes =>
    cases hcall
    exact h
  | fseeko fh' offset whence =>
    obtain ⟨n, s, rfl, hs, hx⟩ := Space.onStream_ok hcall
    cases hx
    exact hstored ((h n s hs).seek _) _ _
  | ftello fh' =>
    obtain ⟨n, s, rfl, hs, hx⟩ := Space.onStream_ok hcall
    cases hx
    exact h
  | fread i count fh' =>
    obtain ⟨n, s, rfl, hs, hx⟩ := Space.onStream_ok hcall
    cases hx
    exact hstored ((h n s hs).read (hfiles s.inode) count choice) _ _
  | fwrite i count fh' =>
    obtain ⟨n, s, rfl, hs, hx⟩ := Space.onStream_ok hcall
    cases hx
    exact hstored ((h n s hs).write (hwrite i count n s rfl hs) choice) _ _
  | _ => exact hon.elim

end Calls

end lib
