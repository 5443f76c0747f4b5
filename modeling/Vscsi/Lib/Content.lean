import Vscsi.Lib.Stdio

namespace lib

namespace World

/-- A stream is open on a file, with nothing stale in its buffer, and what it
makes of the file is `f`. -/
structure Shows (w : World) (fh inode : Nat) (writable : Bool) (f : File) (s : Stream) : Prop where
  opened : w.streams fh = some s
  on : s.inode = inode
  mode : s.writable = writable
  coherent : s.Coherent (w.fs.files inode)
  contents : s.contents (w.fs.files inode) = f

/-- Some stream is. -/
def Content (w : World) (fh inode : Nat) (writable : Bool) (f : File) : Prop := ∃ s, w.Shows fh inode writable f s

/-- The same, with the stream at a position. -/
def ContentAt (w : World) (fh inode : Nat) (writable : Bool) (f : File) (pos : Nat) : Prop :=
  ∃ s, w.Shows fh inode writable f s ∧ s.pos = pos

variable {w : World} {fh inode : Nat} {writable : Bool} {f : File} {pos : Nat}

theorem ContentAt.content (h : w.ContentAt fh inode writable f pos) : w.Content fh inode writable f := by
  obtain ⟨s, hs, _⟩ := h
  exact ⟨s, hs⟩

/-- What a call on a stream leaves: the stream and the file it has made of the
old one, and everything else as it was. -/
theorem Shows.stored (w : World) (fh : Nat) {s : Stream} {g : File} (hinode : s.inode = inode) (hmode : s.writable = writable)
    (hcoherent : s.Coherent g) :
    ((w.setFile inode g).setStream fh (some s)).Shows fh inode writable (s.contents g) s where
  opened := by simp [setStream]
  on := hinode
  mode := hmode
  coherent := by simpa [setStream, setFile] using hcoherent
  contents := by simp [setStream, setFile]

/-- A seek leaves the stream at its target. -/
theorem Shows.fseeko {s : Stream} (h : w.Shows fh inode writable f s) (offset : Int) (whence : Whence) {target : Nat}
    (htarget : (match whence with | .set => offset | .end_ => f.size + offset : Int) = (target : Int)) :
    (w.fseeko fh s offset whence).ContentAt fh inode writable f target := by
  have hinode : (s.seek target).inode = inode := h.on
  have hstored := Shows.stored w fh hinode h.mode (h.coherent.seek target)
  rw [Stream.contents_seek, h.contents] at hstored
  have hnonneg : ¬ (target : Int) < 0 := by omega
  refine ⟨s.seek target, ?_, Stream.pos_seek _ _⟩
  cases whence <;>
    simpa [World.fseeko, World.contents, World.file, h.on, h.contents, show _ = (target : Int) from htarget, hnonneg]
      using hstored

end World

variable {x : Space} {fh inode : Nat} {writable : Bool} {f : File} {pos : Nat} {choice : Choice}

/-- A seek changes nothing but the position. -/
theorem content_fseeko (choice : Choice) (h : x.world.Content fh inode writable f) (target : Nat) :
    ∃ w, libc (.fseeko (some fh) target .set) choice x = .ok ((), { x with world := w }) ∧
      w.ContentAt fh inode writable f target := by
  obtain ⟨s, hs⟩ := h
  refine ⟨_, ?_, hs.fseeko target .set rfl⟩
  simp only [libc, Space.onStream, hs.opened]

/-- A seek to the end goes where the contents end. -/
theorem content_fseeko_end (choice : Choice) (h : x.world.Content fh inode writable f) :
    ∃ w, libc (.fseeko (some fh) 0 .end_) choice x = .ok ((), { x with world := w }) ∧
      w.ContentAt fh inode writable f f.size := by
  obtain ⟨s, hs⟩ := h
  refine ⟨_, ?_, hs.fseeko 0 .end_ (Int.add_zero _)⟩
  simp only [libc, Space.onStream, hs.opened]

theorem content_ftello (h : x.world.ContentAt fh inode writable f pos) :
    libc (.ftello (some fh)) choice x = .ok (pos, x) := by
  obtain ⟨s, hs, rfl⟩ := h
  simp only [libc, Space.onStream, hs.opened]

/-- A read stores a part of what the contents have at its place, and changes
nothing but the position. -/
theorem content_fread (choice : Choice) (h : x.world.ContentAt fh inode writable f pos) (i count : Nat) :
    ∃ w, libc (.fread i count (some fh)) choice x =
        .ok (((f.pread pos count).take choice.amount).length,
          { world := w, data := blit x.data i ((f.pread pos count).take choice.amount) }) ∧
      w.Content fh inode writable f := by
  obtain ⟨s, hs, rfl⟩ := h
  obtain ⟨hbytes, hcontents, hcoherent, hinode, hmode⟩ := hs.coherent.read count choice
  rw [hs.contents] at hbytes hcontents hcoherent
  have hstored := World.Shows.stored x.world fh (hinode.trans hs.on) (hmode.trans hs.mode) hcoherent
  rw [hcontents] at hstored
  refine ⟨_, ?_, _, hstored⟩
  simp only [libc, Space.onStream, hs.opened, World.fread, World.contents, World.file, hs.on, hs.contents, hbytes]

/-- A write puts a part of its bytes into the contents, at its place. -/
theorem content_fwrite (choice : Choice) (h : x.world.ContentAt fh inode true f pos) (i count : Nat) :
    ∃ w, libc (.fwrite i count (some fh)) choice x =
        .ok (((slice x.data i count).take choice.amount).length, { x with world := w }) ∧
      w.Content fh inode true (f.pwrite pos ((slice x.data i count).take choice.amount)) := by
  obtain ⟨s, hs, rfl⟩ := h
  obtain ⟨hcount, hcontents, hcoherent, hinode, hmode⟩ :=
    Stream.write_spec (f := x.world.fs.files inode) hs.mode (slice x.data i count) choice
  rw [hs.contents] at hcontents
  have hstored := World.Shows.stored x.world fh (hinode.trans hs.on) (hmode.trans hs.mode) hcoherent
  rw [hcontents] at hstored
  refine ⟨_, ?_, _, hstored⟩
  simp only [libc, Space.onStream, hs.opened, World.fwrite, World.file, hs.on, hcount]

/-- On a stream that is open for reading it puts none. -/
theorem content_fwrite_readonly (choice : Choice) (h : x.world.Content fh inode false f) (i count : Nat) :
    ∃ w, libc (.fwrite i count (some fh)) choice x = .ok ((0 : Nat), { x with world := w }) ∧
      w.Content fh inode false f := by
  obtain ⟨s, hs⟩ := h
  have hstored := World.Shows.stored x.world fh hs.on hs.mode hs.coherent
  rw [hs.contents] at hstored
  refine ⟨_, ?_, _, hstored⟩
  simp only [libc, Space.onStream, hs.opened, World.fwrite, World.file, hs.on, Stream.write_readonly hs.mode]

end lib
