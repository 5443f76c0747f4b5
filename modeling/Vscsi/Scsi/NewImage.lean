import Vscsi.Scsi.Disk

open lib lib.Code

namespace vscsi.scsi_target

/-- The name of an archived image: the time and the process number, which are the
fourth and the fifth answer that `insert_new_dvd_r` gets. -/
def archiveName (choices : Nat → Choice) : FileName :=
  hex8 (choices 3).answer ++ '_' :: (Nat.toDigits 10 (choices 4).answer ++ ".iso".toList)

/-- The world once the stream of an image has been closed. -/
def closedImage (w : World) (fh inode : Nat) (f : File) : World := (w.setFile inode f).setStream fh none

/-- The world once the image has its other name, unless it is empty. -/
def archivedImage (w : World) (filename archive : FileName) (size : Nat) : World :=
  if size ≠ 0 then w.rename filename archive else w

/-- The world once an image has been archived and a new one started. -/
def newImage (w : World) (fh inode : Nat) (f : File) (filename archive : FileName) : World :=
  ((archivedImage (closedImage w fh inode f) filename archive f.size).fopen filename .w_plus .whole).2

section Exec

variable {ld ld' : LunData} {m m' : Machine Choice Space} {fh inode : Nat} {writable : Bool} {f : File} {s : Stream}

theorem exec_perform {c : Call} {r : Reply c} {x : Space} (h : libc c (m.choices 0) m.state = .ok (r, x)) :
    (Prog.perform c : Code (Reply c)).exec libc m = .ok (r, next m x) := by
  simp only [Prog.perform, Prog.exec, h]
  rfl

/-- An open for writing has one outcome if it succeeds. -/
theorem fopen_w_plus (w : World) (name : FileName) (choice : Choice) :
    (w.fopen name .w_plus choice).1 = none ∨
      (w.fopen name .w_plus choice).1 = some w.next ∧ w.fopen name .w_plus choice = w.fopen name .w_plus .whole := by
  unfold World.fopen
  split
  · refine .inr ⟨?_, ?_⟩
    · cases w.fs.directory name <;> rfl
    · rfl
  · exact .inl rfl

theorem archivedImage_next (w : World) (filename archive : FileName) (size : Nat) :
    (archivedImage w filename archive size).next = w.next := by
  unfold archivedImage World.rename
  split
  · cases w.fs.directory filename with
    | none => rfl
    | some inode =>
      simp only
      split <;> rfl
  · rfl

/-- A stream that has been moved to its end and closed has passed on its bytes. -/
theorem fclose_fseeko {w : World} (hs : w.Shows fh inode writable f s) :
    (w.fseeko fh s 0 .end_).streams fh = some (s.seek f.size) ∧
      (w.fseeko fh s 0 .end_).fclose fh (s.seek f.size) = closedImage w fh inode f := by
  have hsize : ¬ (f.size : Int) < 0 := by omega
  have hseek : w.fseeko fh s 0 .end_ = (w.setFile inode f).setStream fh (some (s.seek f.size)) := by
    simp only [World.fseeko, World.contents, World.file, hs.on, hs.contents, Int.add_zero, if_neg hsize, Int.toNat_natCast]
  rw [hseek]
  refine ⟨by simp [World.setStream], ?_⟩
  have hinode : (s.seek f.size).inode = inode := hs.on
  have hcontents : ((w.setFile inode f).setStream fh (some (s.seek f.size))).contents (s.seek f.size) = f := by
    simp [World.contents, World.file, World.setStream, World.setFile, hinode]
  simp only [World.fclose, hinode, hcontents]
  simp [closedImage, World.setStream, World.setFile]

/-- What `insert_new_dvd_r` leaves when it comes back. -/
theorem insert_new_dvd_r_exec (hfh : ld.lun_fh = some fh) (hs : m.state.world.Shows fh inode writable f s)
    (h : (insert_new_dvd_r ld).exec libc m = .ok (ld', m')) :
    ld' = { ld with lun_fh := some m.state.world.next } ∧
      m'.state.world = newImage m.state.world fh inode f ld.filename (archiveName m.choices) := by
  obtain ⟨hstream, hclose⟩ := fclose_fseeko hs
  have hopen : ∀ (m₁ : Machine Choice Space) (w : World), m₁.state.world = w → w.next = m.state.world.next →
      (do
        let lun_fh ← fopen ld.filename .w_plus
        if lun_fh.isNone then .fail (.exit 10) else return { ld with lun_fh } : Code LunData).exec libc m₁ = .ok (ld', m') →
      ld' = { ld with lun_fh := some m.state.world.next } ∧ m'.state.world = (w.fopen ld.filename .w_plus .whole).2 := by
    rintro m₁ w rfl hnext h
    rw [Prog.exec_bind, exec_fopen] at h
    rcases fopen_w_plus m₁.state.world ld.filename (m₁.choices 0) with hnone | ⟨hsome, hwhole⟩
    · simp [hnone, Prog.exec] at h
    · simp only [hsome, Option.isNone_some, Bool.false_eq_true, if_false, Prog.pure_eq, Prog.exec_ret, Except.ok.injEq,
        Prod.mk.injEq] at h
      obtain ⟨rfl, rfl⟩ := h
      exact ⟨by rw [hnext], by rw [← hwhole]; rfl⟩
  let sought : Space := { m.state with world := m.state.world.fseeko fh s 0 .end_ }
  have hseek : (fseeko (some fh) 0 .end_).exec libc m = .ok ((), next m sought) := by
    refine exec_perform ?_
    simp only [libc, Space.onStream, hs.opened, sought]
  have htell : (ftello (some fh)).exec libc (next m sought) = .ok (f.size, next (next m sought) sought) := by
    refine exec_perform ?_
    simp only [libc, Space.onStream, next, sought, hstream, Stream.pos_seek]
  have hend : (fclose (some fh)).exec libc (next (next m sought) sought) =
      .ok ((), next (next (next m sought) sought) { sought with world := closedImage m.state.world fh inode f }) := by
    refine exec_perform ?_
    simp only [libc, Space.onStream, next, sought, hstream, hclose]
  simp only [insert_new_dvd_r, hfh, Option.isSome_some, if_true, Prog.exec_bind, hseek, htell, hend] at h
  let closed : World := closedImage m.state.world fh inode f
  by_cases hsize : f.size ≠ 0
  · have hkept : archivedImage closed ld.filename (archiveName m.choices) f.size =
        closed.rename ld.filename (archiveName m.choices) := if_pos hsize
    have hnext := archivedImage_next closed ld.filename (archiveName m.choices) f.size
    rw [if_pos hsize] at h
    exact hopen { state := { m.state with world := closed.rename ld.filename (archiveName m.choices) }
                  choices := fun n => m.choices (n + 6) } _ hkept.symm hnext h
  · have hkept : archivedImage closed ld.filename (archiveName m.choices) f.size = closed := if_neg hsize
    rw [if_neg hsize] at h
    obtain ⟨hld, hw⟩ := hopen _ closed rfl rfl h
    exact ⟨hld, by rw [hw, newImage, hkept]⟩

end Exec

section Started

/-- What a world becomes when a new image is started on the file `j`, which is
new or was the one the name stood for. -/
structure Started (w : World) (fh inode : Nat) (f : File) (filename archive : FileName) (w' : World) (j : Nat) : Prop where
  next : w'.next = w.next + 1
  streams : w'.streams = Function.update (Function.update w.streams fh none) w.next (some (.opened j true))
  files : w'.fs.files = Function.update (Function.update w.fs.files inode f) j .empty
  name : w'.fs.directory filename = some j
  origin : j = w.fs.fresh ∧ w'.fs.fresh = w.fs.fresh + 1 ∨ w.fs.directory filename = some j ∧ w'.fs.fresh = w.fs.fresh
  others : ∀ other i, other ≠ filename → w'.fs.directory other = some i →
    w.fs.directory other = some i ∨ other = archive ∧ w.fs.directory filename = some i ∧ i ≠ j

/-- The files that streams are open on once an image has been started. -/
theorem Started.inode? {w w' : World} {fh inode j : Nat} {f : File} {filename archive : FileName}
    (hstarted : Started w fh inode f filename archive w' j) (n : Nat) :
    w'.inode? n = if n = w.next then some j else if n = fh then none else w.inode? n := by
  unfold World.inode?
  rw [hstarted.streams]
  by_cases hnext : n = w.next
  · subst hnext
    simp [Stream.opened]
  · rw [Function.update_of_ne hnext, if_neg hnext]
    by_cases hfh : n = fh
    · subst hfh
      simp
    · rw [Function.update_of_ne hfh, if_neg hfh]

theorem Started.name_inj {w w' : World} {fh inode i j : Nat} {f : File} {filename archive : FileName}
    (hstarted : Started w fh inode f filename archive w' j) (hname : w'.fs.directory filename = some i) : j = i :=
  Option.some.inj (hstarted.name.symm.trans hname)

/-- Starting an image over the one its name stands for. -/
theorem Started.over {w : World} (fh inode : Nat) (f : File) {filename : FileName} (archive : FileName) {j : Nat}
    (h : w.fs.directory filename = some j) :
    Started w fh inode f filename archive (((closedImage w fh inode f).fopen filename .w_plus .whole).2) j := by
  have hname : (closedImage w fh inode f).fs.directory filename = some j := h
  simp only [World.fopen, Choice.whole, if_true, hname]
  exact ⟨rfl, rfl, rfl, h, .inr ⟨h, rfl⟩, fun other i _ hi => .inl hi⟩

/-- Starting an image where the name stands for nothing. -/
theorem Started.anew {w w₁ : World} (fh inode : Nat) (f : File) {filename archive : FileName}
    (hbelow : ∀ name i, w.fs.directory name = some i → i < w.fs.fresh)
    (hfs : w₁ = { closedImage w fh inode f with
      fs := { (closedImage w fh inode f).fs with directory := w₁.fs.directory } })
    (hnone : w₁.fs.directory filename = none)
    (hothers : ∀ other i, w₁.fs.directory other = some i →
      w.fs.directory other = some i ∨ other = archive ∧ w.fs.directory filename = some i) :
    Started w fh inode f filename archive ((w₁.fopen filename .w_plus .whole).2) w.fs.fresh := by
  have hfresh : w₁.fs.fresh = w.fs.fresh := by rw [hfs]; rfl
  have hnext : w₁.next = w.next := by rw [hfs]; rfl
  have hfiles : w₁.fs.files = Function.update w.fs.files inode f := by rw [hfs]; rfl
  have hstreams : w₁.streams = Function.update w.streams fh none := by rw [hfs]; rfl
  simp only [World.fopen, Choice.whole, if_true, hnone]
  constructor
  · exact congrArg (· + 1) hnext
  · simp only [World.setStream, World.setFile, hstreams, hnext, hfresh]
  · simp only [hfiles, hfresh]
  · simp [hfresh]
  · exact .inl ⟨rfl, congrArg (· + 1) hfresh⟩
  · intro other i hother hi
    simp only [Function.update_of_ne hother] at hi
    rcases hothers other i hi with h | ⟨harchive, h⟩
    · exact .inl h
    · exact .inr ⟨harchive, h, Nat.ne_of_lt (hbelow _ _ h)⟩

theorem newImage_started (w : World) (fh inode : Nat) (f : File) (filename archive : FileName)
    (hbelow : ∀ name i, w.fs.directory name = some i → i < w.fs.fresh) :
    ∃ j, Started w fh inode f filename archive (newImage w fh inode f filename archive) j := by
  have hdirectory : (closedImage w fh inode f).fs.directory = w.fs.directory := rfl
  -- unless the image gets its other name, it is opened as it is
  have hkept : ∃ j, Started w fh inode f filename archive (((closedImage w fh inode f).fopen filename .w_plus .whole).2) j := by
    cases hname : w.fs.directory filename with
    | some j => exact ⟨j, .over fh inode f archive hname⟩
    | none => exact ⟨_, .anew fh inode f hbelow rfl hname fun other i hi => .inl hi⟩
  unfold newImage archivedImage
  by_cases hsize : f.size ≠ 0
  · rw [if_pos hsize]
    unfold World.rename
    rw [hdirectory]
    cases hname : w.fs.directory filename with
    | none => exact hkept
    | some i =>
      simp only
      split
      · exact hkept
      · rename_i hother
        refine ⟨_, .anew fh inode f hbelow rfl ?_ ?_⟩
        · simp
        · intro other i' hi'
          by_cases hfilename : other = filename
          · subst hfilename
            simp at hi'
          · by_cases harchive : other = archive
            · subst harchive
              simp only [Function.update_of_ne hfilename, Function.update_self] at hi'
              exact .inr ⟨rfl, by rw [hname, hi']⟩
            · simp only [Function.update_of_ne hfilename, Function.update_of_ne harchive] at hi'
              exact .inl hi'
  · rw [if_neg hsize]
    exact hkept

end Started

/-- It comes back if its file can be opened. -/
theorem insert_new_dvd_r_ends (hfh : ld.lun_fh = some fh) {x : Space} (h : x.world.Content fh inode writable f) :
    (insert_new_dvd_r ld).Meets libc (·.opens = true) (fun _ => False) x fun _ _ => True := by
  have hopen (x : Space) : (do
      let lun_fh ← fopen ld.filename .w_plus
      if lun_fh.isNone then .fail (.exit 10) else return { ld with lun_fh } : Code LunData).Meets libc (·.opens = true)
        (fun _ => False) x fun _ _ => True := by
    refine Prog.Meets.call fun choice hopens => ⟨(x.world.fopen ld.filename .w_plus choice).1,
      { x with world := (x.world.fopen ld.filename .w_plus choice).2 }, rfl, ?_⟩
    have hsome : (x.world.fopen ld.filename .w_plus choice).1 = some x.world.next := by
      unfold World.fopen
      rw [if_pos hopens]
      cases x.world.fs.directory ld.filename <;> rfl
    rw [hsome]
    trivial
  simp only [insert_new_dvd_r, hfh, Option.isSome_some, if_true]
  refine Prog.Meets.call fun choice _ => ?_
  obtain ⟨w, hseek, hat⟩ := content_fseeko_end choice h
  refine ⟨_, _, hseek, Prog.Meets.call fun choice _ => ⟨_, _, content_ftello hat, ?_⟩⟩
  obtain ⟨s, hs, -⟩ := hat
  refine Prog.Meets.call fun choice _ => ⟨(), { x with world := w.fclose fh s }, ?_, ?_⟩
  · simp only [libc, Space.onStream, hs.opened]
  · split
    · refine Prog.Meets.call fun _ _ => ⟨_, _, rfl, Prog.Meets.call fun _ _ => ⟨_, _, rfl, ?_⟩⟩
      exact Prog.Meets.call fun _ _ => ⟨_, _, rfl, hopen _⟩
    · exact hopen _

section Linked

variable {w : World} (fh : Nat) {inode : Nat} {f : File} {filename : FileName} (archive : FileName)
  (hname : w.fs.directory filename = some inode)

include hname

/-- An empty image stays under its name. -/
theorem newImage_directory_of_empty (hsize : f.size = 0) :
    (newImage w fh inode f filename archive).fs.directory = w.fs.directory := by
  have hclosed : (closedImage w fh inode f).fs.directory filename = some inode := hname
  rw [newImage, archivedImage, if_neg (not_not.mpr hsize)]
  simp only [World.fopen, Choice.whole, if_true, hclosed]
  rfl

/-- Any other image goes to its other name, and a new file takes its own. -/
theorem newImage_directory (hsize : f.size ≠ 0) (hother : w.fs.directory archive ≠ some inode) :
    (newImage w fh inode f filename archive).fs.directory =
      Function.update (Function.update w.fs.directory archive (some inode)) filename (some w.fs.fresh) := by
  have hclosed : (closedImage w fh inode f).fs.directory = w.fs.directory := rfl
  rw [newImage, archivedImage, if_pos hsize]
  simp only [World.rename, hclosed, hname, if_neg hother, World.fopen, Choice.whole, if_true, Function.update_self]
  exact Function.update_idem _ _ _

end Linked

section Names

/-- Two worlds have the same names. -/
structure SameNames (w w' : World) : Prop where
  directory : w'.fs.directory = w.fs.directory
  fresh : w'.fs.fresh = w.fs.fresh

variable {w w' : World}

theorem SameNames.rename (h : SameNames w w') (old new : FileName) : SameNames (w.rename old new) (w'.rename old new) := by
  unfold World.rename
  rw [h.directory]
  cases w.fs.directory old with
  | none => exact h
  | some inode =>
    simp only
    split
    · exact h
    · exact ⟨rfl, h.fresh⟩

theorem SameNames.fopen (h : SameNames w w') (name : FileName) :
    SameNames (w.fopen name .w_plus .whole).2 (w'.fopen name .w_plus .whole).2 := by
  simp only [World.fopen, Choice.whole, if_true, h.directory]
  cases w.fs.directory name with
  | some inode => exact ⟨h.directory, h.fresh⟩
  | none => exact ⟨by simp only [h.fresh], by simp only [h.fresh]⟩

/-- Archiving and starting an image does the same to the names of both. -/
theorem SameNames.newImage (h : SameNames w w') (fh fh' inode inode' : Nat) (f : File) (filename archive : FileName) :
    SameNames (newImage w fh inode f filename archive) (newImage w' fh' inode' f filename archive) := by
  have hclosed : SameNames (closedImage w fh inode f) (closedImage w' fh' inode' f) := ⟨h.directory, h.fresh⟩
  unfold scsi_target.newImage archivedImage
  by_cases hsize : f.size ≠ 0
  · rw [if_pos hsize, if_pos hsize]
    exact (hclosed.rename filename archive).fopen filename
  · rw [if_neg hsize, if_neg hsize]
    exact hclosed.fopen filename

end Names

end vscsi.scsi_target
