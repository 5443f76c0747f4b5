import Vscsi.Lib.Content

namespace lib

namespace World

/-- A stream is open for writing on a file, with nothing stale in its buffer,
and what it makes of the file is `f`. -/
structure Holds (w : World) (fh inode : Nat) (f : File) (s : Stream) : Prop where
  opened : w.streams fh = some s
  on : s.inode = inode
  writable : s.writable = true
  coherent : s.Coherent (w.fs.files inode)
  contents : s.contents (w.fs.files inode) = f

/-- Some stream is. -/
def Volume (w : World) (fh inode : Nat) (f : File) : Prop := ∃ s, w.Holds fh inode f s

/-- The same, with the stream at a position. -/
def VolumeAt (w : World) (fh inode : Nat) (f : File) (pos : Nat) : Prop := ∃ s, w.Holds fh inode f s ∧ s.pos = pos

variable {w : World} {fh inode : Nat} {f : File} {pos : Nat}

theorem VolumeAt.volume (h : w.VolumeAt fh inode f pos) : w.Volume fh inode f := by
  obtain ⟨s, hs, _⟩ := h
  exact ⟨s, hs⟩

theorem volume_iff : w.Volume fh inode f ↔ w.Content fh inode true f :=
  exists_congr fun _ => ⟨fun h => ⟨h.opened, h.on, h.writable, h.coherent, h.contents⟩,
    fun h => ⟨h.opened, h.on, h.mode, h.coherent, h.contents⟩⟩

theorem volumeAt_iff : w.VolumeAt fh inode f pos ↔ w.ContentAt fh inode true f pos :=
  exists_congr fun _ => and_congr_left' ⟨fun h => ⟨h.opened, h.on, h.writable, h.coherent, h.contents⟩,
    fun h => ⟨h.opened, h.on, h.mode, h.coherent, h.contents⟩⟩

end World

variable {x : Space} {fh inode : Nat} {f : File} {pos : Nat} {choice : Choice}

/-- A seek changes nothing but the position. -/
theorem libc_fseeko (choice : Choice) (h : x.world.Volume fh inode f) (target : Nat) :
    ∃ w, libc (.fseeko (some fh) target .set) choice x = .ok ((), { x with world := w }) ∧
      w.VolumeAt fh inode f target := by
  simpa only [World.volumeAt_iff] using content_fseeko choice (World.volume_iff.mp h) target

/-- A read stores a part of what the contents have at its place, and changes
nothing but the position. -/
theorem libc_fread (choice : Choice) (h : x.world.VolumeAt fh inode f pos) (i count : Nat) :
    ∃ w, libc (.fread i count (some fh)) choice x =
        .ok (((f.pread pos count).take choice.amount).length,
          { world := w, data := blit x.data i ((f.pread pos count).take choice.amount) }) ∧
      w.Volume fh inode f := by
  simpa only [World.volume_iff] using content_fread choice (World.volumeAt_iff.mp h) i count

/-- A write puts a part of its bytes into the contents, at its place. -/
theorem libc_fwrite (choice : Choice) (h : x.world.VolumeAt fh inode f pos) (i count : Nat) :
    ∃ w, libc (.fwrite i count (some fh)) choice x =
        .ok (((slice x.data i count).take choice.amount).length, { x with world := w }) ∧
      w.Volume fh inode (f.pwrite pos ((slice x.data i count).take choice.amount)) := by
  simpa only [World.volume_iff] using content_fwrite choice (World.volumeAt_iff.mp h) i count

/-- A file that has been opened has a new stream on it, at its start. -/
theorem World.fopen_opened {w w' : World} {name : FileName} {mode : Mode} {fh : Nat}
    (h : w.fopen name mode choice = (some fh, w')) :
    ∃ inode, w'.fs.directory name = some inode ∧ w'.streams fh = some (.opened inode (mode ≠ .r)) := by
  unfold fopen at h
  split at h
  · cases hname : w.fs.directory name with
    | some inode =>
      refine ⟨inode, ?_⟩
      cases mode <;>
        simp only [hname, Prod.mk.injEq, Option.some.injEq] at h <;>
        obtain ⟨rfl, rfl⟩ := h <;>
        simp [setStream, setFile, hname]
    | none =>
      cases mode with
      | r => simp [hname] at h
      | r_plus => simp [hname] at h
      | w_plus =>
        simp only [hname, Prod.mk.injEq, Option.some.injEq] at h
        obtain ⟨rfl, rfl⟩ := h
        simp [setStream]
  · simp at h

/-- A file opened for update has a stream for writing. -/
theorem World.fopen_some {w w' : World} {name : FileName} {mode : Mode} {fh : Nat}
    (h : w.fopen name mode choice = (some fh, w')) (hmode : mode ≠ .r) :
    ∃ inode, w'.fs.directory name = some inode ∧ w'.streams fh = some (.opened inode true) := by
  have hopened := World.fopen_opened h
  rwa [decide_eq_true hmode] at hopened

/-- A new stream makes of a file what is in it. -/
theorem World.opened_content {w : World} {fh inode : Nat} {writable : Bool}
    (h : w.streams fh = some (.opened inode writable)) : w.Content fh inode writable (w.fs.files inode) :=
  ⟨_, h, rfl, rfl, .opened _ _ _, File.pwrite_nil _ _⟩

@[simp] theorem World.truncate_streams (w : World) (name : FileName) (size : Int) :
    (w.truncate name size).streams = w.streams := by
  unfold truncate
  split
  · rfl
  · split <;> rfl

/-- Truncating the file of a stream just opened. -/
theorem World.truncate_opened {w : World} {name : FileName} (hname : w.fs.directory name = some inode)
    (hstream : w.streams fh = some (.opened inode true)) (size : Nat) :
    (w.truncate name size).Volume fh inode ((w.fs.files inode).truncate size) := by
  have hnonneg : ¬ (size : Int) < 0 := by omega
  refine ⟨.opened inode true, ?_⟩
  simp only [truncate, hname, hnonneg, if_false, Int.toNat_natCast]
  constructor
  · exact hstream
  · rfl
  · rfl
  · exact Stream.Coherent.opened _ _ _
  · simp [setFile, Stream.contents, Stream.opened]

/-- A call works on no stream but this one. -/
def Call.On (fh : Option Nat) : Call → Prop
  | .store .. => True
  | .fseeko fh' _ _ => fh' = fh
  | .ftello fh' => fh' = fh
  | .fread _ _ fh' => fh' = fh
  | .fwrite _ _ fh' => fh' = fh
  | _ => False

/-- The file a stream is open on. -/
def World.inode? (w : World) (fh : Nat) : Option Nat := (w.streams fh).map (·.inode)

theorem World.Content.inode? {w : World} {fh inode : Nat} {writable : Bool} {f : File} (h : w.Content fh inode writable f) :
    w.inode? fh = some inode := by
  obtain ⟨s, hs⟩ := h
  rw [World.inode?, hs.opened, Option.map_some, hs.on]

theorem World.Content.unique {w : World} {fh inode inode' : Nat} {writable writable' : Bool} {f g : File}
    (hf : w.Content fh inode writable f) (hg : w.Content fh inode' writable' g) : f = g := by
  obtain ⟨s, hs⟩ := hf
  obtain ⟨s', hs'⟩ := hg
  obtain rfl : s = s' := Option.some.inj (hs.opened.symm.trans hs'.opened)
  obtain rfl : inode = inode' := hs.on.symm.trans hs'.on
  exact hs.contents.symm.trans hs'.contents

/-- Nothing has changed but the data, and what concerns one stream and the file
it is open on. -/
structure World.Elsewhere (fh : Option Nat) (w w' : World) : Prop where
  streams : ∀ other, some other ≠ fh → w'.streams other = w.streams other
  files : ∀ inode, (∀ n s, fh = some n → w.streams n = some s → s.inode ≠ inode) → w'.fs.files inode = w.fs.files inode
  on : ∀ n, fh = some n → w'.inode? n = w.inode? n
  directory : w'.fs.directory = w.fs.directory

theorem World.Elsewhere.refl (fh : Option Nat) (w : World) : World.Elsewhere fh w w :=
  ⟨fun _ _ => rfl, fun _ _ => rfl, fun _ _ => rfl, rfl⟩

theorem World.Elsewhere.trans {fh : Option Nat} {w w' w'' : World} (h : World.Elsewhere fh w w')
    (h' : World.Elsewhere fh w' w'') : World.Elsewhere fh w w'' where
  streams other hother := (h'.streams other hother).trans (h.streams other hother)
  files inode hinode := by
    refine (h'.files inode fun n s hn hs => ?_).trans (h.files inode hinode)
    have hsame := h.on n hn
    rw [inode?, inode?, hs] at hsame
    obtain ⟨s₀, hs₀, heq⟩ := Option.map_eq_some_iff.mp hsame.symm
    rw [← show s₀.inode = s.inode from heq]
    exact hinode n s₀ hn hs₀
  on n hn := (h'.on n hn).trans (h.on n hn)
  directory := h'.directory.trans h.directory

/-- Storing a stream with the file it is on. -/
theorem World.Elsewhere.stored (w : World) {fh : Nat} {s s' : Stream} (hs : w.streams fh = some s)
    (hinode : s'.inode = s.inode) (g : File) :
    World.Elsewhere (some fh) w ((w.setFile s.inode g).setStream fh (some s')) where
  streams other hother := by
    have hne : other ≠ fh := fun heq => hother (congrArg some heq)
    simp [setStream, setFile, hne]
  files inode hother := by
    have hne : inode ≠ s.inode := fun heq => hother fh s rfl hs heq.symm
    simp [setStream, setFile, hne]
  on n hn := by
    obtain rfl := Option.some.inj hn
    simp [inode?, setStream, hs, hinode]
  directory := rfl

theorem libc_elsewhere {fh : Option Nat} {c : Call} (hon : c.On fh) {x x' : Space} {choice : Choice}
    {r : Reply c} (h : libc c choice x = .ok (r, x')) : World.Elsewhere fh x.world x'.world := by
  cases c with
  | store i bytes =>
    cases h
    exact .refl fh x.world
  | fseeko fh' offset whence =>
    obtain rfl : fh' = fh := hon
    obtain ⟨n, s, rfl, hs, hx⟩ := Space.onStream_ok h
    cases hx
    exact .stored x.world hs (rfl : (s.seek _).inode = s.inode) _
  | ftello fh' =>
    obtain ⟨n, s, rfl, hs, hx⟩ := Space.onStream_ok h
    cases hx
    exact .refl fh x.world
  | fread i count fh' =>
    obtain rfl : fh' = fh := hon
    obtain ⟨n, s, rfl, hs, hx⟩ := Space.onStream_ok h
    cases hx
    exact .stored x.world hs (Stream.read_inode s _ count choice) _
  | fwrite i count fh' =>
    obtain rfl : fh' = fh := hon
    obtain ⟨n, s, rfl, hs, hx⟩ := Space.onStream_ok h
    cases hx
    exact .stored x.world hs (Stream.write_inode s _ _ choice) _
  | _ => exact hon.elim

/-- A computation on one stream leaves everything else alone. -/
theorem Code.elsewhere {α : Type} {fh : Option Nat} {p : Code α} (h : p.Only (Call.On fh))
    {m m' : Machine Choice Space} {a : α} (hexec : p.exec libc m = .ok (a, m')) :
    World.Elsewhere fh m.state.world m'.state.world :=
  Prog.Only.frame (fun x x' => World.Elsewhere fh x.world x'.world) (fun x => .refl fh x.world)
    (fun x x' _ (hfirst : World.Elsewhere fh x.world x'.world) hsecond => hfirst.trans hsecond)
    (fun _ _ _ _ _ hon hcall => libc_elsewhere hon hcall) h hexec

/-- No stream changes to another file. -/
theorem World.Elsewhere.inode?_eq {fh : Option Nat} {w w' : World} (h : World.Elsewhere fh w w') (n : Nat) :
    w'.inode? n = w.inode? n := by
  by_cases hn : fh = some n
  · exact h.on n hn
  · rw [inode?, inode?, h.streams n (Ne.symm hn)]

/-- A stream on another file keeps its contents. -/
theorem World.Elsewhere.content {w w' : World} {fh inode : Nat} {writable : Bool} {f : File} {other : Option Nat}
    (h : World.Elsewhere other w w') (hfh : some fh ≠ other)
    (hinode : ∀ n, other = some n → w.inode? n ≠ some inode)
    (hcontent : w.Content fh inode writable f) : w'.Content fh inode writable f := by
  obtain ⟨s, hs⟩ := hcontent
  have hfile := h.files inode fun n s' hn hs' heq => hinode n hn (by rw [inode?, hs', ← heq]; rfl)
  refine ⟨s, ?_, hs.on, hs.mode, ?_, ?_⟩
  · rw [h.streams fh hfh, hs.opened]
  · rw [hfile]
    exact hs.coherent
  · rw [hfile, hs.contents]

theorem World.Elsewhere.volume {w w' : World} {fh : Nat} {inode : Nat} {f : File} {other : Option Nat}
    (h : World.Elsewhere other w w') (hfh : some fh ≠ other)
    (hinode : ∀ n, other = some n → w.inode? n ≠ some inode)
    (hvolume : w.Volume fh inode f) : w'.Volume fh inode f :=
  volume_iff.mpr (h.content hfh hinode (volume_iff.mp hvolume))

/-- The change is to one stream that is open, and to the file it is on. -/
structure World.Local (fh : Option Nat) (w w' : World) : Prop extends World.Elsewhere fh w w' where
  next : w'.next = w.next
  fresh : w'.fs.fresh = w.fs.fresh

theorem World.Local.refl (fh : Option Nat) (w : World) : World.Local fh w w := ⟨.refl fh w, rfl, rfl⟩

theorem World.Local.trans {fh : Option Nat} {w w' w'' : World} (h : World.Local fh w w') (h' : World.Local fh w' w'') :
    World.Local fh w w'' :=
  ⟨h.toElsewhere.trans h'.toElsewhere, h'.next.trans h.next, h'.fresh.trans h.fresh⟩

theorem libc_local {fh : Option Nat} {c : Call} (hon : c.On fh) {x x' : Space} {choice : Choice} {r : Reply c}
    (h : libc c choice x = .ok (r, x')) : World.Local fh x.world x'.world := by
  have hcounters : x'.world.next = x.world.next ∧ x'.world.fs.fresh = x.world.fs.fresh := by
    cases c with
    | store i bytes =>
      cases h
      exact ⟨rfl, rfl⟩
    | fseeko fh' offset whence =>
      obtain ⟨n, s, rfl, hs, hx⟩ := Space.onStream_ok h
      cases hx
      exact ⟨rfl, rfl⟩
    | ftello fh' =>
      obtain ⟨n, s, rfl, hs, hx⟩ := Space.onStream_ok h
      cases hx
      exact ⟨rfl, rfl⟩
    | fread i count fh' =>
      obtain ⟨n, s, rfl, hs, hx⟩ := Space.onStream_ok h
      cases hx
      exact ⟨rfl, rfl⟩
    | fwrite i count fh' =>
      obtain ⟨n, s, rfl, hs, hx⟩ := Space.onStream_ok h
      cases hx
      exact ⟨rfl, rfl⟩
    | _ => exact hon.elim
  exact ⟨libc_elsewhere hon h, hcounters.1, hcounters.2⟩

/-- A computation on one stream changes nothing else. -/
theorem Code.onStream {α : Type} {fh : Option Nat} {p : Code α} (h : p.Only (Call.On fh)) {m m' : Machine Choice Space}
    {a : α} (hexec : p.exec libc m = .ok (a, m')) : World.Local fh m.state.world m'.state.world :=
  Prog.Only.frame (fun x x' => World.Local fh x.world x'.world) (fun x => .refl fh x.world)
    (fun x x' _ (hfirst : World.Local fh x.world x'.world) hsecond => hfirst.trans hsecond)
    (fun _ _ _ _ _ hon hcall => libc_local hon hcall) h hexec

/-- A seek keeps the contents, wherever it goes. -/
theorem World.Content.seek {w : World} {fh inode : Nat} {writable : Bool} {f : File} {s : Stream}
    (h : w.Shows fh inode writable f s) (offset : Int) (whence : Whence) :
    (w.fseeko fh s offset whence).Content fh inode writable f := by
  have hkept (pos : Nat) : ((w.setFile s.inode (w.contents s)).setStream fh (some (s.seek pos))).Content fh inode writable f := by
    have hstored := World.Shows.stored w fh (s := s.seek pos) h.on h.mode (h.coherent.seek pos)
    rw [Stream.contents_seek, h.contents] at hstored
    refine ⟨s.seek pos, ?_⟩
    simpa [World.contents, World.file, h.on, h.contents] using hstored
  exact hkept _

/-- No call changes what a stream that is open for reading makes of its file. -/
theorem libc_readonly {fh inode : Nat} {f : File} {c : Call} (hon : c.On (some fh)) {x x' : Space} {choice : Choice}
    {r : Reply c} (h : libc c choice x = .ok (r, x')) (hcontent : x.world.Content fh inode false f) :
    x'.world.Content fh inode false f := by
  obtain ⟨s, hs⟩ := id hcontent
  cases c with
  | store i bytes =>
    cases h
    exact hcontent
  | fseeko fh' offset whence =>
    obtain rfl := hon
    simp only [libc, Space.onStream, hs.opened] at h
    cases h
    exact .seek hs offset whence
  | ftello fh' =>
    obtain rfl := hon
    simp only [libc, Space.onStream, hs.opened] at h
    cases h
    exact hcontent
  | fread i count fh' =>
    obtain rfl := hon
    obtain ⟨w, hcall, hkept⟩ := content_fread choice ⟨s, hs, rfl⟩ i count
    obtain ⟨-, rfl⟩ := Prod.mk.inj (Except.ok.inj (h.symm.trans hcall))
    exact hkept
  | fwrite i count fh' =>
    obtain rfl := hon
    obtain ⟨w, hcall, hkept⟩ := content_fwrite_readonly choice hcontent i count
    obtain ⟨-, rfl⟩ := Prod.mk.inj (Except.ok.inj (h.symm.trans hcall))
    exact hkept
  | _ => exact hon.elim

/-- Nor does a computation on it. -/
theorem Code.readonly {α : Type} {fh inode : Nat} {f : File} {p : Code α} (h : p.Only (Call.On (some fh)))
    {m m' : Machine Choice Space} {a : α} (hexec : p.exec libc m = .ok (a, m'))
    (hcontent : m.state.world.Content fh inode false f) : m'.state.world.Content fh inode false f :=
  Prog.Only.frame (fun x x' => x.world.Content fh inode false f → x'.world.Content fh inode false f) (fun _ hx => hx)
    (fun _ _ _ hfirst hsecond hx => hsecond (hfirst hx))
    (fun _ _ _ _ _ hon hcall hx => libc_readonly hon hcall hx) h hexec hcontent

end lib
