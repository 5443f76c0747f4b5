import Vscsi.Lib.Content

namespace lib

/-- How many offsets from a place on come before the first bad one, up to a number. -/
def reach (bad : Nat → Bool) (pos : Nat) : Nat → Nat
  | 0 => 0
  | n + 1 => if bad pos then 0 else reach bad (pos + 1) n + 1

/-- The position of a stream. -/
def Space.offset (x : Space) (fh : Option Nat) : Nat :=
  match fh.bind x.world.streams with
  | some s => s.pos
  | none => 0

/-- A transfer moves no byte at a bad offset, however often it is tried there, and
at least one at any other if there is one to move. -/
def Call.limit (bad : Nat → Bool) (x : Space) (choice : Choice) : Call → Choice
  | .fread _ _ fh => { choice with amount := reach bad (x.offset fh) (max 1 choice.amount) }
  | .fwrite _ _ fh => { choice with amount := reach bad (x.offset fh) (max 1 choice.amount) }
  | _ => choice

/-- The library over a medium with bad offsets. -/
def faulty (bad : Nat → Bool) : Sem Reply Choice Space Fault := fun c choice x => libc c (c.limit bad x choice) x

variable {bad : Nat → Bool} {pos n : Nat}

theorem reach_pos (h : bad pos = false) (hn : 1 ≤ n) : 1 ≤ reach bad pos n := by
  obtain ⟨k, rfl⟩ := Nat.exists_eq_add_of_le' hn
  simp [reach, h]

/-- No transfer gets past a bad offset. -/
theorem reach_le {o : Nat} (h : bad o = true) (hpos : pos ≤ o) : pos + reach bad pos n ≤ o := by
  induction n generalizing pos with
  | zero => exact hpos
  | succ n ih =>
    unfold reach
    split
    · exact hpos
    · rename_i hgood
      have hne : pos ≠ o := fun heq => hgood (heq ▸ h)
      have hnext : pos + 1 ≤ o := by omega
      have hrest := ih hnext
      omega

/-- Whatever happens over such a medium may happen. -/
theorem faulty_refines {α : Type} {tolerated : Fault → Prop} {p : Code α} {x : Space} {Q : α → Space → Prop}
    (h : p.Meets libc (fun _ => True) tolerated x Q) (bad : Nat → Bool) :
    p.Meets (faulty bad) (fun _ => True) tolerated x Q :=
  h.refine fun c choice x _ => ⟨c.limit bad x choice, trivial, rfl⟩

variable {x : Space} {fh inode : Nat} {writable : Bool} {f : File}

theorem World.ContentAt.offset (h : x.world.ContentAt fh inode writable f pos) : x.offset (some fh) = pos := by
  obtain ⟨s, hs, rfl⟩ := h
  simp [Space.offset, hs.opened]

/-- A read gets at least one byte of those there are, unless it is at a bad
offset, and none from a bad offset or the end on. -/
theorem faulty_fread (bad : Nat → Bool) (choice : Choice) (h : x.world.ContentAt fh inode writable f pos) (i : Nat)
    {count : Nat} (hcount : 0 < count) :
    ∃ (res : Nat) (w : World) (data : Mem), faulty bad (.fread i count (some fh)) choice x = .ok (res, { world := w, data }) ∧
      w.Content fh inode writable f ∧ res ≤ count ∧ (bad pos = false → pos < f.size → 1 ≤ res) ∧
      ∀ o, bad o = true ∨ f.size ≤ o → pos ≤ o → pos + res ≤ o := by
  obtain ⟨w, hcall, hcontent⟩ := content_fread (Call.limit bad x choice (.fread i count (some fh))) h i count
  refine ⟨_, w, _, hcall, hcontent, ?_, ?_, ?_⟩
  all_goals simp only [List.length_take, f.pread_length, Call.limit, h.offset]
  · omega
  · intro hgood hmore
    have hreach := reach_pos hgood (Nat.le_max_left 1 choice.amount)
    omega
  · rintro o (hbad | hend) hpos
    · have hreach := reach_le (n := max 1 choice.amount) hbad hpos
      omega
    · omega

/-- A write puts at least one byte on a stream for writing, unless it is at a bad
offset, and none from a bad offset on or on another stream. -/
theorem faulty_fwrite (bad : Nat → Bool) (choice : Choice) (h : x.world.ContentAt fh inode writable f pos) (i : Nat)
    {count : Nat} (hcount : 0 < count) :
    ∃ (res : Nat) (w : World) (f' : File), faulty bad (.fwrite i count (some fh)) choice x = .ok (res, { x with world := w }) ∧
      w.Content fh inode writable f' ∧ res ≤ count ∧ (bad pos = false → writable = true → 1 ≤ res) ∧
      ∀ o, bad o = true ∨ writable = false → pos ≤ o → pos + res ≤ o := by
  cases writable with
  | false =>
    obtain ⟨w, hcall, hcontent⟩ :=
      content_fwrite_readonly (Call.limit bad x choice (.fwrite i count (some fh))) h.content i count
    exact ⟨0, w, f, hcall, hcontent, Nat.zero_le _, fun _ h => (nomatch h), fun o _ hpos => hpos⟩
  | true =>
    obtain ⟨w, hcall, hcontent⟩ := content_fwrite (Call.limit bad x choice (.fwrite i count (some fh))) h i count
    refine ⟨_, w, _, hcall, hcontent, ?_, ?_, ?_⟩
    all_goals simp only [List.length_take, slice_length, Call.limit, h.offset]
    · omega
    · intro hgood _
      have hreach := reach_pos hgood (Nat.le_max_left 1 choice.amount)
      omega
    · rintro o (hbad | hreadonly) hpos
      · have hreach := reach_le (n := max 1 choice.amount) hbad hpos
        omega
      · cases hreadonly

end lib
