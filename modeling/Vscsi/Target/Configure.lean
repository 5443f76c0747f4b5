import Vscsi.Scsi.Attach
import Mathlib.Data.List.Nodup

open lib lib.Code

namespace vscsi.main

open scsi_target

/-- What the option loop has found so far. -/
structure Options where
  /-- the option whose argument comes next: 1 for a device, 2 for files -/
  opt : Nat
  /-- bit 0 for a device, bit 1 for files, bit 2 for verbosity -/
  selection : UInt8
  devname : Option (List Char)
  filenames : Option (List Char)
  verbose : Bool

def Options.initial : Options where
  opt := 0
  selection := 0
  devname := none
  filenames := none
  verbose := false

/-- One round of the option loop. A device name makes it forget the other
options it has seen. -/
def option (o : Options) (arg : List Char) : Except Fault Options :=
  if o.opt = 1 then .ok { o with devname := some arg, opt := 0 }
  else if o.opt = 2 then .ok { o with filenames := some arg, opt := 0 }
  else if arg = "-dev".toList then
    if o.selection &&& 1 = 1 then .error (.exit 100) else .ok { o with opt := 1, selection := 1 }
  else if arg = "-files".toList then
    if o.selection &&& 2 = 2 then .error (.exit 100) else .ok { o with opt := 2, selection := o.selection ||| 2 }
  else if arg = "-v".toList then .ok { o with opt := 0, selection := o.selection ||| 4, verbose := true }
  else .error (.exit 100)

/-- The option loop, over the arguments behind the program's name. -/
def options (argv : List (List Char)) : Except Fault Options :=
  match argv.foldlM option .initial with
  | .error e => .error e
  | .ok o => if o.selection &&& 3 ≠ 3 ∨ o.opt ≠ 0 then .error (.exit 100) else .ok o

/-- The loop over the list of files, which ends with a comma in the place of its
terminator. `fname` is the name being read and `st_size` the size that the last
`stat` has found. -/
def listFiles : (filenames fname : List Char) → (lunfiles : List FileName) → (st_size : Nat) →
    Code (List FileName × Nat)
  | [], _, lunfiles, st_size => return (lunfiles, st_size)
  | c :: filenames, fname, lunfiles, st_size =>
    if c ≠ ',' then
      if 63 ≤ fname.length then .fail (.exit 1) else listFiles filenames (fname ++ [c]) lunfiles st_size
    else if fname = [] then listFiles filenames [] lunfiles st_size
    else do
      let size ← stat fname
      match size with
      | none => .fail (.exit 1)
      | some st_size =>
        if st_size % (1024 * 1024) ≠ 0 then .fail (.exit 1)
        else if fname ∈ lunfiles then .fail (.exit 1)
        -- there is room for 256 names
        else if 256 ≤ lunfiles.length then .fail .crash
        else listFiles filenames [] (lunfiles ++ [fname]) st_size

/-- The loop that adds the LUNs, all of one size. -/
def addLuns (t : TargetData) (lunsizeinmb : Int) : (i : Nat) → List FileName → Code TargetData
  | _, [] => return t
  | i, lunfile :: lunfiles => do
    let t ← add_lun t i lunfile .hd lunsizeinmb
    addLuns t lunsizeinmb (i + 1) lunfiles

/-- The size is the one left over from the loop before. -/
def configure_scsi_target (argv : List (List Char)) : Code TargetData :=
  match options argv with
  | .error e => .fail e
  | .ok o => do
    let t := add_target "virtual20mhd".toList TARGET_TYPE_EMULATION
    match o.filenames with
    | none => .fail .crash
    | some filenames =>
      let (lunfiles, st_size) ← listFiles (filenames ++ [',']) [] [] 0
      addLuns t (int32 (st_size / (1024 * 1024) : Nat)) 0 lunfiles

/-- The files of a list: what stands between its commas, if anything. -/
def listed (filenames : List Char) : List FileName := (filenames.splitOn ',').filter (· ≠ [])

/-- What the loop over the list has accepted. -/
structure Accepted (w : World) (lunfiles : List FileName) (st_size : Nat) : Prop where
  count : lunfiles.length ≤ 256
  nodup : lunfiles.Nodup
  sized : ∀ name ∈ lunfiles, ∃ mb, w.size? name = some (mb * (1024 * 1024))
  last : ∀ name, lunfiles.getLast? = some name → w.size? name = some st_size

theorem Accepted.initial (w : World) : Accepted w [] 0 where
  count := Nat.zero_le _
  nodup := .nil
  sized := nofun
  last := nofun

/-- Another name. -/
theorem Accepted.snoc {w : World} {lunfiles : List FileName} {st_size size : Nat} {name : FileName}
    (h : Accepted w lunfiles st_size) (hsize : w.size? name = some size) (hmb : size % (1024 * 1024) = 0)
    (hnew : name ∉ lunfiles) (hroom : lunfiles.length < 256) : Accepted w (lunfiles ++ [name]) size where
  count := by
    rw [List.length_append, List.length_singleton]
    omega
  nodup := by
    refine List.nodup_append.mpr ⟨h.nodup, List.nodup_singleton _, ?_⟩
    rintro other hother _ hname rfl
    rw [List.mem_singleton] at hname
    exact hnew (hname ▸ hother)
  sized other hother := by
    rcases List.mem_append.mp hother with hold | hlast
    · exact h.sized other hold
    · obtain rfl := List.mem_singleton.mp hlast
      exact ⟨size / (1024 * 1024), by rw [hsize, Nat.div_mul_cancel (Nat.dvd_of_mod_eq_zero hmb)]⟩
  last other hother := by
    rw [List.getLast?_concat] at hother
    obtain rfl := Option.some.inj hother
    exact hsize

/-- At a comma the name read so far is taken, unless it is empty. -/
theorem listFiles_comma {rest fname : List Char} {lunfiles : List FileName} {st_size : Nat}
    {m m' : Machine Choice Space} {result : List FileName × Nat} (hbefore : Accepted m.state.world lunfiles st_size)
    (h : (listFiles (',' :: rest) fname lunfiles st_size).exec libc m = .ok (result, m')) :
    ∃ size m₁, m₁.state = m.state ∧ Accepted m.state.world (lunfiles ++ [fname].filter (· ≠ [])) size ∧
      (listFiles rest [] (lunfiles ++ [fname].filter (· ≠ [])) size).exec libc m₁ = .ok (result, m') := by
  unfold listFiles at h
  rw [if_neg (by simp)] at h
  by_cases hempty : fname = []
  · rw [if_pos hempty] at h
    refine ⟨st_size, m, rfl, ?_, ?_⟩
    · simpa [hempty] using hbefore
    · simpa [hempty] using h
  · rw [if_neg hempty, Prog.exec_bind, exec_stat] at h
    have hfilter : [fname].filter (· ≠ []) = [fname] := by simp [hempty]
    rw [hfilter]
    cases hsize : m.state.world.size? fname with
    | none => simp [hsize, Prog.exec] at h
    | some size =>
      simp only [hsize] at h
      by_cases hmb : size % (1024 * 1024) = 0
      · rw [if_neg (not_not.mpr hmb)] at h
        by_cases hold : fname ∈ lunfiles
        · simp [hold, Prog.exec] at h
        · rw [if_neg hold] at h
          by_cases hroom : 256 ≤ lunfiles.length
          · simp [hroom, Prog.exec] at h
          · rw [if_neg hroom] at h
            exact ⟨size, next m m.state, rfl, hbefore.snoc hsize hmb hold (not_le.mp hroom), h⟩
      · simp [hmb, Prog.exec] at h

/-- What is accepted is the list, and nothing has changed. -/
theorem listFiles_exec (filenames fname : List Char) (lunfiles : List FileName) (st_size : Nat)
    {m m' : Machine Choice Space} {result : List FileName × Nat} (hbefore : Accepted m.state.world lunfiles st_size)
    (h : (listFiles (filenames ++ [',']) fname lunfiles st_size).exec libc m = .ok (result, m')) :
    m'.state = m.state ∧ Accepted m.state.world result.1 result.2 ∧
      result.1 = lunfiles ++ ((filenames.splitOn ',').modifyHead (fname ++ ·)).filter (· ≠ []) := by
  induction filenames generalizing fname lunfiles st_size m with
  | nil =>
    obtain ⟨size, m₁, hstate, haccepted, hrest⟩ := listFiles_comma hbefore h
    cases hrest
    exact ⟨hstate, haccepted, by simp⟩
  | cons c filenames ih =>
    by_cases hcomma : c = ','
    · subst hcomma
      obtain ⟨size, m₁, hstate, haccepted, hrest⟩ := listFiles_comma hbefore h
      rw [← hstate] at haccepted ⊢
      obtain ⟨hsame, haccepted', hresult⟩ := ih [] _ size haccepted hrest
      refine ⟨hsame, haccepted', ?_⟩
      obtain ⟨head, tail, hsplit⟩ := List.exists_cons_of_ne_nil (List.splitOn_ne_nil ',' filenames)
      rw [hresult, List.splitOn_cons_eq_if_modifyHead, hsplit]
      by_cases hempty : fname = [] <;> simp [hempty]
    · rw [List.cons_append] at h
      unfold listFiles at h
      rw [if_pos hcomma] at h
      by_cases hlong : 63 ≤ fname.length
      · simp [hlong, Prog.exec] at h
      · rw [if_neg hlong] at h
        obtain ⟨hsame, haccepted', hresult⟩ := ih _ _ _ hbefore h
        refine ⟨hsame, haccepted', ?_⟩
        obtain ⟨head, tail, hsplit⟩ := List.exists_cons_of_ne_nil (List.splitOn_ne_nil ',' filenames)
        rw [hresult, List.splitOn_cons_eq_if_modifyHead, hsplit]
        simp [hcomma]

end vscsi.main
