import Vscsi.Lib.CString
import Vscsi.Target.Images

open lib lib.Code

namespace vscsi.main

open scsi_target

/-- What is in the variables of `configure_scsi_target` before they are set. -/
structure Uninitialized where
  fname : Vector Char 64
  lunfiles : Vector (Vector Char 64) 256
  st_size : Nat

/-! The loops with the arrays they work on. An access past the end of one is a crash. -/

namespace arrays

/-- The variables of the loop over the list of files. -/
structure Tables where
  filenames : List Char
  fname : List Char
  lunfiles : List (List Char)
  st_size : Nat
  j : Nat
  lun : Nat

def access {α : Type} : Option α → Code α
  | some a => return a
  | none => .fail .crash

/-- The loop over the names before. -/
def compare (lunfiles : List (List Char)) (fname : List Char) (k : Nat) : (left : Nat) → Code Unit
  | 0 => return ()
  | left + 1 => do
    let row ← access lunfiles[k]?
    let difference ← access (strcmp row fname)
    if difference = 0 then .fail (.exit 1) else compare lunfiles fname (k + 1) left

/-- What the loop does at a comma. -/
def comma (t : Tables) : Code Tables := do
  let fname ← access (put t.fname t.j terminator)
  let length ← access (strlen fname)
  if length = 0 then return { t with fname, j := 0 }
  else
    let name ← access (string fname)
    let size ← stat name
    match size with
    | none => .fail (.exit 1)
    | some st_size =>
      if st_size % (1024 * 1024) ≠ 0 then .fail (.exit 1)
      else
        compare t.lunfiles fname 0 t.lun
        let row ← access t.lunfiles[t.lun]?
        let row ← access (strcpy row fname)
        return { t with fname, lunfiles := t.lunfiles.set t.lun row, st_size, j := 0, lun := t.lun + 1 }

/-- One round of the loop over the characters, the last of which takes the
terminator for a comma. -/
def character (len i : Nat) (t : Tables) : Code Tables := do
  let filenames ← access (if i = len then put t.filenames i ',' else some t.filenames)
  let c ← access filenames[i]?
  if c ≠ ',' then
    if 63 ≤ t.j then .fail (.exit 1)
    else
      let fname ← access (put t.fname t.j c)
      return { t with filenames, fname, j := t.j + 1 }
  else comma { t with filenames }

def characters (len i : Nat) (t : Tables) : (left : Nat) → Code Tables
  | 0 => return t
  | left + 1 => do
    let t ← character len i t
    characters len (i + 1) t left

def addLuns (t : TargetData) (lunsizeinmb : Int) (lunfiles : List (List Char)) (i : Nat) : (left : Nat) → Code TargetData
  | 0 => return t
  | left + 1 => do
    let row ← access lunfiles[i]?
    let lunfile ← access (string row)
    let t ← add_lun t i lunfile .hd lunsizeinmb
    addLuns t lunsizeinmb lunfiles (i + 1) left

def configure_scsi_target (u : Uninitialized) (argv : List (List Char)) : Code TargetData :=
  match options argv with
  | .error e => .fail e
  | .ok o => do
    let t := add_target "virtual20mhd".toList TARGET_TYPE_EMULATION
    let filenames ← access (o.filenames.map fun filenames => filenames ++ [terminator])
    let len ← access (strlen filenames)
    let tables ← characters len 0
      { filenames, fname := u.fname.toList, lunfiles := (u.lunfiles.map (·.toList)).toList
        st_size := u.st_size, j := 0, lun := 0 } (len + 1)
    addLuns t (int32 (tables.st_size / (1024 * 1024) : Nat)) tables.lunfiles 0 tables.lun

/-- The arrays hold the name that is being read and the names before it. -/
structure Tables.Represents (t : Tables) (fname : List Char) (lunfiles : List FileName) (st_size : Nat) : Prop where
  reading : ∃ rest, t.fname = fname ++ rest ∧ t.fname.length = 64
  unterminated : terminator ∉ fname
  j : t.j = fname.length
  short : fname.length ≤ 63
  rows : t.lunfiles.length = 256
  row : ∀ row ∈ t.lunfiles, row.length = 64
  names : ∀ (k : Nat) (name : FileName), lunfiles[k]? = some name → ∃ row, t.lunfiles[k]? = some row ∧ Holds row name
  lun : t.lun = lunfiles.length
  st_size : lunfiles ≠ [] → t.st_size = st_size

variable {t : Tables} {fname : List Char} {lunfiles : List FileName} {st_size : Nat} {c : Char} {β : Type}

@[simp] theorem access_some {α : Type} (a : α) : access (some a) = .ret a := rfl

/-- A character of a name goes to its place. -/
theorem Tables.Represents.put (h : t.Represents fname lunfiles st_size) (hc : c ≠ terminator) (hroom : ¬ 63 ≤ fname.length)
    (filenames : List Char) : ∃ array, put t.fname t.j c = some array ∧
      Tables.Represents { t with filenames, fname := array, j := t.j + 1 } (fname ++ [c]) lunfiles st_size := by
  obtain ⟨rest, hfname, hlength⟩ := h.reading
  rw [hfname, List.length_append] at hlength
  obtain ⟨old, rest, rfl⟩ := List.exists_cons_of_length_pos (l := rest) (by omega)
  refine ⟨_, by rw [hfname, h.j, put_append], ⟨rest, rfl, ?_⟩, ?_, ?_, ?_, h.rows, h.row, h.names, h.lun, h.st_size⟩
  · simp only [List.length_append, List.length_cons, List.length_nil] at hlength ⊢
    omega
  · simp [h.unterminated, hc.symm]
  · simp [h.j]
  · simp only [List.length_append, List.length_cons, List.length_nil]
    omega

/-- At its end it is terminated. -/
theorem Tables.Represents.terminate (h : t.Represents fname lunfiles st_size) :
    ∃ array, lib.put t.fname t.j terminator = some array ∧ Holds array fname ∧ array.length = 64 := by
  obtain ⟨rest, hfname, hlength⟩ := h.reading
  have hsum := hlength
  rw [hfname, List.length_append] at hsum
  have hshort := h.short
  obtain ⟨old, rest, rfl⟩ := List.exists_cons_of_length_pos (l := rest) (by omega)
  obtain ⟨array, hput, hholds, harray⟩ := put_holds h.unterminated old rest
  exact ⟨array, by rw [hfname, h.j, hput], hholds, by rw [harray, ← hfname, hlength]⟩

theorem compare_eq {rows : List (List Char)} {array : List Char}
    (hrows : ∀ (k : Nat) (name : FileName), lunfiles[k]? = some name → ∃ row, rows[k]? = some row ∧ Holds row name)
    (harray : Holds array fname) {k left : Nat} (hleft : k + left = lunfiles.length) :
    compare rows array k left = if fname ∈ lunfiles.drop k then .fail (.exit 1) else .ret () := by
  induction left generalizing k with
  | zero =>
    rw [List.drop_eq_nil_of_le (by omega)]
    rfl
  | succ left ih =>
    have hk : k < lunfiles.length := by omega
    obtain ⟨row, hrow, hholds⟩ := hrows k _ (List.getElem?_eq_getElem hk)
    obtain ⟨difference, hcompared, hzero⟩ := strcmp_holds hholds harray
    rw [compare, hrow, access_some, Prog.ret_bind, hcompared, access_some, Prog.ret_bind, List.drop_eq_getElem_cons hk,
      ih (by omega)]
    by_cases heq : lunfiles[k] = fname
    · rw [if_pos (hzero.mpr heq), if_pos (by simp [heq])]
    · rw [if_neg (mt hzero.mp heq)]
      simp only [List.mem_cons, Ne.symm heq, false_or]

/-- A name goes to the row behind the others. -/
theorem Tables.Represents.keep (h : t.Represents fname lunfiles st_size) {array : List Char} (harray : Holds array fname)
    (hlength : array.length = 64) (hroom : lunfiles.length < 256) (size : Nat) :
    ∃ row row', t.lunfiles[t.lun]? = some row ∧ strcpy row array = some row' ∧
      Tables.Represents
        { t with fname := array, lunfiles := t.lunfiles.set t.lun row', st_size := size, j := 0, lun := t.lun + 1 }
        [] (lunfiles ++ [fname]) size := by
  have hlun : t.lun < t.lunfiles.length := by rw [h.lun, h.rows]; exact hroom
  have hrow := h.row _ (List.getElem_mem hlun)
  have hfits : fname.length < t.lunfiles[t.lun].length := by
    rw [hrow]
    exact Nat.lt_succ_of_le h.short
  obtain ⟨row', hcopied, hholds, hrow'⟩ := strcpy_holds harray hfits
  refine ⟨_, row', List.getElem?_eq_getElem hlun, hcopied, ⟨array, rfl, hlength⟩, List.not_mem_nil, rfl, Nat.zero_le _, ?_, ?_,
    fun k name hname => ?_, ?_, fun _ => rfl⟩
  · rw [List.length_set, h.rows]
  · intro row hmem
    rcases List.mem_or_eq_of_mem_set hmem with hold | rfl
    · exact h.row row hold
    · rw [hrow', hrow]
  · by_cases hk : k < lunfiles.length
    · rw [List.getElem?_append_left hk] at hname
      obtain ⟨row, hold, hrow⟩ := h.names k name hname
      exact ⟨row, by rw [List.getElem?_set_ne (by rw [h.lun]; omega), hold], hrow⟩
    · rw [List.getElem?_append_right (by omega)] at hname
      obtain ⟨hindex, rfl⟩ : k - lunfiles.length = 0 ∧ fname = name := by
        simpa [List.getElem?_singleton] using hname
      exact ⟨row', by rw [show k = t.lun by rw [h.lun]; omega, List.getElem?_set_self hlun], hholds⟩
  · rw [List.length_append, h.lun]
    rfl

/-- At a comma the arrays do what the lists do. -/
theorem comma_bind (h : t.Represents fname lunfiles st_size) {rest : List Char} {next : Tables → Code β}
    {next' : List FileName × Nat → Code β}
    (hnext : ∀ t' names size, t'.filenames = t.filenames → t'.Represents [] names size →
      next t' = listFiles rest [] names size >>= next') :
    comma t >>= next = listFiles (',' :: rest) fname lunfiles st_size >>= next' := by
  obtain ⟨array, hput, harray, hlength⟩ := h.terminate
  rw [comma, hput, access_some, Prog.ret_bind, strlen_holds harray, access_some, Prog.ret_bind, listFiles,
    if_neg (not_not.mpr rfl)]
  by_cases hempty : fname = []
  · rw [if_pos (by rw [hempty, List.length_nil]), if_pos hempty]
    refine hnext _ lunfiles st_size rfl ⟨⟨array, rfl, hlength⟩, List.not_mem_nil, rfl, Nat.zero_le _, h.rows, h.row, h.names,
      h.lun, h.st_size⟩
  · rw [if_neg (mt List.length_eq_zero_iff.mp hempty), if_neg hempty, string_holds harray, access_some, Prog.ret_bind]
    refine congrArg (Prog.call (Call.stat fname)) (funext fun size => ?_)
    cases size with
    | none => rfl
    | some size =>
      change (if size % (1024 * 1024) ≠ 0 then _ else _) >>= next = (if size % (1024 * 1024) ≠ 0 then _ else _) >>= next'
      by_cases hmb : size % (1024 * 1024) ≠ 0
      · rw [if_pos hmb, if_pos hmb]
        rfl
      rw [if_neg hmb, if_neg hmb, compare_eq h.names harray (by rw [h.lun, Nat.zero_add]), List.drop_zero]
      by_cases hold : fname ∈ lunfiles
      · rw [if_pos hold, if_pos hold]
        rfl
      rw [if_neg hold, if_neg hold, Prog.ret_bind]
      by_cases hroom : 256 ≤ lunfiles.length
      · rw [if_pos hroom, List.getElem?_eq_none (by rw [h.rows, h.lun]; exact hroom)]
        rfl
      obtain ⟨row, row', hrow, hcopied, hkeep⟩ := h.keep harray hlength (not_le.mp hroom) size
      rw [if_neg hroom, hrow, access_some, Prog.ret_bind, hcopied, access_some, Prog.ret_bind]
      exact hnext _ _ size rfl hkeep

theorem Tables.Represents.of_filenames (h : t.Represents fname lunfiles st_size) (filenames : List Char) :
    Tables.Represents { t with filenames } fname lunfiles st_size :=
  ⟨h.reading, h.unterminated, h.j, h.short, h.rows, h.row, h.names, h.lun, h.st_size⟩

/-- A round finds its character in its place. -/
theorem character_eq {done rest filenames : List Char} {len : Nat}
    (hread : (if done.length = len then put t.filenames done.length ',' else some t.filenames) = some filenames)
    (hfilenames : filenames = done ++ c :: rest) : character len done.length t =
      if c ≠ ',' then
        if 63 ≤ t.j then .fail (.exit 1)
        else access (put t.fname t.j c) >>= fun fname => .ret { t with filenames, fname, j := t.j + 1 }
      else comma { t with filenames } := by
  rw [character, hread, access_some, Prog.ret_bind, hfilenames, List.getElem?_append_right (Nat.le_refl _), Nat.sub_self]
  rfl

/-- So they do over all characters. -/
theorem characters_bind {done rest : List Char} {len : Nat} (hlen : len = done.length + rest.length)
    (hrest : terminator ∉ rest) (h : t.Represents fname lunfiles st_size)
    (hfilenames : t.filenames = done ++ rest ++ [terminator]) {next : Tables → Code β}
    {next' : List FileName × Nat → Code β}
    (hnext : ∀ t' names size, t'.Represents [] names size → next t' = next' (names, size)) :
    characters len done.length t (rest.length + 1) >>= next =
      listFiles (rest ++ [',']) fname lunfiles st_size >>= next' := by
  induction rest generalizing done fname lunfiles st_size t with
  | nil =>
    -- the comma in the place of the terminator
    rw [List.length_nil, Nat.add_zero] at hlen
    have hread : (if done.length = len then put t.filenames done.length ',' else some t.filenames) =
        some (done ++ [',']) := by
      rw [if_pos hlen.symm, hfilenames, List.append_nil, put_append, List.append_nil]
    rw [List.length_nil, characters, character_eq hread rfl, if_neg (not_not.mpr rfl), Prog.bind_assoc, List.nil_append]
    refine comma_bind (h.of_filenames _) ?_
    intro t' names size _ hafter
    exact hnext t' names size hafter
  | cons c rest ih =>
    rw [List.length_cons] at hlen
    rw [List.mem_cons, not_or] at hrest
    obtain ⟨hc, hrest⟩ := hrest
    have hread : (if done.length = len then put t.filenames done.length ',' else some t.filenames) =
        some (done ++ c :: (rest ++ [terminator])) := by
      rw [if_neg (by omega), hfilenames, List.append_assoc, List.cons_append]
    have hnext' : ∀ t' name names size, t'.Represents name names size →
        t'.filenames = done ++ c :: (rest ++ [terminator]) →
        characters len (done.length + 1) t' (rest.length + 1) >>= next =
          listFiles (rest ++ [',']) name names size >>= next' := by
      intro t' name names size hafter hkept
      have hlen' : len = (done ++ [c]).length + rest.length := by
        rw [List.length_append, List.length_singleton]
        omega
      have hdone := ih hlen' hrest hafter (by simp [hkept])
      rwa [List.length_append] at hdone
    rw [List.length_cons, characters, character_eq hread rfl, Prog.bind_assoc, List.cons_append]
    by_cases hcomma : c = ','
    · subst hcomma
      rw [if_neg (not_not.mpr rfl)]
      refine comma_bind (h.of_filenames _) ?_
      intro t' names size hkept hafter
      exact hnext' t' [] names size hafter hkept
    · rw [if_pos hcomma, listFiles, if_pos hcomma, h.j]
      by_cases hlong : 63 ≤ fname.length
      · rw [if_pos hlong, if_pos hlong]
        rfl
      · obtain ⟨array, hput, hafter⟩ := h.put (Ne.symm hc) hlong (done ++ c :: (rest ++ [terminator]))
        rw [if_neg hlong, if_neg hlong, ← h.j, hput, access_some, Prog.ret_bind, Prog.ret_bind]
        exact hnext' _ _ _ _ hafter rfl

theorem addLuns_eq {rows : List (List Char)} {td : TargetData} {lunsizeinmb : Int}
    (hrows : ∀ (k : Nat) (name : FileName), lunfiles[k]? = some name → ∃ row, rows[k]? = some row ∧ Holds row name)
    {i left : Nat} (hleft : i + left = lunfiles.length) :
    addLuns td lunsizeinmb rows i left = main.addLuns td lunsizeinmb i (lunfiles.drop i) := by
  induction left generalizing td i with
  | zero =>
    rw [List.drop_eq_nil_of_le (by omega)]
    rfl
  | succ left ih =>
    have hi : i < lunfiles.length := by omega
    obtain ⟨row, hrow, hholds⟩ := hrows i _ (List.getElem?_eq_getElem hi)
    rw [addLuns, hrow, access_some, Prog.ret_bind, string_holds hholds, access_some, Prog.ret_bind,
      List.drop_eq_getElem_cons hi, main.addLuns]
    refine congrArg (add_lun td i lunfiles[i] .hd lunsizeinmb >>= ·) (funext fun td => ?_)
    exact ih (by omega)

theorem Tables.Represents.initial (u : Uninitialized) (filenames : List Char) (size : Nat) :
    Tables.Represents
      { filenames, fname := u.fname.toList, lunfiles := (u.lunfiles.map (·.toList)).toList, st_size := u.st_size
        j := 0, lun := 0 } [] [] size where
  reading := ⟨_, rfl, u.fname.length_toList⟩
  unterminated := List.not_mem_nil
  j := rfl
  short := Nat.zero_le _
  rows := Vector.length_toList
  row row hrow := by
    obtain ⟨v, -, rfl⟩ : ∃ v ∈ u.lunfiles, v.toList = row := by simpa using hrow
    exact v.length_toList
  names := nofun
  lun := rfl
  st_size h := absurd rfl h

/-- With the arrays it does the same as with lists, whatever was in the arrays. -/
theorem configure_eq (u : Uninitialized) {argv : List (List Char)}
    (hstring : ∀ o filenames, options argv = .ok o → o.filenames = some filenames → terminator ∉ filenames) :
    configure_scsi_target u argv = main.configure_scsi_target argv := by
  unfold configure_scsi_target main.configure_scsi_target
  cases hoptions : options argv with
  | error e => rfl
  | ok o =>
    dsimp only
    cases hfilenames : o.filenames with
    | none => rfl
    | some filenames =>
      have hunterminated := hstring o filenames hoptions hfilenames
      have hholds : Holds (filenames ++ [terminator]) filenames := ⟨hunterminated, [], rfl⟩
      rw [Option.map_some, access_some, Prog.ret_bind, strlen_holds hholds, access_some, Prog.ret_bind]
      have hlen : filenames.length = ([] : List Char).length + filenames.length := (Nat.zero_add _).symm
      refine characters_bind hlen hunterminated (Tables.Represents.initial u _ 0) rfl ?_
      intro tables names size h
      dsimp only
      rw [addLuns_eq h.names (by rw [h.lun, Nat.zero_add]), List.drop_zero]
      cases names with
      | nil => simp only [main.addLuns]
      | cons name names => rw [h.st_size (List.cons_ne_nil _ _)]

end arrays

end vscsi.main
