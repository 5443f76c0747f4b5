import Vscsi.Target.FileList

open lib lib.Code

namespace vscsi.main

open scsi_target

/-- The loop over the list of files, a name at a time. -/
def listNames : (names lunfiles : List FileName) → (st_size : Nat) → Code (List FileName × Nat)
  | [], lunfiles, st_size => return (lunfiles, st_size)
  | name :: names, lunfiles, _ =>
    if 63 < name.length then .fail (.exit 1)
    else do
      let size ← stat name
      match size with
      | none => .fail (.exit 1)
      | some st_size =>
        if st_size % (1024 * 1024) ≠ 0 then .fail (.exit 1)
        else if name ∈ lunfiles then .fail (.exit 1)
        else if 256 ≤ lunfiles.length then .fail .crash
        else listNames names (lunfiles ++ [name]) st_size

/-- Names that LUNs can have: short ones, no two equal, of files of whole MiB. -/
structure Fine (w : World) (names : List FileName) : Prop where
  nodup : names.Nodup
  named : ∀ name ∈ names, name.length ≤ 63 ∧ ∃ mb, w.size? name = some (mb * (1024 * 1024))

/-- A name is too long, or that of no file or of one of the wrong size, or there
are equal names or too many. -/
def HasFault (w : World) (names : List FileName) : Prop :=
  (∃ name ∈ names, 63 < name.length ∨ w.size? name = none ∨
    ∃ size, w.size? name = some size ∧ size % (1024 * 1024) ≠ 0) ∨ ¬ names.Nodup ∨ 256 < names.length

/-- There are more names than the table has room for, and no fault before. -/
def Overflows (w : World) (names : List FileName) : Prop :=
  ∃ before rest, names = before ++ rest ∧ before.length = 257 ∧ Fine w before

variable {w : World} {name : FileName} {names lunfiles : List FileName} {st_size : Nat} {m m' : Machine Choice Space}
  {filenames fname : List Char}

theorem listFiles_comma_eq {rest : List Char} (hshort : fname.length ≤ 63)
    (hrest : ∀ lunfiles st_size, listFiles rest [] lunfiles st_size = listNames names lunfiles st_size)
    (lunfiles : List FileName) (st_size : Nat) :
    listFiles (',' :: rest) fname lunfiles st_size =
      listNames ([fname].filter (· ≠ []) ++ names) lunfiles st_size := by
  rw [listFiles, if_neg (not_not.mpr rfl)]
  by_cases hempty : fname = []
  · rw [if_pos hempty, hrest]
    simp [hempty]
  · have hfilter : [fname].filter (· ≠ []) = [fname] := by simp [hempty]
    rw [if_neg hempty, hfilter, List.singleton_append, listNames, if_neg (by omega)]
    refine congrArg (stat fname >>= ·) (funext fun size => ?_)
    cases size with
    | none => rfl
    | some size => simp only [hrest]

/-- Characters make names; empty ones do not count. -/
theorem listFiles_eq (hshort : fname.length ≤ 63) (filenames : List Char) (lunfiles : List FileName) (st_size : Nat) :
    listFiles (filenames ++ [',']) fname lunfiles st_size =
      listNames (((filenames.splitOn ',').modifyHead (fname ++ ·)).filter (· ≠ [])) lunfiles st_size := by
  induction filenames generalizing fname lunfiles st_size with
  | nil =>
    have hend : ∀ lunfiles st_size, listFiles [] [] lunfiles st_size = listNames [] lunfiles st_size := by
      intro lunfiles st_size
      rw [listFiles, listNames]
    have hnames := listFiles_comma_eq hshort hend lunfiles st_size
    simpa using hnames
  | cons c filenames ih =>
    obtain ⟨head, tail, hsplit⟩ := List.exists_cons_of_ne_nil (List.splitOn_ne_nil ',' filenames)
    rw [List.cons_append, List.splitOn_cons_eq_if_modifyHead, hsplit]
    rw [hsplit] at ih
    by_cases hc : c = ','
    · subst hc
      have hrest : ∀ lunfiles st_size, listFiles (filenames ++ [',']) [] lunfiles st_size =
          listNames ((head :: tail).filter (· ≠ [])) lunfiles st_size := by
        intro lunfiles st_size
        rw [ih (show ([] : List Char).length ≤ 63 from Nat.zero_le 63), List.modifyHead_cons, List.nil_append]
      rw [listFiles_comma_eq hshort hrest, if_pos (beq_self_eq_true ','), List.modifyHead_cons, List.append_nil,
        ← List.filter_append, List.singleton_append]
    · rw [if_neg (by simp [hc]), List.modifyHead_cons, List.modifyHead_cons, listFiles, if_pos hc]
      by_cases hlong : 63 ≤ fname.length
      · rw [if_pos hlong, List.filter_cons_of_pos (by simp), listNames,
          if_pos (by rw [List.length_append, List.length_cons]; omega)]
      · rw [if_neg hlong, ih (by rw [List.length_append, List.length_singleton]; omega), List.modifyHead_cons,
          List.append_assoc, List.singleton_append]

theorem hasFault_iff (w : World) (names : List FileName) : HasFault w names ↔ ¬ (Fine w names ∧ names.length ≤ 256) := by
  rw [← not_iff_not, not_not]
  unfold HasFault
  push Not
  constructor
  · rintro ⟨hnames, hnodup, hcount⟩
    refine ⟨⟨hnodup, fun name hname => ?_⟩, hcount⟩
    obtain ⟨hshort, hexists, hsized⟩ := hnames name hname
    obtain ⟨size, hsize⟩ := Option.ne_none_iff_exists'.mp hexists
    exact ⟨hshort, size / (1024 * 1024), by
      rw [hsize, Nat.div_mul_cancel (Nat.dvd_of_mod_eq_zero (hsized size hsize))]⟩
  · rintro ⟨hfine, hcount⟩
    refine ⟨fun name hname => ?_, hfine.nodup, hcount⟩
    obtain ⟨hshort, mb, hmb⟩ := hfine.named name hname
    refine ⟨hshort, by simp [hmb], fun size hsize => ?_⟩
    rw [hmb] at hsize
    rw [← Option.some.inj hsize, Nat.mul_mod_left]

theorem Fine.nil (w : World) : Fine w [] := ⟨.nil, nofun⟩

theorem Fine.of_append {names' : List FileName} (h : Fine w (names ++ names')) : Fine w names :=
  ⟨(List.nodup_append.mp h.nodup).1, fun name hname => h.named name (List.mem_append_left _ hname)⟩

theorem Fine.snoc_iff (h : Fine w lunfiles) : Fine w (lunfiles ++ [name]) ↔
    name.length ≤ 63 ∧ (∃ mb, w.size? name = some (mb * (1024 * 1024))) ∧ name ∉ lunfiles := by
  constructor
  · intro hsnoc
    obtain ⟨hshort, hsized⟩ := hsnoc.named name (List.mem_append_right _ (List.mem_singleton_self name))
    refine ⟨hshort, hsized, fun hold => ?_⟩
    exact (List.nodup_append.mp hsnoc.nodup).2.2 name hold name (List.mem_singleton_self name) rfl
  · rintro ⟨hshort, hsized, hnew⟩
    refine ⟨?_, fun other hother => ?_⟩
    · rw [← List.concat_eq_append]
      exact List.Nodup.concat hnew h.nodup
    · rcases List.mem_append.mp hother with hold | hlast
      · exact h.named other hold
      · obtain rfl := List.mem_singleton.mp hlast
        exact ⟨hshort, hsized⟩

/-- Of a name that does not go with those before it the loop makes an exit, of
another one too many a store past the table. -/
theorem listNames_cons_exec (hbefore : Fine m.state.world lunfiles) (name : FileName) (names : List FileName)
    (st_size : Nat) :
    (¬ Fine m.state.world (lunfiles ++ [name]) →
      (listNames (name :: names) lunfiles st_size).exec libc m = .error (.exit 1)) ∧
    (Fine m.state.world (lunfiles ++ [name]) → ∃ size, (listNames (name :: names) lunfiles st_size).exec libc m =
      if 256 ≤ lunfiles.length then .error .crash
      else (listNames names (lunfiles ++ [name]) size).exec libc (next m m.state)) := by
  rw [hbefore.snoc_iff, listNames]
  by_cases hshort : name.length ≤ 63
  swap
  · rw [if_pos (not_le.mp hshort)]
    exact ⟨fun _ => rfl, fun h => absurd h.1 hshort⟩
  rw [if_neg (not_lt.mpr hshort), Prog.exec_bind, exec_stat]
  cases hsize : m.state.world.size? name with
  | none => exact ⟨fun _ => rfl, fun h => by obtain ⟨-, ⟨mb, ⟨⟩⟩, -⟩ := h⟩
  | some size =>
    dsimp only
    by_cases hmb : size % (1024 * 1024) = 0
    swap
    · rw [if_pos hmb]
      refine ⟨fun _ => rfl, fun h => ?_⟩
      obtain ⟨-, ⟨mb, hsized⟩, -⟩ := h
      rw [Option.some.inj hsized, Nat.mul_mod_left] at hmb
      exact absurd rfl hmb
    have hsized : ∃ mb, some size = some (mb * (1024 * 1024)) :=
      ⟨size / (1024 * 1024), by rw [Nat.div_mul_cancel (Nat.dvd_of_mod_eq_zero hmb)]⟩
    rw [if_neg (not_not.mpr hmb)]
    by_cases hold : name ∈ lunfiles
    · rw [if_pos hold]
      exact ⟨fun _ => rfl, fun h => absurd hold h.2.2⟩
    · rw [if_neg hold]
      refine ⟨fun h => absurd ⟨hshort, hsized, hold⟩ h, fun _ => ⟨size, ?_⟩⟩
      split
      · rfl
      · rfl

/-- What becomes of a list, with some names read before it. -/
structure Outcome (m : Machine Choice Space) (names lunfiles : List FileName) (st_size : Nat) : Prop where
  accepted : Fine m.state.world (lunfiles ++ names) → (lunfiles ++ names).length ≤ 256 → ∃ size,
    (listNames names lunfiles st_size).exec libc m =
      .ok ((lunfiles ++ names, size), { state := m.state, choices := fun n => m.choices (n + names.length) })
  crashes : ∀ before rest, names = before ++ rest → (lunfiles ++ before).length = 257 →
    Fine m.state.world (lunfiles ++ before) → (listNames names lunfiles st_size).exec libc m = .error .crash
  exits : ¬ (Fine m.state.world (lunfiles ++ names) ∧ (lunfiles ++ names).length ≤ 256) →
    (∀ before rest, names = before ++ rest → (lunfiles ++ before).length = 257 →
      ¬ Fine m.state.world (lunfiles ++ before)) → (listNames names lunfiles st_size).exec libc m = .error (.exit 1)

theorem outcome (hbefore : Fine m.state.world lunfiles) (hroom : lunfiles.length ≤ 256) (names : List FileName)
    (st_size : Nat) : Outcome m names lunfiles st_size := by
  induction names generalizing lunfiles st_size m with
  | nil =>
    refine ⟨fun _ _ => ⟨st_size, by rw [List.append_nil]; rfl⟩, fun before rest hnames hlen => ?_, fun hnot => ?_⟩
    · obtain ⟨rfl, -⟩ := List.append_eq_nil_iff.mp hnames.symm
      rw [List.append_nil] at hlen
      omega
    · rw [List.append_nil] at hnot
      exact absurd ⟨hbefore, hroom⟩ hnot
  | cons name names ih =>
    obtain ⟨hrefused, htaken⟩ := listNames_cons_exec hbefore name names st_size
    have hassoc : ∀ names, lunfiles ++ name :: names = lunfiles ++ [name] ++ names := by simp
    have hsplit : ∀ before rest, name :: names = before ++ rest → (lunfiles ++ before).length = 257 →
        ∃ before', before = name :: before' ∧ names = before' ++ rest := by
      intro before rest hnames hlen
      cases before with
      | nil =>
        rw [List.append_nil] at hlen
        omega
      | cons other before =>
        obtain ⟨rfl, hrest⟩ := List.cons.inj hnames
        exact ⟨before, rfl, hrest⟩
    by_cases hfine : Fine m.state.world (lunfiles ++ [name])
    swap
    · refine ⟨fun hall => ?_, fun before rest hnames hlen hall => ?_, fun _ _ => hrefused hfine⟩
      · rw [hassoc] at hall
        exact absurd hall.of_append hfine
      · obtain ⟨before, rfl, -⟩ := hsplit before rest hnames hlen
        rw [hassoc] at hall
        exact absurd hall.of_append hfine
    obtain ⟨size, hexec⟩ := htaken hfine
    by_cases hfull : 256 ≤ lunfiles.length
    · rw [if_pos hfull] at hexec
      refine ⟨fun _ hlen => ?_, fun _ _ _ _ _ => hexec, fun _ hnone => ?_⟩
      · rw [List.length_append, List.length_cons] at hlen
        omega
      · refine absurd hfine (hnone [name] names rfl ?_)
        rw [List.length_append, List.length_singleton]
        omega
    · rw [if_neg hfull] at hexec
      have hrest : Outcome (next m m.state) names (lunfiles ++ [name]) size := by
        refine ih (m := next m m.state) hfine ?_ size
        rw [List.length_append, List.length_singleton]
        omega
      refine ⟨fun hall hlen => ?_, fun before rest hnames hlen hall => ?_, fun hnot hnone => ?_⟩
      · rw [hassoc] at hall hlen
        obtain ⟨size, hok⟩ := hrest.accepted hall hlen
        refine ⟨size, ?_⟩
        rw [hexec, hok, hassoc names]
        rfl
      · obtain ⟨before, rfl, hnames'⟩ := hsplit before rest hnames hlen
        rw [hassoc] at hlen hall
        rw [hexec, hrest.crashes before rest hnames' hlen hall]
      · rw [hexec]
        refine hrest.exits ?_ fun before rest hnames hlen hall => ?_
        · rwa [hassoc] at hnot
        · refine hnone (name :: before) rest (by rw [hnames, List.cons_append]) ?_ ?_
          · rwa [hassoc]
          · rwa [hassoc]

/-- Of the two attempts to open each of so many files one succeeds. The choices
are those of the clock, the attempts and, if one has succeeded, the change of size. -/
def OneOpens : (count : Nat) → (choices : Nat → Choice) → Prop
  | 0, _ => True
  | count + 1, choices =>
    if (choices 1).opens then OneOpens count fun n => choices (n + 3)
    else (choices 2).opens = true ∧ OneOpens count fun n => choices (n + 4)

/-- What is told of a LUN: its number and its file. -/
def numbered (ld : LunData) : UInt8 × FileName := (ld.lun, ld.filename)

/-- A list of names with the numbers from one on. -/
def numbers (i : Nat) (names : List FileName) : List (UInt8 × FileName) :=
  (names.zipIdx i).map fun (name, k) => (UInt8.ofNat k, name)

theorem fopen_directory {mode : Mode} {choice : Choice} {inode : Nat} (hname : w.fs.directory name = some inode) :
    (w.fopen name mode choice).1.isSome = choice.opens ∧ (w.fopen name mode choice).2.fs.directory = w.fs.directory := by
  unfold World.fopen
  cases hopens : choice.opens with
  | false => exact ⟨rfl, rfl⟩
  | true =>
    rw [if_pos rfl, hname]
    cases mode <;> exact ⟨rfl, rfl⟩

theorem truncate_directory (w : World) (name : FileName) (size : Int) :
    (w.truncate name size).fs.directory = w.fs.directory := by
  unfold World.truncate
  split
  · rfl
  · split <;> rfl

/-- A LUN is made if one of the attempts to open its file succeeds. -/
theorem add_lun_made {t : TargetData} {inode : Nat} (i : Nat) (size : Int)
    (hname : m.state.world.fs.directory name = some inode) :
    ∃ td m', (add_lun t i name .hd size).exec libc m = .ok (td, m') ∧
      m'.state.world.fs.directory = m.state.world.fs.directory ∧
      if (m.choices 1).opens = true ∨ (m.choices 2).opens = true then
        (∃ ld, td.luns = ld :: t.luns ∧ numbered ld = (UInt8.ofNat i, name)) ∧
          m'.choices = fun n => m.choices (n + if (m.choices 1).opens = true then 3 else 4)
      else td = t := by
  have hmade : ∀ fh, numbered (newLun (UInt8.ofInt i) name .hd size (m.choices 0).answer (some fh)) = (UInt8.ofNat i, name) := by
    intro fh
    rw [ofInt_natCast]
    rfl
  simp only [add_lun, openDisk, Prog.exec_bind, exec_time, exec_fopen, next, Nat.zero_add]
  obtain ⟨hfirst, hdirectory₁⟩ := @fopen_directory m.state.world name .r_plus (m.choices 1) inode hname
  rcases hopen₁ : m.state.world.fopen name .r_plus (m.choices 1) with ⟨first, w₁⟩
  rw [hopen₁] at hfirst hdirectory₁
  cases first with
  | some fh =>
    have hopens : (m.choices 1).opens = true := hfirst.symm
    refine ⟨_, _, rfl, ?_, ?_⟩
    · exact (truncate_directory _ _ _).trans hdirectory₁
    · rw [if_pos (.inl hopens), if_pos hopens]
      exact ⟨⟨_, rfl, hmade fh⟩, rfl⟩
  | none =>
    have hcloses : ¬ (m.choices 1).opens = true := by
      rw [← hfirst]
      exact Bool.false_ne_true
    have hname₁ : w₁.fs.directory name = some inode := (congrFun hdirectory₁ name).trans hname
    obtain ⟨hsecond, hdirectory₂⟩ := @fopen_directory w₁ name .w_plus (m.choices 2) inode hname₁
    simp only [Option.isSome_none, Bool.false_eq_true, if_false, exec_fopen, next, Nat.zero_add]
    rcases hopen₂ : w₁.fopen name .w_plus (m.choices 2) with ⟨second, w₂⟩
    rw [hopen₂] at hsecond hdirectory₂
    cases second with
    | some fh =>
      have hopens : (m.choices 2).opens = true := hsecond.symm
      refine ⟨_, _, rfl, ?_, ?_⟩
      · exact (truncate_directory _ _ _).trans (hdirectory₂.trans hdirectory₁)
      · rw [if_pos (.inr hopens), if_neg hcloses]
        exact ⟨⟨_, rfl, hmade fh⟩, rfl⟩
    | none =>
      have hcloses₂ : ¬ (m.choices 2).opens = true := by
        rw [← hsecond]
        exact Bool.false_ne_true
      refine ⟨_, _, rfl, hdirectory₂.trans hdirectory₁, ?_⟩
      rw [if_neg (not_or.mpr ⟨hcloses, hcloses₂⟩)]

theorem numbers_cons (i : Nat) (name : FileName) (names : List FileName) :
    numbers i (name :: names) = (UInt8.ofNat i, name) :: numbers (i + 1) names := rfl

/-- The loop makes a LUN for each name exactly if one of the attempts succeeds
each time. -/
theorem addLuns_made {t : TargetData} {i : Nat} {size : Int}
    (hnames : ∀ name ∈ names, ∃ inode, m.state.world.fs.directory name = some inode) :
    ∃ td m', (addLuns t size i names).exec libc m = .ok (td, m') ∧ td.luns.length ≤ names.length + t.luns.length ∧
      (OneOpens names.length m.choices → td.luns.map numbered = (numbers i names).reverse ++ t.luns.map numbered) ∧
      (¬ OneOpens names.length m.choices → td.luns.length < names.length + t.luns.length) := by
  induction names generalizing t i m with
  | nil => exact ⟨t, m, rfl, by simp, fun _ => rfl, fun hnot => absurd trivial hnot⟩
  | cons name names ih =>
    obtain ⟨inode, hname⟩ := hnames name (List.mem_cons_self ..)
    obtain ⟨t₁, m₁, hadd, hdirectory, hmade⟩ := add_lun_made i size hname
    have hrest : ∀ other ∈ names, ∃ inode, m₁.state.world.fs.directory other = some inode := by
      intro other hother
      rw [hdirectory]
      exact hnames other (List.mem_cons_of_mem _ hother)
    obtain ⟨td, m', hexec, hlength, hall, hsome⟩ := ih (t := t₁) (i := i + 1) hrest
    refine ⟨td, m', ?_, ?_⟩
    · rw [addLuns, Prog.exec_bind, hadd]
      exact hexec
    rw [List.length_cons, OneOpens, numbers_cons, List.reverse_cons]
    by_cases hopens : (m.choices 1).opens = true ∨ (m.choices 2).opens = true
    · rw [if_pos hopens] at hmade
      obtain ⟨⟨ld, hluns, hnumbered⟩, hchoices⟩ := hmade
      have hone : OneOpens names.length m₁.choices ↔
          if (m.choices 1).opens = true then OneOpens names.length fun n => m.choices (n + 3)
          else (m.choices 2).opens = true ∧ OneOpens names.length fun n => m.choices (n + 4) := by
        rw [hchoices]
        by_cases hfirst : (m.choices 1).opens = true
        · simp only [if_pos hfirst]
        · simp only [if_neg hfirst, hopens.resolve_left hfirst, true_and]
      rw [hluns, List.length_cons] at hlength hsome
      rw [← hone]
      refine ⟨by omega, fun h => ?_, fun h => ?_⟩
      · rw [hall h, hluns, List.map_cons, hnumbered, List.append_assoc, List.singleton_append]
      · have hless := hsome h
        omega
    · rw [if_neg hopens] at hmade
      subst hmade
      obtain ⟨hfirst, hsecond⟩ := not_or.mp hopens
      rw [if_neg hfirst]
      exact ⟨by omega, fun h => absurd h.1 hsecond, fun _ => by omega⟩

/-- A list of names is understood as it should be: the LUNs are those of its
names, a list with a fault leads to an exit with no call but for sizes before it,
and no array is left. -/
structure SplitsRight (u : Uninitialized) (argv : List (List Char)) (names : List FileName) (m : Machine Choice Space) :
    Prop where
  accepted : ∀ td m', (arrays.configure_scsi_target u argv).exec libc m = .ok (td, m') →
    td.luns.reverse.map numbered = numbers 0 names ∧ names.Nodup ∧ (∀ name ∈ names, name.length ≤ 63) ∧ names.length ≤ 256
  refused : HasFault m.state.world names →
    (arrays.configure_scsi_target u argv).exec libc m = .error (.exit 1) ∧
      (arrays.configure_scsi_target u argv).Always libc (fun c => ∃ name, c = .stat name) (fun _ => False) m.state
  inside : (arrays.configure_scsi_target u argv).exec libc m ≠ .error .crash

theorem listNames_stats (names lunfiles : List FileName) (st_size : Nat) (x : Space) :
    (listNames names lunfiles st_size).Always libc (fun c => ∃ name, c = .stat name) (fun _ => False) x := by
  induction names generalizing lunfiles st_size x with
  | nil => trivial
  | cons name names ih =>
    rw [listNames]
    split
    · exact id
    · refine ⟨⟨name, rfl⟩, fun choice size x' _ => ?_⟩
      cases size with
      | none => exact id
      | some size =>
        change Prog.Always libc _ _ (if _ then _ else _) x'
        split
        · exact id
        split
        · exact id
        split
        · exact id
        · exact ih _ _ _

theorem numbers_length (i : Nat) (names : List FileName) : (numbers i names).length = names.length := by
  rw [numbers, List.length_map, List.length_zipIdx]

/-- What is done with the names. -/
def addNames (names : List FileName × Nat) : Code TargetData :=
  addLuns (add_target "virtual20mhd".toList TARGET_TYPE_EMULATION) (int32 (names.2 / (1024 * 1024) : Nat)) 0 names.1

section

variable {argv : List (List Char)} {o : Options} (hoptions : options argv = .ok o) (hfilenames : o.filenames = some filenames)
  (hstring : terminator ∉ filenames) (u : Uninitialized)

include hoptions hfilenames hstring

/-- Behind the options there are the names, and then the LUNs. -/
theorem configure_names : arrays.configure_scsi_target u argv =
    listNames (listed filenames) [] 0 >>= addNames := by
  have hargument : ∀ o' filenames', options argv = .ok o' → o'.filenames = some filenames' → terminator ∉ filenames' := by
    intro o' filenames' hoptions' hfilenames'
    obtain rfl := Except.ok.inj (hoptions.symm.trans hoptions')
    obtain rfl := Option.some.inj (hfilenames.symm.trans hfilenames')
    exact hstring
  have hnames : ((filenames.splitOn ',').modifyHead (([] : List Char) ++ ·)).filter (· ≠ []) = listed filenames := by
    obtain ⟨head, tail, hsplit⟩ := List.exists_cons_of_ne_nil (List.splitOn_ne_nil ',' filenames)
    rw [listed, hsplit]
    rfl
  rw [arrays.configure_eq u hargument, configure_scsi_target, hoptions]
  dsimp only
  rw [hfilenames]
  dsimp only
  rw [listFiles_eq (show ([] : List Char).length ≤ 63 from Nat.zero_le 63), hnames]
  rfl

/-- A list is split as it should be exactly if the table has room for it and, if
there is no fault in it, all its files can be opened. -/
theorem splits_right_iff : SplitsRight u argv (listed filenames) m ↔ ¬ Overflows m.state.world (listed filenames) ∧
    (Fine m.state.world (listed filenames) → (listed filenames).length ≤ 256 →
      OneOpens (listed filenames).length fun n => m.choices (n + (listed filenames).length)) := by
  have hconfigure := configure_names hoptions hfilenames hstring u
  have houtcome : ∀ choices, Outcome { state := m.state, choices } (listed filenames) [] 0 := fun choices =>
    outcome (Fine.nil _) (Nat.zero_le 256) _ 0
  generalize listed filenames = names at *
  have hmade : Fine m.state.world names → names.length ≤ 256 → ∃ td m',
      (arrays.configure_scsi_target u argv).exec libc m = .ok (td, m') ∧
      (OneOpens names.length (fun n => m.choices (n + names.length)) → td.luns.reverse.map numbered = numbers 0 names) ∧
      (¬ OneOpens names.length (fun n => m.choices (n + names.length)) → td.luns.length < names.length) := by
    intro hfine hcount
    obtain ⟨size, hok⟩ := (houtcome m.choices).accepted hfine hcount
    have hexist : ∀ name ∈ names, ∃ inode, m.state.world.fs.directory name = some inode := by
      intro name hname
      obtain ⟨-, mb, hsize⟩ := hfine.named name hname
      obtain ⟨inode, hinode, -⟩ := Option.map_eq_some_iff.mp hsize
      exact ⟨inode, hinode⟩
    obtain ⟨td, m', hexec, -, hall, hsome⟩ := addLuns_made (t := add_target "virtual20mhd".toList TARGET_TYPE_EMULATION)
      (i := 0) (m := ⟨m.state, fun n => m.choices (n + names.length)⟩) hexist
    refine ⟨td, m', ?_, fun hopens => ?_, hsome⟩
    · rw [hconfigure, Prog.exec_bind, show (listNames names [] 0).exec libc m = _ from hok]
      exact hexec
    · have hluns := hall hopens
      rw [List.map_reverse, hluns, List.reverse_append, List.reverse_reverse]
      rfl
  have hexits : ∀ choices, ¬ (Fine m.state.world names ∧ names.length ≤ 256) → ¬ Overflows m.state.world names →
      (listNames names [] 0).exec libc { state := m.state, choices } = .error (.exit 1) := fun choices hnot hroom =>
    (houtcome choices).exits hnot fun before rest hnames hlen hfine => hroom ⟨before, rest, hnames, hlen, hfine⟩
  constructor
  · intro h
    refine ⟨fun ⟨before, rest, hnames, hlen, hfine⟩ => h.inside ?_, fun hfine hcount => ?_⟩
    · have hcrash := (houtcome m.choices).crashes before rest hnames hlen hfine
      rw [hconfigure, Prog.exec_bind, show (listNames names [] 0).exec libc m = _ from hcrash]
    · by_contra hnot
      obtain ⟨td, m', hexec, -, hless⟩ := hmade hfine hcount
      have hall := congrArg List.length (h.accepted td m' hexec).1
      rw [List.length_map, List.length_reverse, numbers_length] at hall
      have hfewer := hless hnot
      omega
  · rintro ⟨hroom, hopens⟩
    by_cases hgood : Fine m.state.world names ∧ names.length ≤ 256
    · obtain ⟨hfine, hcount⟩ := hgood
      obtain ⟨td, m', hexec, hall, -⟩ := hmade hfine hcount
      refine ⟨fun td' m'' hexec' => ?_, fun hfault => ?_, ?_⟩
      · obtain ⟨rfl, -⟩ := Prod.mk.inj (Except.ok.inj (hexec.symm.trans hexec'))
        exact ⟨hall (hopens hfine hcount), hfine.nodup, fun name hname => (hfine.named name hname).1, hcount⟩
      · exact absurd ⟨hfine, hcount⟩ ((hasFault_iff _ _).mp hfault)
      · rw [hexec]
        nofun
    · have hexit : (arrays.configure_scsi_target u argv).exec libc m = .error (.exit 1) := by
        rw [hconfigure, Prog.exec_bind, show (listNames names [] 0).exec libc m = _ from hexits m.choices hgood hroom]
      refine ⟨fun td m' hexec => ?_, fun _ => ⟨hexit, ?_⟩, ?_⟩
      · rw [hexit] at hexec
        cases hexec
      · have : Nonempty Choice := ⟨.whole⟩
        rw [hconfigure]
        exact (listNames_stats names [] 0 m.state).bind_of_fails fun choices => ⟨_, hexits choices hgood hroom⟩
      · rw [hexit]
        nofun

end

/-- Variables that happen to be zero. -/
def zeroed : Uninitialized where
  fname := Vector.replicate 64 terminator
  lunfiles := Vector.replicate 256 (Vector.replicate 64 terminator)
  st_size := 0

theorem splits_right_two_images : SplitsRight zeroed twoImagesArgs (listed "a,b".toList) (twoImages 1 1) := by
  have hoptions : options twoImagesArgs = .ok { Options.initial with
      selection := 3, devname := some "/dev/scsitap".toList, filenames := some "a,b".toList } := rfl
  refine (splits_right_iff hoptions rfl (by decide) zeroed).mpr ⟨?_, fun _ _ => trivial⟩
  rintro ⟨before, rest, hnames, hlen, -⟩
  have htwo := congrArg List.length hnames
  rw [show (listed "a,b".toList).length = 2 by decide, List.length_append] at htwo
  omega

/-- Names of two letters. -/
def letters (n : Nat) : FileName := [Char.ofNat (97 + n / 26), Char.ofNat (97 + n % 26)]

/-- One more of them than there is room for. -/
def manyNames : List FileName := (List.range 257).map letters

def manyFiles : List Char := manyNames.flatMap (· ++ [','])

def manyArgs : List (List Char) := ["-dev".toList, "/dev/scsitap".toList, "-files".toList, manyFiles]

/-- A process that starts where they are the names of different files of one MiB. -/
def manyImages : Machine Choice Space where
  state :=
    { world :=
        { fs :=
            { directory := fun name => if name ∈ manyNames then some (manyNames.idxOf name) else none
              files := fun _ => File.empty.truncate (1024 * 1024)
              fresh := 257 }
          streams := fun _ => none
          next := 0 }
      data := fun _ => 0 }
  choices _ := .whole

theorem letters_inj {n n' : Nat} (hn : n < 26 * 26) (hn' : n' < 26 * 26) (h : letters n = letters n') : n = n' := by
  have hletter : ∀ k < 26, (Char.ofNat (97 + k)).toNat = 97 + k := by decide
  have hfirst := congrArg Char.toNat (List.cons.inj h).1
  have hsecond := congrArg Char.toNat (List.cons.inj (List.cons.inj h).2).1
  rw [hletter _ (by omega), hletter _ (by omega)] at hfirst hsecond
  omega

theorem letters_plain (n : Nat) (hn : n < 26 * 26) : ',' ∉ letters n ∧ terminator ∉ letters n := by
  have hletter : ∀ k < 26, ',' ≠ Char.ofNat (97 + k) ∧ terminator ≠ Char.ofNat (97 + k) := by decide
  have hfirst := hletter (n / 26) (by omega)
  have hsecond := hletter (n % 26) (by omega)
  simp [letters, hfirst, hsecond]

theorem manyNames_fine : Fine manyImages.state.world manyNames := by
  refine ⟨List.Nodup.map_on (fun n hn n' hn' => ?_) List.nodup_range, fun name hname => ?_⟩
  · rw [List.mem_range] at hn hn'
    exact letters_inj (by omega) (by omega)
  · have hdirectory : manyImages.state.world.fs.directory name = some (manyNames.idxOf name) := if_pos hname
    obtain ⟨n, -, rfl⟩ := List.mem_map.mp hname
    refine ⟨show 2 ≤ 63 by decide, 1, ?_⟩
    rw [World.size?, hdirectory]
    rfl

/-- Names that all have a comma behind them. -/
theorem splitOn_flatMap (h : ∀ name ∈ names, ',' ∉ name) :
    (names.flatMap (· ++ [','])).splitOn ',' = names ++ [[]] := by
  induction names with
  | nil => rfl
  | cons name names ih =>
    have hrest := ih fun other hother => h other (List.mem_cons_of_mem _ hother)
    rw [List.flatMap_cons, List.append_assoc, List.singleton_append,
      List.splitOn_append_cons_self_of_not_mem (h name (List.mem_cons_self ..)), hrest, List.cons_append]

theorem manyNames_listed : listed manyFiles = manyNames := by
  have hcomma : ∀ name ∈ manyNames, ',' ∉ name := by
    intro name hname
    obtain ⟨n, hn, rfl⟩ := List.mem_map.mp hname
    rw [List.mem_range] at hn
    exact (letters_plain n (by omega)).1
  have hnonempty : ∀ name ∈ manyNames, decide (name ≠ []) = true := by
    intro name hname
    obtain ⟨n, -, rfl⟩ := List.mem_map.mp hname
    rfl
  rw [listed, manyFiles, splitOn_flatMap hcomma, List.filter_append, List.filter_eq_self.mpr hnonempty]
  simp

/-- The 257th name is stored behind the table. -/
theorem files_overrun : options manyArgs = .ok { Options.initial with
      selection := 3, devname := some "/dev/scsitap".toList, filenames := some manyFiles } ∧ terminator ∉ manyFiles ∧
    (∀ name ∈ listed manyFiles, ∀ name' ∈ listed manyFiles, manyImages.state.world.fs.directory name =
      manyImages.state.world.fs.directory name' → name = name') ∧ HasFault manyImages.state.world (listed manyFiles) ∧
    (arrays.configure_scsi_target zeroed manyArgs).exec libc manyImages = .error .crash ∧
    ¬ SplitsRight zeroed manyArgs (listed manyFiles) manyImages := by
  have hoptions : options manyArgs = .ok { Options.initial with
      selection := 3, devname := some "/dev/scsitap".toList, filenames := some manyFiles } := rfl
  have hcount : manyNames.length = 257 := by rw [manyNames, List.length_map, List.length_range]
  have hstring : terminator ∉ manyFiles := by
    intro hmem
    obtain ⟨name, hname, hchar⟩ := List.mem_flatMap.mp hmem
    obtain ⟨n, hn, rfl⟩ := List.mem_map.mp hname
    rw [List.mem_range] at hn
    rcases List.mem_append.mp hchar with hletter | hcomma
    · exact (letters_plain n (by omega)).2 hletter
    · exact absurd (List.mem_singleton.mp hcomma) (by decide)
  have hcrash : (arrays.configure_scsi_target zeroed manyArgs).exec libc manyImages = .error .crash := by
    have hlist := (outcome (Fine.nil manyImages.state.world) (Nat.zero_le 256) manyNames 0).crashes manyNames []
      (List.append_nil _).symm hcount manyNames_fine
    rw [configure_names hoptions rfl hstring, manyNames_listed, Prog.exec_bind, hlist]
  refine ⟨hoptions, hstring, fun name hname name' hname' hsame => ?_, ?_, hcrash, fun h => h.inside hcrash⟩
  · rw [manyNames_listed] at hname hname'
    have hindex : some (manyNames.idxOf name) = some (manyNames.idxOf name') :=
      ((if_pos hname).symm.trans hsame).trans (if_pos hname')
    exact (List.idxOf_inj hname).mp (Option.some.inj hindex)
  · rw [manyNames_listed]
    exact .inr (.inr (by rw [hcount]; decide))

end vscsi.main
