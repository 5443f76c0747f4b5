import Vscsi.Target.Configure

open lib

namespace vscsi.main

/-- An option with its argument, if it takes one. -/
inductive OptionGroup
  | dev (devname : List Char)
  | files (filenames : List Char)
  | v

namespace OptionGroup

def args : OptionGroup → List (List Char)
  | dev devname => ["-dev".toList, devname]
  | files filenames => ["-files".toList, filenames]
  | v => ["-v".toList]

def isDev : OptionGroup → Bool
  | dev _ => true
  | _ => false

def isFiles : OptionGroup → Bool
  | files _ => true
  | _ => false

end OptionGroup

/-- The arguments that a list of options stands for. -/
def arguments (groups : List OptionGroup) : List (List Char) := groups.flatMap (·.args)

/-- One device and one list of files. -/
structure Complete (groups : List OptionGroup) : Prop where
  dev : groups.countP (·.isDev) = 1
  files : groups.countP (·.isFiles) = 1

/-- How often files are given before the first device. -/
def earlyFiles (groups : List OptionGroup) : Nat := (groups.takeWhile (!·.isDev)).countP (·.isFiles)

/-- How often files are given behind the first device. -/
def lateFiles (groups : List OptionGroup) : Nat := (groups.dropWhile (!·.isDev)).countP (·.isFiles)

/-- What the loop makes of one option. -/
def Options.group (o : Options) : OptionGroup → Except Fault Options
  | .dev devname =>
    if o.selection &&& 1 = 1 then .error (.exit 100) else .ok { o with selection := 1, devname := some devname }
  | .files filenames =>
    if o.selection &&& 2 = 2 then .error (.exit 100)
    else .ok { o with selection := o.selection ||| 2, filenames := some filenames }
  | .v => .ok { o with selection := o.selection ||| 4, verbose := true }

/-- Between two options, with the bits for what has been given. -/
structure Options.Seen (o : Options) (dev files : Bool) : Prop where
  opt : o.opt = 0
  dev : o.selection &&& 1 = 1 ↔ dev = true
  files : o.selection &&& 2 = 2 ↔ files = true

variable {o o' : Options} {groups groups' : List OptionGroup} {g : OptionGroup} {argv : List (List Char)} {dev files : Bool}

theorem arguments_cons (g : OptionGroup) (groups : List OptionGroup) :
    arguments (g :: groups) = g.args ++ arguments groups := List.flatMap_cons

/-- A list of arguments stands for one list of options at most. -/
theorem arguments_injective : Function.Injective arguments := by
  intro groups groups' h
  induction groups generalizing groups' with
  | nil =>
    cases groups' with
    | nil => rfl
    | cons g groups' =>
      rw [arguments_cons] at h
      cases g <;> cases h
  | cons g groups ih =>
    cases groups' with
    | nil =>
      rw [arguments_cons] at h
      cases g <;> cases h
    | cons g' groups' =>
      rw [arguments_cons, arguments_cons] at h
      cases g <;> cases g' <;> simp [OptionGroup.args] at h
      · rw [h.1, ih h.2]
      · rw [h.1, ih h.2]
      · rw [ih h]

theorem Options.group_opt (h : o.group g = .ok o') : o'.opt = o.opt := by
  cases g with
  | dev devname =>
    simp only [Options.group] at h
    split at h
    · cases h
    · cases h
      rfl
  | files filenames =>
    simp only [Options.group] at h
    split at h
    · cases h
    · cases h
      rfl
  | v =>
    cases h
    rfl

/-- The arguments of an option, read one by one. -/
theorem args_run (hopt : o.opt = 0) (g : OptionGroup) : g.args.foldlM option o = o.group g := by
  have hfiles : "-files".toList ≠ "-dev".toList := by decide
  have hv : "-v".toList ≠ "-dev".toList ∧ "-v".toList ≠ "-files".toList := by decide
  cases g with
  | dev devname =>
    simp only [OptionGroup.args, List.foldlM_cons, List.foldlM_nil, option, Options.group, hopt]
    by_cases hseen : o.selection &&& 1 = 1
    · simp only [hseen, if_true]
      rfl
    · simp only [hseen, if_false]
      rfl
  | files filenames =>
    simp only [OptionGroup.args, List.foldlM_cons, List.foldlM_nil, option, Options.group, hopt, hfiles]
    by_cases hseen : o.selection &&& 2 = 2
    · simp only [hseen, if_true]
      rfl
    · simp only [hseen, if_false]
      rfl
  | v =>
    simp only [OptionGroup.args, List.foldlM_cons, List.foldlM_nil, option, Options.group, hopt, hv]
    rfl

theorem arguments_run (hopt : o.opt = 0) (groups : List OptionGroup) :
    (arguments groups).foldlM option o = groups.foldlM Options.group o := by
  induction groups generalizing o with
  | nil => rfl
  | cons g groups ih =>
    rw [arguments_cons, List.foldlM_append, args_run hopt, List.foldlM_cons]
    cases hgroup : o.group g with
    | error e => rfl
    | ok o' => exact ih ((Options.group_opt hgroup).trans hopt)

/-- An argument is the value of the option before it, or an option itself. -/
theorem option_cases {arg : List Char} (h : option o arg = .ok o') :
    ((o.opt = 1 ∨ o.opt = 2) ∧ o'.opt = 0) ∨
    (o.opt ≠ 1 ∧ o.opt ≠ 2 ∧ (arg = "-dev".toList ∧ o'.opt = 1 ∨ arg = "-files".toList ∧ o'.opt = 2 ∨
      arg = "-v".toList ∧ o'.opt = 0)) := by
  unfold option at h
  split at h
  · rename_i hdev
    cases h
    exact .inl ⟨.inl hdev, rfl⟩
  rename_i hdev
  split at h
  · rename_i hfiles
    cases h
    exact .inl ⟨.inr hfiles, rfl⟩
  rename_i hfiles
  refine .inr ⟨hdev, hfiles, ?_⟩
  split at h
  · rename_i harg
    split at h
    · cases h
    · cases h
      exact .inl ⟨harg, rfl⟩
  split at h
  · rename_i harg
    split at h
    · cases h
    · cases h
      exact .inr (.inl ⟨harg, rfl⟩)
  split at h
  · rename_i harg
    cases h
    exact .inr (.inr ⟨harg, rfl⟩)
  · cases h

/-- Options that are read to the end come from whole groups; an option that waits
for its argument finds it first. -/
theorem groups_of_run (h : argv.foldlM option o = .ok o') (hopt : o'.opt = 0) :
    (o.opt = 0 → ∃ groups, argv = arguments groups) ∧
    (o.opt = 1 ∨ o.opt = 2 → ∃ value groups, argv = value :: arguments groups) := by
  induction argv generalizing o with
  | nil =>
    obtain rfl : o = o' := Except.ok.inj h
    exact ⟨fun _ => ⟨[], rfl⟩, fun hwaits => by omega⟩
  | cons arg argv ih =>
    rw [List.foldlM_cons] at h
    cases hstep : option o arg with
    | error e =>
      rw [hstep] at h
      cases h
    | ok o₁ =>
      rw [hstep] at h
      obtain ⟨hbetween, hwaiting⟩ := ih h
      rcases option_cases hstep with ⟨hwaits, hnext⟩ | ⟨hdev, hfiles, harg⟩
      · obtain ⟨groups, rfl⟩ := hbetween hnext
        exact ⟨fun hopt => by omega, fun _ => ⟨arg, groups, rfl⟩⟩
      · refine ⟨fun _ => ?_, fun hwaits => by omega⟩
        rcases harg with ⟨rfl, hnext⟩ | ⟨rfl, hnext⟩ | ⟨rfl, hnext⟩
        · obtain ⟨devname, groups, rfl⟩ := hwaiting (.inl hnext)
          exact ⟨.dev devname :: groups, rfl⟩
        · obtain ⟨filenames, groups, rfl⟩ := hwaiting (.inr hnext)
          exact ⟨.files filenames :: groups, rfl⟩
        · obtain ⟨groups, rfl⟩ := hbetween hnext
          exact ⟨.v :: groups, rfl⟩

/-! The bits of the selection. -/

theorem selection_or (selection bit mask : UInt8) : (selection ||| bit) &&& mask = selection &&& mask ||| bit &&& mask := by
  apply UInt8.toBitVec_inj.mp
  simp [BitVec.and_or_distrib_right]

/-- A bit that is set covers no other one, -/
theorem selection_or_other (selection : UInt8) {bit mask : UInt8} (h : bit &&& mask = 0) :
    (selection ||| bit) &&& mask = selection &&& mask := by rw [selection_or, h, UInt8.or_zero]

/-- and is set. -/
theorem selection_or_self (selection bit : UInt8) : (selection ||| bit) &&& bit = bit := by
  apply UInt8.toBitVec_inj.mp
  ext i
  simpa using Or.inr

theorem selection_and (selection : UInt8) : selection &&& 3 = 3 ↔ selection &&& 1 = 1 ∧ selection &&& 2 = 2 := by
  constructor
  · intro h
    constructor
    · have hone := congrArg (· &&& 1) h
      rwa [UInt8.and_assoc] at hone
    · have htwo := congrArg (· &&& 2) h
      rwa [UInt8.and_assoc] at htwo
  · rintro ⟨hone, htwo⟩
    rw [UInt8.and_comm, show (3 : UInt8) = 1 ||| 2 from rfl, selection_or, UInt8.and_comm 1, UInt8.and_comm 2, hone, htwo]

theorem Options.Seen.initial : Options.Seen .initial false false := ⟨rfl, by decide, by decide⟩

/-- Two device names are refused; one makes the loop forget the files before it. -/
theorem Options.Seen.dev_group (h : o.Seen dev files) (devname : List Char) :
    if dev then o.group (.dev devname) = .error (.exit 100)
    else ∃ o', o.group (.dev devname) = .ok o' ∧ o'.Seen true false := by
  cases dev with
  | true => exact if_pos (h.dev.mpr rfl)
  | false =>
    have hnew : ¬ (o.selection &&& 1 = 1) := by simp [h.dev]
    have hone : (1 : UInt8) &&& 1 = 1 := rfl
    have hforgets : ¬ (1 : UInt8) &&& 2 = 2 := by decide
    exact ⟨_, if_neg hnew, h.opt, iff_of_true hone rfl, iff_of_false hforgets Bool.false_ne_true⟩

/-- So are two lists of files without a device name between them. -/
theorem Options.Seen.files_group (h : o.Seen dev files) (filenames : List Char) :
    if files then o.group (.files filenames) = .error (.exit 100)
    else ∃ o', o.group (.files filenames) = .ok o' ∧ o'.Seen dev true := by
  cases files with
  | true => exact if_pos (h.files.mpr rfl)
  | false =>
    have hnew : ¬ (o.selection &&& 2 = 2) := by simp [h.files]
    have hother : (o.selection ||| 2) &&& 1 = o.selection &&& 1 := selection_or_other _ rfl
    have hset : (o.selection ||| 2) &&& 2 = 2 := selection_or_self _ 2
    refine ⟨_, if_neg hnew, h.opt, ?_, iff_of_true hset rfl⟩
    rw [← h.dev, ← hother]

theorem Options.Seen.v_group (h : o.Seen dev files) : ∃ o', o.group .v = .ok o' ∧ o'.Seen dev files := by
  have hdev : (o.selection ||| 4) &&& 1 = o.selection &&& 1 := selection_or_other _ rfl
  have hfiles : (o.selection ||| 4) &&& 2 = o.selection &&& 2 := selection_or_other _ rfl
  refine ⟨_, rfl, h.opt, ?_, ?_⟩
  · rw [← h.dev, ← hdev]
  · rw [← h.files, ← hfiles]

/-! Runs of the loop over whole options. -/

theorem groups_run_cons (g : OptionGroup) (groups : List OptionGroup) (o : Options) :
    (g :: groups).foldlM Options.group o = (o.group g).bind fun o' => groups.foldlM Options.group o' :=
  List.foldlM_cons

/-- Without a device name, files may be given once. -/
theorem Options.Seen.run_without_dev (h : o.Seen dev files) (hnone : groups.countP (·.isDev) = 0) :
    if files.toNat + groups.countP (·.isFiles) ≤ 1 then
      ∃ o', groups.foldlM Options.group o = .ok o' ∧ o'.Seen dev (files.toNat + groups.countP (·.isFiles) = 1)
    else groups.foldlM Options.group o = .error (.exit 100) := by
  induction groups generalizing o files with
  | nil =>
    cases files with
    | true => exact ⟨o, rfl, h⟩
    | false => exact ⟨o, rfl, h⟩
  | cons g groups ih =>
    rw [groups_run_cons]
    cases g with
    | dev devname => simp [OptionGroup.isDev] at hnone
    | files filenames =>
      have hgroup := h.files_group filenames
      have hcount : (OptionGroup.files filenames :: groups).countP (·.isFiles) = groups.countP (·.isFiles) + 1 :=
        List.countP_cons_of_pos rfl
      rw [hcount]
      cases files with
      | true =>
        rw [if_neg (by simp), show o.group (.files filenames) = _ from hgroup]
        rfl
      | false =>
        obtain ⟨o', hok, hseen⟩ := hgroup
        have hrest := ih hseen hnone
        rw [Bool.toNat_true, Nat.add_comm] at hrest
        rw [hok, Bool.toNat_false, Nat.zero_add]
        exact hrest
    | v =>
      obtain ⟨o', hok, hseen⟩ := h.v_group
      rw [hok]
      exact ih hseen hnone

/-- Behind a device name there may not be another one. -/
theorem Options.Seen.run_dev (h : o.Seen true files) (hdev : groups.countP (·.isDev) ≠ 0) :
    groups.foldlM Options.group o = .error (.exit 100) := by
  induction groups generalizing o files with
  | nil => exact absurd rfl hdev
  | cons g groups ih =>
    rw [groups_run_cons]
    cases g with
    | dev devname =>
      rw [show o.group (.dev devname) = _ from h.dev_group devname]
      rfl
    | files filenames =>
      have hgroup := h.files_group filenames
      cases files with
      | true =>
        rw [show o.group (.files filenames) = _ from hgroup]
        rfl
      | false =>
        obtain ⟨o', hok, hseen⟩ := hgroup
        rw [hok]
        exact ih hseen hdev
    | v =>
      obtain ⟨o', hok, hseen⟩ := h.v_group
      rw [hok]
      exact ih hseen hdev

/-- In the end both have to have been given, with their values. -/
theorem options_eq_ok : options argv = .ok o ↔
    argv.foldlM option .initial = .ok o ∧ o.selection &&& 3 = 3 ∧ o.opt = 0 := by
  unfold options
  cases argv.foldlM option .initial with
  | error e => exact iff_of_false nofun nofun
  | ok o' =>
    dsimp only
    split
    · rename_i hnot
      refine iff_of_false nofun ?_
      rintro ⟨⟨⟩, hselection, hopt⟩
      exact hnot.elim (fun hne => hne hselection) fun hne => hne hopt
    · rename_i hnot
      push Not at hnot
      exact ⟨fun h => ⟨h, Except.ok.inj h ▸ hnot⟩, fun h => h.1⟩

def Accepts (argv : List (List Char)) : Prop := ∃ o, options argv = .ok o

/-- A run that ends is accepted if it has seen both. -/
theorem Options.Seen.accepts (h : o.Seen dev files) (hrun : groups.foldlM Options.group .initial = .ok o) :
    Accepts (arguments groups) ↔ dev = true ∧ files = true := by
  rw [← h.dev, ← h.files, ← selection_and]
  constructor
  · rintro ⟨o', hoptions⟩
    obtain ⟨hrun', hselection, -⟩ := options_eq_ok.mp hoptions
    rw [arguments_run rfl, hrun] at hrun'
    rwa [Except.ok.inj hrun']
  · exact fun hselection => ⟨o, options_eq_ok.mpr ⟨by rw [arguments_run rfl, hrun], hselection, h.opt⟩⟩

/-- A run that does not end is not. -/
theorem not_accepts {e : Fault} (hrun : groups.foldlM Options.group .initial = .error e) :
    ¬ Accepts (arguments groups) := by
  rintro ⟨o, hoptions⟩
  have hrun' := (options_eq_ok.mp hoptions).1
  rw [arguments_run rfl, hrun] at hrun'
  cases hrun'

/-- A list of options is one without a device name, or has a first one. -/
theorem split_dev (groups : List OptionGroup) : groups.countP (·.isDev) = 0 ∨
    ∃ before devname after, groups = before ++ .dev devname :: after ∧ before.countP (·.isDev) = 0 := by
  induction groups with
  | nil => exact .inl rfl
  | cons g groups ih =>
    cases g with
    | dev devname => exact .inr ⟨[], devname, groups, rfl, rfl⟩
    | files filenames =>
      rcases ih with hnone | ⟨before, devname, after, rfl, hnone⟩
      · exact .inl hnone
      · exact .inr ⟨.files filenames :: before, devname, after, rfl, hnone⟩
    | v =>
      rcases ih with hnone | ⟨before, devname, after, rfl, hnone⟩
      · exact .inl hnone
      · exact .inr ⟨.v :: before, devname, after, rfl, hnone⟩

variable {before after : List OptionGroup} {devname : List Char}

theorem before_dev (hnone : before.countP (·.isDev) = 0) : ∀ g ∈ before, (!g.isDev) = true := by
  intro g hg
  simpa using List.countP_eq_zero.mp hnone g hg

theorem earlyFiles_split (hnone : before.countP (·.isDev) = 0) :
    earlyFiles (before ++ .dev devname :: after) = before.countP (·.isFiles) := by
  rw [earlyFiles, List.takeWhile_append_of_pos (before_dev hnone), List.takeWhile_cons_of_neg (by simp [OptionGroup.isDev]),
    List.append_nil]

theorem lateFiles_split (hnone : before.countP (·.isDev) = 0) :
    lateFiles (before ++ .dev devname :: after) = after.countP (·.isFiles) := by
  rw [lateFiles, List.dropWhile_append_of_pos (before_dev hnone), List.dropWhile_cons_of_neg (by simp [OptionGroup.isDev])]
  exact List.countP_cons_of_neg (by simp [OptionGroup.isFiles])

theorem countP_dev_split (hnone : before.countP (·.isDev) = 0) :
    (before ++ .dev devname :: after).countP (·.isDev) = after.countP (·.isDev) + 1 := by
  rw [List.countP_append, hnone, Nat.zero_add]
  exact List.countP_cons_of_pos rfl

/-- Between them they are all. -/
theorem earlyFiles_add_lateFiles (groups : List OptionGroup) :
    earlyFiles groups + lateFiles groups = groups.countP (·.isFiles) := by
  rw [earlyFiles, lateFiles, ← List.countP_append, List.takeWhile_append_dropWhile]

/-- The loop takes one device name, with files once behind it and at most once
before it. -/
theorem accepts_iff (groups : List OptionGroup) : Accepts (arguments groups) ↔
    groups.countP (·.isDev) = 1 ∧ earlyFiles groups ≤ 1 ∧ lateFiles groups = 1 := by
  rcases split_dev groups with hnone | ⟨before, devname, after, rfl, hnone⟩
  · refine iff_of_false ?_ fun h => by rw [hnone] at h; exact absurd h.1 (by decide)
    have hrun := Options.Seen.initial.run_without_dev hnone
    split at hrun
    · obtain ⟨o, hok, hseen⟩ := hrun
      rw [hseen.accepts hok]
      exact fun h => absurd h.1 (by decide)
    · exact not_accepts hrun
  rw [earlyFiles_split hnone, lateFiles_split hnone, countP_dev_split hnone]
  have hbefore := Options.Seen.initial.run_without_dev hnone
  rw [Bool.toNat_false, Nat.zero_add] at hbefore
  by_cases hearly : before.countP (·.isFiles) ≤ 1
  swap
  · rw [if_neg hearly] at hbefore
    refine iff_of_false (not_accepts (e := .exit 100) ?_) fun h => hearly h.2.1
    rw [List.foldlM_append, hbefore]
    rfl
  rw [if_pos hearly] at hbefore
  obtain ⟨o₁, hok₁, hseen₁⟩ := hbefore
  obtain ⟨o₂, hok₂, hseen₂⟩ := hseen₁.dev_group devname
  have hrun : (before ++ .dev devname :: after).foldlM Options.group .initial = after.foldlM Options.group o₂ := by
    rw [List.foldlM_append, hok₁]
    exact (groups_run_cons _ _ o₁).trans (by rw [hok₂]; rfl)
  by_cases hdev : after.countP (·.isDev) = 0
  swap
  · refine iff_of_false (not_accepts (hrun.trans (hseen₂.run_dev hdev))) fun h => by omega
  have hafter := hseen₂.run_without_dev hdev
  rw [Bool.toNat_false, Nat.zero_add] at hafter
  split at hafter
  · obtain ⟨o₃, hok₃, hseen₃⟩ := hafter
    rw [hseen₃.accepts (hrun.trans hok₃)]
    simp [hdev, hearly]
  · rename_i hlate
    exact iff_of_false (not_accepts (hrun.trans hafter)) fun h => hlate (Nat.le_of_eq h.2.2)

/-- What a run over options has stored is among them. -/
structure Options.Given (o : Options) (groups : List OptionGroup) (o' : Options) : Prop where
  devname : (o'.devname = o.devname ∧ ∀ devname, .dev devname ∉ groups) ∨
    ∃ devname, .dev devname ∈ groups ∧ o'.devname = some devname
  filenames : (o'.filenames = o.filenames ∧ ∀ filenames, .files filenames ∉ groups) ∨
    ∃ filenames, .files filenames ∈ groups ∧ o'.filenames = some filenames
  verbose : o'.verbose = true ↔ o.verbose = true ∨ .v ∈ groups

theorem Options.group_given (h : o.group g = .ok o') : o.Given [g] o' := by
  cases g with
  | dev devname =>
    simp only [Options.group] at h
    split at h
    · cases h
    · cases h
      exact ⟨.inr ⟨devname, List.mem_singleton_self _, rfl⟩, .inl ⟨rfl, by simp⟩, by simp⟩
  | files filenames =>
    simp only [Options.group] at h
    split at h
    · cases h
    · cases h
      exact ⟨.inl ⟨rfl, by simp⟩, .inr ⟨filenames, List.mem_singleton_self _, rfl⟩, by simp⟩
  | v =>
    cases h
    exact ⟨.inl ⟨rfl, by simp⟩, .inl ⟨rfl, by simp⟩, by simp⟩

theorem Options.Given.append {o₁ o₂ o₃ : Options} (h : o₁.Given groups o₂) (h' : o₂.Given groups' o₃) :
    o₁.Given (groups ++ groups') o₃ where
  devname := by
    rcases h'.devname with ⟨hkept, hnone'⟩ | ⟨devname, hmem, hname⟩
    · rcases h.devname with ⟨hkept', hnone⟩ | ⟨devname, hmem, hname⟩
      · exact .inl ⟨hkept.trans hkept', fun devname => by simp [hnone, hnone']⟩
      · exact .inr ⟨devname, List.mem_append_left _ hmem, hkept.trans hname⟩
    · exact .inr ⟨devname, List.mem_append_right _ hmem, hname⟩
  filenames := by
    rcases h'.filenames with ⟨hkept, hnone'⟩ | ⟨filenames, hmem, hname⟩
    · rcases h.filenames with ⟨hkept', hnone⟩ | ⟨filenames, hmem, hname⟩
      · exact .inl ⟨hkept.trans hkept', fun filenames => by simp [hnone, hnone']⟩
      · exact .inr ⟨filenames, List.mem_append_left _ hmem, hkept.trans hname⟩
    · exact .inr ⟨filenames, List.mem_append_right _ hmem, hname⟩
  verbose := by rw [h'.verbose, h.verbose, List.mem_append, or_assoc]

theorem Options.run_given (h : groups.foldlM Options.group o = .ok o') : o.Given groups o' := by
  induction groups generalizing o with
  | nil =>
    obtain rfl : o = o' := Except.ok.inj h
    exact ⟨.inl ⟨rfl, nofun⟩, .inl ⟨rfl, nofun⟩, by simp⟩
  | cons g groups ih =>
    rw [groups_run_cons] at h
    cases hgroup : o.group g with
    | error e =>
      rw [hgroup] at h
      cases h
    | ok o₁ =>
      rw [hgroup] at h
      exact (Options.group_given hgroup).append (ih h)

theorem options_given (h : options (arguments groups) = .ok o) : Options.initial.Given groups o := by
  have hrun := (options_eq_ok.mp h).1
  rw [arguments_run rfl] at hrun
  exact Options.run_given hrun

/-- What is counted once is one. -/
theorem eq_of_countP_eq_one {α : Type} {p : α → Bool} {l : List α} (h : l.countP p = 1) {a b : α} (ha : a ∈ l) (hb : b ∈ l)
    (hpa : p a = true) (hpb : p b = true) : a = b := by
  rw [List.countP_eq_length_filter, List.length_eq_one_iff] at h
  obtain ⟨c, hc⟩ := h
  have hmem : ∀ x ∈ l, p x = true → x = c := by
    intro x hx hpx
    rw [← List.mem_singleton, ← hc, List.mem_filter]
    exact ⟨hx, hpx⟩
  rw [hmem a ha hpa, hmem b hb hpb]

theorem Complete.one_devname (h : Complete groups) (hgiven : o.Given groups o') :
    ∃ devname, .dev devname ∈ groups ∧ o'.devname = some devname := by
  refine hgiven.devname.resolve_left fun ⟨_, hnone⟩ => ?_
  obtain ⟨g, hg, hdev⟩ := List.countP_pos_iff.mp (Nat.lt_of_lt_of_eq Nat.one_pos h.dev.symm)
  cases g with
  | dev devname => exact hnone devname hg
  | files filenames => cases hdev
  | v => cases hdev

theorem Complete.one_filenames (h : Complete groups) (hgiven : o.Given groups o') :
    ∃ filenames, .files filenames ∈ groups ∧ o'.filenames = some filenames := by
  refine hgiven.filenames.resolve_left fun ⟨_, hnone⟩ => ?_
  obtain ⟨g, hg, hfiles⟩ := List.countP_pos_iff.mp (Nat.lt_of_lt_of_eq Nat.one_pos h.files.symm)
  cases g with
  | dev devname => cases hfiles
  | files filenames => exact hnone filenames hg
  | v => cases hfiles

theorem Complete.perm (h : Complete groups) (hperm : groups.Perm groups') : Complete groups' :=
  ⟨(hperm.countP_eq _).symm.trans h.dev, (hperm.countP_eq _).symm.trans h.files⟩

/-- The arguments are what the usage line describes, in any order. -/
def Grammatical (argv : List (List Char)) : Prop := ∃ groups, argv = arguments groups ∧ Complete groups

/-- Another order of the options is not understood in another way. -/
def OrderFree (argv : List (List Char)) : Prop :=
  ∀ groups groups' o o', argv = arguments groups → Complete groups → groups.Perm groups' →
    options argv = .ok o → options (arguments groups') = .ok o' →
    o'.devname = o.devname ∧ o'.filenames = o.filenames ∧ o'.verbose = o.verbose

/-- Files are given once before the only device name, and at most once behind it. -/
def FilesFirst (argv : List (List Char)) : Prop :=
  ∃ groups, argv = arguments groups ∧ groups.countP (·.isDev) = 1 ∧ earlyFiles groups = 1 ∧ lateFiles groups ≤ 1

theorem orderFree (argv : List (List Char)) : OrderFree argv := by
  rintro groups groups' o o' rfl hcomplete hperm ho ho'
  have hgiven := options_given ho
  have hgiven' := options_given ho'
  refine ⟨?_, ?_, ?_⟩
  · obtain ⟨devname, hmem, hname⟩ := hcomplete.one_devname hgiven
    obtain ⟨devname', hmem', hname'⟩ := (hcomplete.perm hperm).one_devname hgiven'
    have heq := eq_of_countP_eq_one hcomplete.dev hmem (hperm.mem_iff.mpr hmem') rfl rfl
    rw [hname, hname', OptionGroup.dev.inj heq]
  · obtain ⟨filenames, hmem, hname⟩ := hcomplete.one_filenames hgiven
    obtain ⟨filenames', hmem', hname'⟩ := (hcomplete.perm hperm).one_filenames hgiven'
    have heq := eq_of_countP_eq_one hcomplete.files hmem (hperm.mem_iff.mpr hmem') rfl rfl
    rw [hname, hname', OptionGroup.files.inj heq]
  · rw [Bool.eq_iff_iff, hgiven.verbose, hgiven'.verbose, hperm.mem_iff]

theorem accepts_groups (h : Accepts argv) : ∃ groups, argv = arguments groups := by
  obtain ⟨o, hoptions⟩ := h
  obtain ⟨hrun, -, hopt⟩ := options_eq_ok.mp hoptions
  exact (groups_of_run hrun hopt).1 rfl

/-- The loop accepts its grammar exactly where a device name does not make it
forget files. -/
theorem grammar_iff (argv : List (List Char)) :
    (Accepts argv ↔ Grammatical argv) ∧ OrderFree argv ↔ ¬ FilesFirst argv := by
  rw [and_iff_left (orderFree argv)]
  constructor
  · rintro hiff ⟨groups, rfl, hdev, hearly, hlate⟩
    have hsum := earlyFiles_add_lateFiles groups
    rw [accepts_iff] at hiff
    by_cases htwice : lateFiles groups = 1
    · obtain ⟨groups', heq, hcomplete⟩ := hiff.mp ⟨hdev, by omega, htwice⟩
      obtain rfl := arguments_injective heq
      have hone := hcomplete.files
      omega
    · have haccepted := hiff.mpr ⟨groups, rfl, hdev, by omega⟩
      exact htwice haccepted.2.2
  · intro hnot
    constructor
    · intro haccepted
      obtain ⟨groups, rfl⟩ := accepts_groups haccepted
      obtain ⟨hdev, hearly, hlate⟩ := (accepts_iff groups).mp haccepted
      have hsum := earlyFiles_add_lateFiles groups
      have hnone : earlyFiles groups ≠ 1 := fun hone => hnot ⟨groups, rfl, hdev, hone, by omega⟩
      exact ⟨groups, rfl, hdev, by omega⟩
    · rintro ⟨groups, rfl, hcomplete⟩
      have hsum := earlyFiles_add_lateFiles groups
      rw [hcomplete.files] at hsum
      have hnone : earlyFiles groups ≠ 1 := fun hone => hnot ⟨groups, rfl, hcomplete.dev, hone, by omega⟩
      exact (accepts_iff groups).mpr ⟨hcomplete.dev, by omega, by omega⟩

/-- The usual order, the other way round. -/
theorem files_first_refused : ¬ Accepts ["-files".toList, "a".toList, "-dev".toList, "/dev/scsitap".toList] ∧
    Grammatical ["-files".toList, "a".toList, "-dev".toList, "/dev/scsitap".toList] ∧
    ¬ ((Accepts ["-files".toList, "a".toList, "-dev".toList, "/dev/scsitap".toList] ↔
      Grammatical ["-files".toList, "a".toList, "-dev".toList, "/dev/scsitap".toList]) ∧
      OrderFree ["-files".toList, "a".toList, "-dev".toList, "/dev/scsitap".toList]) := by
  have hgrammatical : Grammatical ["-files".toList, "a".toList, "-dev".toList, "/dev/scsitap".toList] :=
    ⟨[.files "a".toList, .dev "/dev/scsitap".toList], rfl, rfl, rfl⟩
  have hrefused : ¬ Accepts ["-files".toList, "a".toList, "-dev".toList, "/dev/scsitap".toList] := by
    rintro ⟨o, ⟨⟩⟩
  exact ⟨hrefused, hgrammatical, fun h => hrefused (h.1.mpr hgrammatical)⟩

end vscsi.main
