import Vscsi.Lib.Run
import Vscsi.Scsi.Termination
import Vscsi.Target.Owned

open lib

namespace vscsi

open scsi scsi_target

/-- A disc that was not empty when it was ejected, with the name it was given. -/
structure EjectedDisc where
  archive : FileName
  file : File

/-- A target that runs commands, with what it has done to its discs. -/
structure Burner where
  td : TargetData
  world : World
  /-- the discs ejected so far, the latest first -/
  ejected : List EjectedDisc
  /-- the image of the LUN whose disc the last command has changed -/
  changed : Option FileName

/-- A command, the data that comes with it, and what the C library makes of the calls. -/
structure Turn where
  lun : UInt8
  cdb : Cdb
  data_size : Int
  data : Mem
  fuel : Nat
  choices : Nat → Choice

namespace Turn

/-- What `time` returns when a disc is changed. -/
def clock (t : Turn) : Nat := (t.choices 3).answer

/-- What `getpid` returns then. -/
def pid (t : Turn) : Nat := (t.choices 4).answer

end Turn

namespace Burner

/-- The command is a START STOP UNIT on a DVD-R that holds `f`. -/
structure Changes (b : Burner) (t : Turn) (ld : LunData) (f : File) : Prop where
  find : b.td.luns.find? (·.lun = t.lun) = some ld
  cmds : ld.cmds = some .mmc
  opcode : t.cdb.get 0 = 0x1b
  profile : ld.current_profile = 0x0011
  backed : Backed ld b.world f

/-- The discs ejected so far and the one that is now. -/
def eject (b : Burner) (t : Turn) (f : File) : List EjectedDisc :=
  if f.size ≠ 0 then { archive := archiveName t.choices, file := f } :: b.ejected else b.ejected

/-- A command that comes to its end. -/
inductive Step (b : Burner) (t : Turn) : Burner → Prop where
  | other (hnot : ∀ ld f, ¬ b.Changes t ld f) (status : UInt8) (td : TargetData) (m : Machine Choice Space)
      (hexec : (run_scsi_command t.fuel b.td t.lun t.cdb t.data_size).exec libc
        { state := { world := b.world, data := t.data }, choices := t.choices } = .ok ((status, td), m)) :
      Step b t { td, world := m.state.world, ejected := b.ejected, changed := none }
  | changed (ld : LunData) (f : File) (h : b.Changes t ld f) (status : UInt8) (td : TargetData) (m : Machine Choice Space)
      (hexec : (run_scsi_command t.fuel b.td t.lun t.cdb t.data_size).exec libc
        { state := { world := b.world, data := t.data }, choices := t.choices } = .ok ((status, td), m)) :
      Step b t { td, world := m.state.world, ejected := b.eject t f, changed := some ld.filename }

/-- A target that has not run any command yet, its LUNs on files of their own. -/
structure Ready (b : Burner) : Prop where
  owned : Owned b.td b.world
  ejected : b.ejected = []
  changed : b.changed = none

/-- The image is empty after a change, and every disc that was not empty when it
was ejected is still in some file. -/
structure NoneLost (b : Burner) : Prop where
  empty : ∀ name, b.changed = some name → ∃ inode,
    b.world.fs.directory name = some inode ∧ b.world.fs.files inode = .empty
  discs : ∀ d ∈ b.ejected, ∃ name inode,
    b.world.fs.directory name = some inode ∧ b.world.fs.files inode = d.file

/-- A change of disc is safe: the image's name stands for the file that the LUN
has open, and the archive's name neither for that file nor for another disc. -/
structure Safe (b : Burner) (t : Turn) (ld : LunData) (f : File) : Prop where
  linked : ∃ fh inode, ld.lun_fh = some fh ∧ b.world.inode? fh = some inode ∧
    b.world.fs.directory ld.filename = some inode
  apart : f.size ≠ 0 → b.world.fs.directory (archiveName t.choices) ≠ b.world.fs.directory ld.filename
  unused : f.size ≠ 0 → ∀ d ∈ b.ejected, d.archive = archiveName t.choices → d.file = f

/-- A file goes by a name, and no LUN has it open. -/
def Shelved (td : TargetData) (w : World) (name : FileName) (g : File) : Prop :=
  ∃ inode, w.fs.directory name = some inode ∧ w.fs.files inode = g ∧
    ∀ ld ∈ td.luns, ∀ fh, ld.lun_fh = some fh → w.inode? fh ≠ some inode

/-- The ejected discs are on the shelf, each under its name. -/
structure Kept (b : Burner) : Prop where
  owned : Owned b.td b.world
  empty : ∀ name, b.changed = some name → ∃ inode,
    b.world.fs.directory name = some inode ∧ b.world.fs.files inode = .empty
  discs : ∀ d ∈ b.ejected, Shelved b.td b.world d.archive d.file

variable {b b' : Burner} {t : Turn} {ld : LunData} {f : File}

theorem Kept.noneLost (h : b.Kept) : b.NoneLost where
  empty := h.empty
  discs d hd := by
    obtain ⟨inode, hname, hfile, -⟩ := h.discs d hd
    exact ⟨d.archive, inode, hname, hfile⟩

theorem Ready.kept (h : b.Ready) : b.Kept where
  owned := h.owned
  empty name hname := by rw [h.changed] at hname; cases hname
  discs d hd := by rw [h.ejected] at hd; cases hd

/-- What happens to one LUN's file leaves the shelf alone. -/
theorem Shelved.local {td : TargetData} {w w' : World} {name : FileName} {g : File} (h : Shelved td w name g)
    (hld : ld ∈ td.luns) (hlocal : World.Local ld.lun_fh w w') : Shelved td w' name g := by
  obtain ⟨inode, hname, hfile, hclosed⟩ := h
  refine ⟨inode, by rw [hlocal.directory]; exact hname, ?_, fun ld' hld' fh hfh => ?_⟩
  · rw [hlocal.files inode fun n s hn hs heq => hclosed ld hld n hn (by rw [World.inode?, hs, ← heq]; rfl)]
    exact hfile
  · rw [hlocal.inode?_eq]
    exact hclosed ld' hld' fh hfh

/-- What is known of a command that starts no image. -/
theorem Kept.other (h : b.Kept) (hnot : ∀ ld f, ¬ b.Changes t ld f) {status : UInt8} {td : TargetData}
    {m : Machine Choice Space} (hexec : (run_scsi_command t.fuel b.td t.lun t.cdb t.data_size).exec libc
      { state := { world := b.world, data := t.data }, choices := t.choices } = .ok ((status, td), m)) :
    Kept { td, world := m.state.world, ejected := b.ejected, changed := none } := by
  have howned := h.owned.keeps hexec
  have hnone : ∀ name, (none : Option FileName) = some name → ∃ inode,
      m.state.world.fs.directory name = some inode ∧ m.state.world.fs.files inode = .empty := by
    intro name hname
    cases hname
  obtain ⟨p, ld, cmds, hfind, hp, hcmds, hran⟩ := h.owned.ran hexec
  have hld := List.mem_of_getElem? hp
  obtain ⟨f, hbacked⟩ := h.owned.backed ld hld
  have hprofile : cmds = .mmc → Profiled ld := fun hmmc => (h.owned.added ld hld).profiled (by rw [hcmds, hmmc])
  cases hran with
  | unknown hfunc => exact ⟨howned, hnone, h.discs⟩
  | answered func hfunc hstarts o m' hrun =>
    obtain ⟨hsame, hlocal, -⟩ := answered_keeps hprofile hfunc hstarts hbacked hrun
    rw [hsame, putLun_self hfind] at howned ⊢
    exact ⟨howned, hnone, fun d hd => (h.discs d hd).local hld hlocal⟩
  | started hstarts ld' m' hrun =>
    obtain ⟨rfl, hop, hdvd_r⟩ := hstarts
    exact absurd ⟨hfind, hcmds, hop, hdvd_r, hbacked⟩ (hnot ld f)

section Started

variable {td : TargetData} {w w' : World} {p fh inode j : Nat} {archive : FileName}
  (h : Owned td w) (hp : td.luns[p]? = some ld) (hfh : ld.lun_fh = some fh) (hinode : w.inode? fh = some inode)
  (hname : w.fs.directory ld.filename = some inode)

include h hp

/-- A file that no other LUN has open is open nowhere once an image has been
started on another file. -/
theorem started_closed {i : Nat} (hstarted : Started w fh inode f ld.filename archive w' j) (hj : i ≠ j)
    (hclosed : ∀ q ld' n, q ≠ p → td.luns[q]? = some ld' → ld'.lun_fh = some n → w.inode? n ≠ some i) :
    ∀ ld' ∈ td.luns.set p { ld with lun_fh := some w.next }, ∀ n, ld'.lun_fh = some n → w'.inode? n ≠ some i := by
  intro ld' hld' n hn
  obtain ⟨q, hq⟩ := List.mem_iff_getElem?.mp hld'
  rw [hstarted.inode?]
  rcases getElem?_restarted hp hq with ⟨-, rfl⟩ | ⟨hne, hold⟩
  · obtain rfl : w.next = n := Option.some.inj hn
    rw [if_pos rfl]
    exact fun heq => hj (Option.some.inj heq).symm
  · obtain ⟨g, k, inode', hk, hcontent⟩ := h.backed ld' (List.mem_of_getElem? hold)
    obtain rfl : k = n := Option.some.inj (hk.symm.trans hn)
    have hlt := h.fh_lt hcontent.inode?
    rw [if_neg (by omega)]
    split
    · simp
    · exact hclosed q ld' k hne hold hn

include hfh hinode hname

/-- A file on the shelf stays there when an image is started, unless the name it
goes by is given away. -/
theorem Shelved.started {name : FileName} {g : File} (hshelved : Shelved td w name g)
    (hstarted : Started w fh inode f ld.filename archive w' j) (hj : j = inode ∨ j = w.fs.fresh)
    (hkept : name ≠ ld.filename → w'.fs.directory name = w.fs.directory name) :
    Shelved { td with luns := td.luns.set p { ld with lun_fh := some w.next } } w' name g := by
  obtain ⟨i, hi, hfile, hclosed⟩ := hshelved
  have hne : i ≠ inode := by
    rintro rfl
    exact hclosed ld (List.mem_of_getElem? hp) fh hfh hinode
  have hnew : i ≠ j := by
    have hlt := h.names _ _ hi
    rcases hj with rfl | rfl
    · exact hne
    · exact Nat.ne_of_lt hlt
  have hfilename : name ≠ ld.filename := by
    rintro rfl
    rw [hname] at hi
    exact hne (Option.some.inj hi).symm
  refine ⟨i, (hkept hfilename).trans hi, ?_, started_closed h hp hstarted hnew fun q ld' n _ hq hn =>
    hclosed ld' (List.mem_of_getElem? hq) n hn⟩
  rw [hstarted.files, Function.update_of_ne hnew, Function.update_of_ne hne]
  exact hfile

/-- A disc that is not empty is on the shelf when it has been ejected. -/
theorem shelved_ejected (hsize : f.size ≠ 0) (hapart : w.fs.directory archive ≠ w.fs.directory ld.filename) :
    Shelved { td with luns := td.luns.set p { ld with lun_fh := some w.next } }
      (newImage w fh inode f ld.filename archive) archive f := by
  obtain ⟨j, hstarted⟩ := newImage_started w fh inode f ld.filename archive h.names
  have hdirectory := newImage_directory fh archive hname hsize (by rw [← hname]; exact hapart)
  have hnames : archive ≠ ld.filename := fun heq => hapart (by rw [heq])
  have hj : j = w.fs.fresh := hstarted.name_inj (by rw [hdirectory, Function.update_self])
  have hne : inode ≠ j := by
    have hlt := h.names _ _ hname
    omega
  refine ⟨inode, ?_, ?_, started_closed h hp hstarted hne fun q ld' n hq hld' hn hsame => ?_⟩
  · rw [hdirectory, Function.update_of_ne hnames, Function.update_self]
  · rw [hstarted.files, Function.update_of_ne hne, Function.update_self]
  · exact (h.others hq hp hld' hn hsame).2 fh hfh hinode

end Started

/-- A safe change of disc. -/
theorem Kept.changed (h : b.Kept) (hchanges : b.Changes t ld f) (hsafe : b.Safe t ld f) {status : UInt8} {td : TargetData}
    {m : Machine Choice Space} (hexec : (run_scsi_command t.fuel b.td t.lun t.cdb t.data_size).exec libc
      { state := { world := b.world, data := t.data }, choices := t.choices } = .ok ((status, td), m)) :
    Kept { td, world := m.state.world, ejected := b.eject t f, changed := some ld.filename } := by
  have howned := h.owned.keeps hexec
  obtain ⟨p, ld₁, cmds, hfind, hp, hcmds, hran⟩ := h.owned.ran hexec
  obtain rfl : ld₁ = ld := Option.some.inj (hfind.symm.trans hchanges.find)
  obtain rfl : cmds = .mmc := Option.some.inj (hcmds.symm.trans hchanges.cmds)
  obtain ⟨fh, inode, hfh, s, hs⟩ := hchanges.backed
  have hinode : b.world.inode? fh = some inode := World.Content.inode? ⟨s, hs⟩
  obtain ⟨fh', inode', hfh', hinode', hname⟩ := hsafe.linked
  obtain rfl : fh' = fh := Option.some.inj (hfh'.symm.trans hfh)
  obtain rfl : inode' = inode := Option.some.inj (hinode'.symm.trans hinode)
  cases hran with
  | unknown hfunc =>
    rw [hchanges.opcode] at hfunc
    cases hfunc
  | answered func hfunc hstarts o m' hrun => exact absurd ⟨rfl, hchanges.opcode, hchanges.profile⟩ hstarts
  | started hstarts ld' m' hrun =>
    obtain ⟨rfl, hworld⟩ := insert_new_dvd_r_exec hfh hs hrun
    obtain ⟨j, hstarted⟩ := newImage_started b.world fh' inode' f ld₁.filename (archiveName t.choices) h.owned.names
    have hempty : (newImage b.world fh' inode' f ld₁.filename (archiveName t.choices)).fs.files j = .empty := by
      rw [hstarted.files, Function.update_self]
    rw [hworld] at howned ⊢
    refine ⟨howned, ?_, ?_⟩
    · rintro name hsame
      obtain rfl := Option.some.inj hsame
      exact ⟨j, hstarted.name, hempty⟩
    · by_cases hsize : f.size = 0
      · -- nothing is archived, and the image starts anew on the same file
        have hdirectory := newImage_directory_of_empty fh' (archiveName t.choices) hname hsize
        have hj : j = inode' := hstarted.name_inj (by rw [hdirectory, hname])
        intro d hd
        rw [eject, if_neg (not_not.mpr hsize)] at hd
        exact (h.discs d hd).started h.owned hp hfh hinode hname hstarted (.inl hj) fun _ => by rw [hdirectory]
      · have hapart := hsafe.apart hsize
        have hdirectory := newImage_directory fh' (archiveName t.choices) hname hsize (by rw [← hname]; exact hapart)
        have hj : j = b.world.fs.fresh := hstarted.name_inj (by rw [hdirectory, Function.update_self])
        have hejected := shelved_ejected h.owned hp hfh hinode hname hsize hapart
        intro d hd
        rw [eject, if_pos hsize] at hd
        rcases List.mem_cons.mp hd with rfl | hd
        · exact hejected
        · by_cases hsame : d.archive = archiveName t.choices
          · rw [hsame, hsafe.unused hsize d hd hsame]
            exact hejected
          · refine (h.discs d hd).started h.owned hp hfh hinode hname hstarted (.inr hj) fun hfilename => ?_
            rw [hdirectory, Function.update_of_ne hfilename, Function.update_of_ne hsame]

/-- Every change of disc that the command makes is safe. -/
def SafeTurn (b : Burner) (t : Turn) : Prop := ∀ ld f, b.Changes t ld f → b.Safe t ld f

theorem Kept.step (h : b.Kept) (hsafe : b.SafeTurn t) (hstep : b.Step t b') : b'.Kept := by
  cases hstep with
  | other hnot status td m hexec => exact h.other hnot hexec
  | changed ld f hchanges status td m hexec => exact h.changed hchanges (hsafe ld f hchanges) hexec

section Burned

/-- A target whose only LUN is a DVD-R, with `f` on the disc. -/
structure Holding (b : Burner) (fh inode : Nat) (f : File) : Prop where
  td : b.td = { dvdTarget .dvd_r with luns := [newLun 0 "dvd".toList .dvd_r 1 0 (some fh)] }
  owned : Owned b.td b.world
  name : b.world.fs.directory "dvd".toList = some inode
  volume : b.world.Volume fh inode f

/-- The second and the process number that a disc is changed in. -/
def during (clock pid : Nat) : Nat → Choice := fun n => { Choice.whole with answer := if n = 3 then clock else pid }

/-- A block of equal bytes. -/
def block (byte : UInt8) : File := File.empty.pwrite 0 (List.replicate 2048 byte)

def writeTurn (byte : UInt8) (choices : Nat → Choice) : Turn where
  lun := 0
  cdb := cdb10 0x2a 0 1
  data_size := 2048
  data _ := byte
  fuel := 2048
  choices := choices

def changeTurn (choices : Nat → Choice) : Turn where
  lun := 0
  cdb := #v[0x1b, 0, 0, 0, 2, 0, 0, 0, 0, 0, 0, 0, 0, 0, 0, 0]
  data_size := 0
  data _ := 0
  fuel := 0
  choices := choices

variable {fh inode clock pid : Nat}

theorem during_fair (clock pid : Nat) (x : Space) :
    ({ state := x, choices := during clock pid } : Machine Choice Space).Fair Choice.Progress :=
  fun _ => Choice.whole_progress

theorem Holding.serves (h : b.Holding fh inode f) : Serves b.td 0 (newLun 0 "dvd".toList .dvd_r 1 0 (some fh)) := by
  rw [h.td]
  exact ⟨rfl, rfl⟩

/-- A write of the first block is a transfer. -/
theorem Holding.write_eq (h : b.Holding fh inode f) : run_scsi_command 2048 b.td 0 (cdb10 0x2a 0 1) 2048 = do
    transfer (Code.fwrite · · (some fh)) (some fh) (0 : Nat) (2048 : Nat) 2048 0
    return (0, b.td) := by
  have hbound : ¬ bound (newLun 0 "dvd".toList .dvd_r 1 0 (some fh)) < ((0 + 1) * 2048 : Nat) := by
    have hbytes : bound (newLun 0 "dvd".toList .dvd_r 1 0 (some fh)) = 1048576 := rfl
    omega
  have hblocks : blocks .mmc (cdb10 0x2a 0 1) = some (0, 1) := by decide
  rw [run_blocks_eq h.serves rfl hblocks, access_eq, mover_write (by decide)]
  change (if bound (newLun 0 "dvd".toList .dvd_r 1 0 (some fh)) < ((0 + 1) * 2048 : Nat) then _ else _) >>= _ = _
  rw [if_neg hbound, Prog.bind_assoc]
  refine congrArg _ (funext fun _ => ?_)
  exact congrArg (fun td => Prog.ret ((0 : UInt8), td)) (putLun_self h.serves.find)

/-- The first block of an empty disc is written. -/
theorem Holding.write (h : b.Holding fh inode .empty) (byte : UInt8) (clock pid : Nat) :
    ∃ w, b.Step (writeTurn byte (during clock pid)) { b with world := w, changed := none } ∧
      w.fs.directory = b.world.fs.directory ∧ Holding { b with world := w, changed := none } fh inode (block byte) := by
  let start : Machine Choice Space :=
    { state := { world := b.world, data := fun _ => byte }, choices := during clock pid }
  have hends : Ends (OutOfFuel 2048 2048) (transfer (Code.fwrite · · (some fh)) (some fh) (0 : Nat) (2048 : Nat) 2048 0)
      start.state fun _ x' => x'.world.Volume fh inode (File.empty.pwrite 0 (slice (fun _ => byte) 0 2048)) ∧
        x'.data = fun _ => byte := transfer_fwrite (by decide) 2048 h.volume
  rcases hends.exec (during_fair clock pid _) with ⟨_, m, htransfer, -, hvolume, -⟩ | ⟨e, -, -, hfuel⟩
  · have hexec : (run_scsi_command 2048 b.td 0 (cdb10 0x2a 0 1) 2048).exec libc start = .ok ((0, b.td), m) := by
      rw [h.write_eq, Prog.exec_bind, htransfer]
      rfl
    obtain ⟨_, -, -, helsewhere, -⟩ := run_media_frame (c := .write10) h.owned.type rfl hexec
    refine ⟨m.state.world, .other ?_ 0 b.td m hexec, helsewhere.directory, h.td, h.owned.keeps hexec, ?_, ?_⟩
    · intro ld f hchanges
      have hopcode : (cdb10 0x2a 0 1).get 0 ≠ 0x1b := by decide
      exact hopcode hchanges.opcode
    · rw [helsewhere.directory]
      exact h.name
    · rw [slice_const] at hvolume
      exact hvolume
  · omega

/-- A disc `f` has been ejected, and its image goes by the name `archive`. -/
structure Inserted (b : Burner) (inode : Nat) (f : File) (archive : FileName) (b' : Burner) : Prop where
  ejected : b'.ejected = { archive, file := f } :: b.ejected
  directory : b'.world.fs.directory =
    Function.update (Function.update b.world.fs.directory archive (some inode)) "dvd".toList (some b.world.fs.fresh)
  files : b'.world.fs.files = Function.update (Function.update b.world.fs.files inode f) b.world.fs.fresh .empty
  fresh : b'.world.fs.fresh = b.world.fs.fresh + 1
  holding : Holding b' b.world.next b.world.fs.fresh .empty

theorem Holding.changes (h : b.Holding fh inode f) (choices : Nat → Choice) :
    b.Changes (changeTurn choices) (newLun 0 "dvd".toList .dvd_r 1 0 (some fh)) f :=
  ⟨h.serves.find, rfl, rfl, rfl, fh, inode, rfl, World.volume_iff.mp h.volume⟩

/-- A disc that is not empty is changed for an empty one. -/
theorem Holding.change (h : b.Holding fh inode f) (hsize : f.size ≠ 0) (clock pid : Nat)
    (hother : b.world.fs.directory (archiveName (during clock pid)) ≠ some inode) :
    ∃ b', b.Step (changeTurn (during clock pid)) b' ∧ b.Inserted inode f (archiveName (during clock pid)) b' := by
  let ld := newLun 0 "dvd".toList .dvd_r 1 0 (some fh)
  let start : Machine Choice Space := { state := { world := b.world, data := fun _ => 0 }, choices := during clock pid }
  have hcontent := World.volume_iff.mp h.volume
  have hfh : ld.lun_fh = some fh := rfl
  have hends : (insert_new_dvd_r ld).Meets libc (·.opens = true) (fun _ => False) start.state fun _ _ => True :=
    insert_new_dvd_r_ends hfh hcontent
  obtain ⟨ld', m, hinsert, -⟩ := hends.exec_ok fun _ => rfl
  obtain ⟨s, hs⟩ := hcontent
  obtain ⟨rfl, hworld⟩ := insert_new_dvd_r_exec hfh hs hinsert
  have hhandler : (mmc_start_stop_unit 0 b.td ld (changeTurn (during clock pid)).cdb 0).exec libc start =
      .ok ({ ld := { ld with lun_fh := some b.world.next }, data_size := 0, status := 0 }, m) := by
    change (do
      let ld ← insert_new_dvd_r ld
      return { ld, data_size := 0, status := 0 } : Code Outcome).exec libc start = _
    rw [Prog.exec_bind, hinsert]
    rfl
  have hexec : (run_scsi_command 0 b.td 0 (changeTurn (during clock pid)).cdb 0).exec libc start =
      .ok ((0, putLun b.td 0 { ld with lun_fh := some b.world.next }), m) := by
    have hcmds : ld.cmds = some .mmc := rfl
    have hfunc : CommandTable.mmc.func ((changeTurn (during clock pid)).cdb.get 0) = some mmc_start_stop_unit := rfl
    rw [run_scsi_command_eq h.serves.type (findLun_eq h.serves.find) hcmds hfunc, Prog.exec_bind, hhandler]
    rfl
  have hdirectory := newImage_directory fh (archiveName (during clock pid)) h.name hsize hother
  obtain ⟨j, hstarted⟩ := newImage_started b.world fh inode f "dvd".toList (archiveName (during clock pid)) h.owned.names
  obtain rfl : b.world.fs.fresh = j := (hstarted.name_inj (by rw [hdirectory, Function.update_self])).symm
  have hfresh : m.state.world.fs.fresh = b.world.fs.fresh + 1 := by
    rw [hworld]
    rcases hstarted.origin with ⟨-, hfresh⟩ | ⟨hname, -⟩
    · exact hfresh
    · exact absurd (h.owned.names _ _ hname) (Nat.lt_irrefl _)
  refine ⟨_, .changed ld f (h.changes _) 0 _ m hexec, if_pos hsize, ?_, ?_, hfresh, ?_, h.owned.keeps hexec, ?_, ?_⟩
  · rw [hworld]
    exact hdirectory
  · rw [hworld]
    exact hstarted.files
  · rw [h.td]
    rfl
  · rw [hworld]
    exact hstarted.name
  · have hbacked : Backed { ld with lun_fh := some b.world.next } _ .empty := started_backed hstarted rfl
    obtain ⟨n, i, hn, hempty⟩ := hbacked
    obtain rfl := Option.some.inj hn
    have hi := hempty.inode?
    rw [hstarted.inode?, if_pos rfl] at hi
    obtain rfl := Option.some.inj hi
    rw [hworld]
    exact World.volume_iff.mpr hempty

theorem block_size (byte : UInt8) : (block byte).size = 2048 := by
  have hsize (n : Nat) : (File.empty.pwrite 0 (List.replicate n byte)).size = n := by
    cases n <;> simp [File.pwrite, File.empty]
  exact hsize 2048

theorem block_byte (byte : UInt8) : (block byte).bytes 0 = byte := by
  rw [block, File.pwrite_bytes, blit, if_pos (Nat.zero_le 0), List.getElem?_replicate_of_lt (by decide)]
  rfl

theorem block_inj {byte byte' : UInt8} (h : block byte = block byte') : byte = byte' := by
  rw [← block_byte byte, h, block_byte]

/-- A new DVD-R of 1 MiB. -/
def burner : Burner where
  td := dvdTarget .dvd_r
  world := ((World.oneFile "dvd".toList .empty).fopen "dvd".toList .w_plus .whole).2
  ejected := []
  changed := none

theorem burner_directory : burner.world.fs.directory = Function.update (fun _ => none) "dvd".toList (some 0) := rfl

theorem burner_holding : burner.Holding 0 0 .empty := by
  have hcontent : burner.world.Content 0 0 true .empty := World.opened_content rfl
  refine ⟨rfl, .single rfl rfl ⟨_, _, .dvd_r, _, _, _, rfl⟩ ⟨0, 0, rfl, hcontent⟩ rfl rfl rfl rfl, ?_, ?_⟩
  · rw [burner_directory, Function.update_self]
  · exact World.volume_iff.mpr hcontent

theorem burner_ready : burner.Ready := ⟨burner_holding.owned, rfl, rfl⟩

/-- A block has been written to an empty disc, and the disc has been changed. -/
structure Burned (b : Burner) (fh inode : Nat) (byte : UInt8) (choices : Nat → Choice) (b₁ b' : Burner) : Prop where
  write : b.Step (writeTurn byte choices) b₁
  directory : b₁.world.fs.directory = b.world.fs.directory
  ejected : b₁.ejected = b.ejected
  holding : b₁.Holding fh inode (block byte)
  change : b₁.Step (changeTurn choices) b'
  inserted : b₁.Inserted inode (block byte) (archiveName choices) b'

theorem Holding.burn (h : b.Holding fh inode .empty) (byte : UInt8) (clock pid : Nat)
    (hother : b.world.fs.directory (archiveName (during clock pid)) ≠ some inode) :
    ∃ b₁ b', b.Burned fh inode byte (during clock pid) b₁ b' := by
  obtain ⟨w, hwrite, hdirectory, hholding⟩ := h.write byte clock pid
  have hsize : (block byte).size ≠ 0 := by
    rw [block_size]
    decide
  obtain ⟨b', hchange, hinserted⟩ := hholding.change hsize clock pid (by rw [hdirectory]; exact hother)
  exact ⟨_, b', hwrite, hdirectory, rfl, hholding, hchange, hinserted⟩

/-- No archive has the name of the image. -/
theorem archiveName_ne_dvd (choices : Nat → Choice) : archiveName choices ≠ "dvd".toList := by
  intro heq
  have hmem : '_' ∈ archiveName choices := List.mem_append_right _ List.mem_cons_self
  rw [heq] at hmem
  revert hmem
  decide

/-- Two discs are burned, each in a time of its own. -/
theorem burned_twice (byte byte' : UInt8) (clock clock' pid : Nat) : ∃ b₁ b₂ b₃ b₄,
    burner.Burned 0 0 byte (during clock pid) b₁ b₂ ∧
      b₂.Burned b₁.world.next b₁.world.fs.fresh byte' (during clock' pid) b₃ b₄ ∧
      b₁.world.fs.directory (archiveName (during clock pid)) ≠ some 0 ∧
      b₃.world.fs.directory (archiveName (during clock' pid)) ≠ some b₁.world.fs.fresh := by
  have hempty (choices : Nat → Choice) : burner.world.fs.directory (archiveName choices) = none := by
    rw [burner_directory, Function.update_of_ne (archiveName_ne_dvd choices)]
  obtain ⟨b₁, b₂, hfirst⟩ := burner_holding.burn byte clock pid (by simp [hempty])
  have hother : b₂.world.fs.directory (archiveName (during clock' pid)) ≠ some b₁.world.fs.fresh := by
    rw [hfirst.inserted.directory, Function.update_of_ne (archiveName_ne_dvd _), hfirst.directory]
    by_cases hsame : archiveName (during clock' pid) = archiveName (during clock pid)
    · rw [hsame, Function.update_self]
      have hlt := hfirst.holding.owned.names _ _ hfirst.holding.name
      intro heq
      have hzero := Option.some.inj heq
      omega
    · rw [Function.update_of_ne hsame, hempty]
      simp
  obtain ⟨b₃, b₄, hsecond⟩ := hfirst.inserted.holding.burn byte' clock' pid hother
  refine ⟨b₁, b₂, b₃, b₄, hfirst, hsecond, ?_, ?_⟩
  · rw [hfirst.directory, hempty]
    simp
  · rw [hsecond.directory]
    exact hother

/-- A write changes no disc. -/
theorem writeTurn_safe (b : Burner) (byte : UInt8) (choices : Nat → Choice) : b.SafeTurn (writeTurn byte choices) := by
  intro ld f hchanges
  have hopcode : (cdb10 0x2a 0 1).get 0 ≠ 0x1b := by decide
  exact absurd hchanges.opcode hopcode

theorem Holding.safe (h : b.Holding fh inode f) {choices : Nat → Choice}
    (hother : b.world.fs.directory (archiveName choices) ≠ some inode)
    (hunused : ∀ d ∈ b.ejected, d.archive ≠ archiveName choices) : b.SafeTurn (changeTurn choices) := by
  intro ld g hchanges
  obtain rfl : newLun 0 "dvd".toList .dvd_r 1 0 (some fh) = ld :=
    Option.some.inj (h.serves.find.symm.trans hchanges.find)
  refine ⟨⟨fh, inode, rfl, (World.volume_iff.mp h.volume).inode?, h.name⟩, fun _ => ?_, fun _ d hd hsame => ?_⟩
  · exact fun heq => hother (heq.trans h.name)
  · exact absurd hsame (hunused d hd)

/-- Two discs that are burned in one second by one process have one name. -/
theorem burned_twice_lost {byte byte' : UInt8} (hne : byte ≠ byte') (clock pid : Nat) : ∃ trace b,
    Run Step burner trace b ∧ trace.map (·.2) = [writeTurn byte (during clock pid), changeTurn (during clock pid),
      writeTurn byte' (during clock pid), changeTurn (during clock pid)] ∧ ¬ b.NoneLost := by
  obtain ⟨b₁, b₂, b₃, b₄, hfirst, hsecond, -, -⟩ := burned_twice byte byte' clock clock pid
  refine ⟨_, b₄, (((Run.nil.snoc hfirst.write).snoc hfirst.change).snoc hsecond.write).snoc hsecond.change, rfl,
    fun hlost => ?_⟩
  have hdisc : { archive := archiveName (during clock pid), file := block byte } ∈ b₄.ejected := by
    rw [hsecond.inserted.ejected, hsecond.ejected, hfirst.inserted.ejected]
    simp
  obtain ⟨name, inode, hname, hfile⟩ := hlost.discs _ hdisc
  have hlt := hsecond.holding.owned.names _ _ hsecond.holding.name
  rw [hsecond.inserted.files] at hfile
  rw [hsecond.inserted.directory] at hname
  by_cases hdvd : name = "dvd".toList
  · -- the image is empty
    rw [hdvd, Function.update_self] at hname
    obtain rfl := Option.some.inj hname
    rw [Function.update_self] at hfile
    have hsize := congrArg File.size hfile
    rw [block_size] at hsize
    cases hsize
  · rw [Function.update_of_ne hdvd] at hname
    by_cases harchive : name = archiveName (during clock pid)
    · -- the archive holds the second disc
      rw [harchive, Function.update_self] at hname
      obtain rfl := Option.some.inj hname
      rw [Function.update_of_ne (by omega), Function.update_self] at hfile
      exact hne (block_inj hfile).symm
    · rw [Function.update_of_ne harchive, hsecond.directory, hfirst.inserted.directory, Function.update_of_ne hdvd,
        Function.update_of_ne harchive, hfirst.directory, burner_directory, Function.update_of_ne hdvd] at hname
      cases hname

end Burned

/-- No disc is lost in a run whose changes of disc are all safe. -/
theorem discs_kept (start b : Burner) (trace : List (Burner × Turn)) (hready : start.Ready)
    (hrun : Run Step start trace b) (hsafe : ∀ e ∈ trace, e.1.SafeTurn e.2) : Always NoneLost trace b :=
  hrun.always_of_steps hready.kept (fun _ h => h.noneLost) (fun _ _ _ h hturn hstep => h.step hturn hstep) hsafe

/-- Two discs that are burned a second apart are both kept. -/
theorem discs_kept_next_second : ∃ trace b, Run Step burner trace b ∧ trace.map (·.2) =
    [writeTurn 1 (during 0x5f000000 1000), changeTurn (during 0x5f000000 1000), writeTurn 2 (during 0x5f000001 1000),
      changeTurn (during 0x5f000001 1000)] ∧ b.ejected.map (·.file) = [block 2, block 1] ∧ Always NoneLost trace b := by
  obtain ⟨b₁, b₂, b₃, b₄, hfirst, hsecond, hother, hother'⟩ := burned_twice 1 2 0x5f000000 0x5f000001 1000
  have hrun := (((Run.nil.snoc hfirst.write).snoc hfirst.change).snoc hsecond.write).snoc hsecond.change
  have hejected₁ : b₁.ejected = [] := hfirst.ejected
  have hejected₃ : b₃.ejected = [{ archive := archiveName (during 0x5f000000 1000), file := block 1 }] := by
    rw [hsecond.ejected, hfirst.inserted.ejected, hejected₁]
  refine ⟨_, b₄, hrun, rfl, ?_, discs_kept _ _ _ burner_ready hrun fun e he => ?_⟩
  · rw [hsecond.inserted.ejected, hejected₃]
    rfl
  · simp only [List.nil_append, List.cons_append, List.mem_cons, List.not_mem_nil, or_false] at he
    rcases he with rfl | rfl | rfl | rfl
    · exact writeTurn_safe _ _ _
    · exact hfirst.holding.safe hother fun d hd => by rw [hejected₁] at hd; cases hd
    · exact writeTurn_safe _ _ _
    · refine hsecond.holding.safe hother' fun d hd => ?_
      rw [hejected₃] at hd
      rw [List.mem_singleton.mp hd]
      decide

/-- A DVD-R is burned twice within a second, and its first disc is lost. -/
theorem discs_lost : burner.Ready ∧
    (∃ m m', (add_lun (add_target "virtualdvd".toList TARGET_TYPE_EMULATION) 0 "dvd".toList .dvd_r 1).exec libc m =
      .ok (burner.td, m') ∧ m'.state.world = burner.world) ∧
    ∃ trace b, Run Step burner trace b ∧ trace.map (·.2) = [writeTurn 1 (during 0x5f000000 1000),
      changeTurn (during 0x5f000000 1000), writeTurn 2 (during 0x5f000000 1000), changeTurn (during 0x5f000000 1000)] ∧
      ¬ b.NoneLost :=
  ⟨burner_ready, ⟨{ state := { world := .oneFile "dvd".toList .empty, data := fun _ => 0 }, choices := fun _ => .whole },
    _, rfl, rfl⟩, burned_twice_lost (by decide) _ _⟩

end Burner

end vscsi
