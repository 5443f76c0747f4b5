import Vscsi.Scsi.Commands
import Vscsi.Target.Configure

open lib lib.Code

namespace vscsi.main

open scsi scsi_target

/-- READ CAPACITY(10) on a LUN reports a file of this size. -/
def ReportsCapacity (td : TargetData) (lun : UInt8) (w : World) (size : Nat) : Prop :=
  ∀ (fuel : Nat) (cdb : Cdb) (data_size : Int) (before : Machine Choice Space),
    cdb.get 0 = 0x25 → before.state.world = w → before.Fair Choice.Progress →
    ∃ m, (run_scsi_command fuel td lun cdb data_size).exec libc before = .ok ((0, td), m) ∧
      slice m.state.data 0 8 = be 4 (size / 512 - 1) ++ be 4 512

/-- A LUN works on a file that has not changed, and knows the size of it. -/
structure Backing (w : World) (td : TargetData) (w' : World) (lun : UInt8) (name : FileName) (inode : Nat) (ld : LunData) :
    Prop where
  find : findLun td lun = some ld
  filename : ld.filename = name
  stream : ∃ fh, ld.lun_fh = some fh ∧ w'.inode? fh = some inode
  directory : w'.fs.directory name = some inode
  file : w'.fs.files inode = w.fs.files inode
  lunsizeinmb : ld.lunsizeinmb = ((w.fs.files inode).size / (1024 * 1024) : Nat)
  capacity : 512 ≤ (w.fs.files inode).size → (w.fs.files inode).size ≤ 2 ^ 41 →
    ReportsCapacity td lun w' (w.fs.files inode).size

/-- Every file of a list is still what it was, behind the LUN of its place. -/
def Intact (w : World) (lunfiles : List FileName) (td : TargetData) (w' : World) : Prop :=
  ∀ i name inode, lunfiles[i]? = some name → w.fs.directory name = some inode →
    ∃ ld, Backing w td w' (UInt8.ofNat i) name inode ld

/-- All files have one size, whose number of MiB an `int` can hold. -/
def OneSize (w : World) (lunfiles : List FileName) : Prop :=
  ∃ mb < 2 ^ 31, ∀ name ∈ lunfiles, w.size? name = some (mb * (1024 * 1024))

/-- Every open succeeds. -/
def Opens (m : Machine Choice Space) : Prop := m.Fair fun choice => choice.opens = true

/-- What adding disks of one size, from a number on, makes of a target and its
world. -/
structure Attached (size : Int) (i : Nat) (lunfiles : List FileName) (t : TargetData) (w : World) (t' : TargetData)
    (w' : World) : Prop where
  type : t'.type = t.type
  others : ∀ n, (∀ k < lunfiles.length, UInt8.ofNat (i + k) ≠ n) →
    t'.luns.find? (·.lun = n) = t.luns.find? (·.lun = n)
  streams : ∀ fh < w.next, w'.streams fh = w.streams fh
  directory : w'.fs.directory = w.fs.directory
  luns : ∀ k name inode, lunfiles[k]? = some name → w.fs.directory name = some inode → ∃ time,
    t'.luns.find? (·.lun = UInt8.ofNat (i + k)) =
      some (newLun (UInt8.ofNat (i + k)) name .hd size time (some (w.next + k))) ∧
    w'.streams (w.next + k) = some (.opened inode true)
  files : (∀ name ∈ lunfiles, ∃ bytes : Nat, w.size? name = some bytes ∧ (bytes : Int) = size * 1024 * 1024) →
    w'.fs.files = w.fs.files

variable {t t' td : TargetData} {w w' : World} {m m' : Machine Choice Space} {size : Int} {i : Nat} {name : FileName}
  {lunfiles : List FileName}

theorem ofInt_natCast (i : Nat) : UInt8.ofInt i = UInt8.ofNat i := by
  have hmod : ((i : Int) % 2 ^ 8).toNat = i % 2 ^ 8 := by omega
  rw [UInt8.ofInt, hmod]
  apply UInt8.toNat_inj.mp
  simp

/-- Numbers of LUNs stay apart, as there are no more than 256. -/
theorem ofNat_ne {i j : Nat} (hi : i < 256) (hj : j < 256) (hne : i ≠ j) : UInt8.ofNat i ≠ UInt8.ofNat j := by
  intro heq
  have hsame := congrArg UInt8.toNat heq
  simp only [UInt8.toNat_ofNat'] at hsame
  omega

/-- The world in which a disk has just been opened and sized. -/
def opened (w : World) (name : FileName) (inode : Nat) (size : Int) : World :=
  World.truncate { w.setStream w.next (some (.opened inode true)) with next := w.next + 1 } name (size * 1024 * 1024)

theorem opened_directory (w : World) (name other : FileName) (inode : Nat) (size : Int) :
    (opened w name inode size).fs.directory other = w.fs.directory other := by
  unfold opened World.truncate
  split
  · rfl
  · split <;> rfl

theorem opened_streams (w : World) (name : FileName) (inode : Nat) (size : Int) :
    (opened w name inode size).streams = Function.update w.streams w.next (some (.opened inode true)) := by
  unfold opened World.truncate
  split
  · rfl
  · split <;> rfl

theorem opened_next (w : World) (name : FileName) (inode : Nat) (size : Int) :
    (opened w name inode size).next = w.next + 1 := by
  unfold opened World.truncate
  split
  · rfl
  · split <;> rfl

/-- A file of the right size is kept. -/
theorem opened_files {inode bytes : Nat} (hsize : w.size? name = some bytes) (hbytes : (bytes : Int) = size * 1024 * 1024) :
    (opened w name inode size).fs.files = w.fs.files := by
  rw [World.size?, Option.map_eq_some_iff] at hsize
  obtain ⟨own, hname, rfl⟩ := hsize
  have hnonneg : ¬ size * 1024 * 1024 < 0 := by omega
  have hsame : (w.fs.files own).truncate (size * 1024 * 1024).toNat = w.fs.files own := by
    rw [← hbytes, Int.toNat_natCast, File.truncate_size]
  have hdirectory : w.fs.directory name = some own := hname
  simp only [opened, World.truncate, World.setStream, hdirectory, hnonneg, if_false, World.setFile, hsame,
    Function.update_eq_self]

/-- A disk whose file exists gets a stream on it. -/
theorem add_lun_exec {inode : Nat} (hname : m.state.world.fs.directory name = some inode) (hopens : Opens m)
    (h : (add_lun t i name .hd size).exec libc m = .ok (t', m')) : Opens m' ∧
      (∃ time, t' = { t with
        luns := newLun (UInt8.ofNat i) name .hd size time (some m.state.world.next) :: t.luns }) ∧
      m'.state.world = opened m.state.world name inode size := by
  refine ⟨Prog.exec_fair h hopens, ?_⟩
  have hopen : m.state.world.fopen name .r_plus (m.choices 1) = (some m.state.world.next,
      { m.state.world.setStream m.state.world.next (some (.opened inode true)) with
        next := m.state.world.next + 1 }) := by
    simp [World.fopen, hopens 1, hname]
  simp only [add_lun, openDisk, Prog.exec_bind, exec_time, exec_fopen, next, Nat.zero_add, hopen, Option.isSome_some,
    if_true, Prog.pure_eq, Prog.exec_ret, Option.isNone_some, Bool.false_eq_true, if_false, exec_truncate,
    Except.ok.injEq, Prod.mk.injEq, ofInt_natCast] at h
  obtain ⟨rfl, rfl⟩ := h
  exact ⟨⟨_, rfl⟩, rfl⟩

/-- One more disk in front of the others. -/
theorem Attached.cons {inode time : Nat} (hname : w.fs.directory name = some inode)
    (hroom : i + (lunfiles.length + 1) ≤ 256) (h : Attached size (i + 1) lunfiles
      { t with luns := newLun (UInt8.ofNat i) name .hd size time (some w.next) :: t.luns } (opened w name inode size) t' w') :
    Attached size i (name :: lunfiles) t w t' w' where
  type := h.type
  others n hn := by
    have hself : UInt8.ofNat i ≠ n := hn 0 (Nat.succ_pos _)
    have hrest : ∀ k < lunfiles.length, UInt8.ofNat (i + 1 + k) ≠ n := by
      intro k hk
      have hnext := hn (k + 1) (Nat.succ_lt_succ hk)
      rwa [show i + (k + 1) = i + 1 + k by omega] at hnext
    rw [h.others n hrest, List.find?_cons_of_neg]
    exact fun hfound => hself (of_decide_eq_true hfound)
  streams fh hfh := by
    rw [h.streams fh (by rw [opened_next]; omega), opened_streams, Function.update_of_ne (by omega)]
  directory := by
    funext other
    rw [h.directory, opened_directory]
  luns k other own hk hown := by
    cases k with
    | zero =>
      obtain rfl : name = other := by simpa using hk
      obtain rfl : inode = own := Option.some.inj (hname.symm.trans hown)
      refine ⟨time, ?_, ?_⟩
      · rw [h.others _ fun k hk => ofNat_ne (by omega) (by omega) (by omega)]
        exact List.find?_cons_of_pos (by simp [newLun])
      · rw [Nat.add_zero, h.streams _ (by rw [opened_next]; omega), opened_streams, Function.update_self]
    | succ k =>
      have hrest := h.luns k other own (by simpa using hk) (by rw [opened_directory, hown])
      rw [opened_next] at hrest
      rwa [show i + (k + 1) = i + 1 + k by omega, show w.next + (k + 1) = w.next + 1 + k by omega]
  files hall := by
    obtain ⟨bytes, hsize, hbytes⟩ := hall name (List.mem_cons_self ..)
    have hkept : (opened w name inode size).fs.files = w.fs.files := opened_files hsize hbytes
    rw [h.files, hkept]
    intro other hother
    rw [World.size?, opened_directory, hkept]
    exact hall other (List.mem_cons_of_mem _ hother)

/-- The loop attaches one disk after the other. -/
theorem addLuns_exec (hexists : ∀ name ∈ lunfiles, ∃ inode, m.state.world.fs.directory name = some inode)
    (hopens : Opens m) (hroom : i + lunfiles.length ≤ 256)
    (h : (addLuns t size i lunfiles).exec libc m = .ok (t', m')) :
    Attached size i lunfiles t m.state.world t' m'.state.world := by
  induction lunfiles generalizing t i m with
  | nil =>
    cases h
    exact ⟨rfl, fun _ _ => rfl, fun _ _ => rfl, rfl, nofun, fun _ => rfl⟩
  | cons name lunfiles ih =>
    obtain ⟨inode, hname⟩ := hexists name (List.mem_cons_self ..)
    simp only [addLuns, Prog.exec_bind] at h
    cases hadd : (add_lun t i name .hd size).exec libc m with
    | error e => simp [hadd] at h
    | ok result =>
      obtain ⟨t₁, m₁⟩ := result
      simp only [hadd] at h
      obtain ⟨hopens₁, ⟨time, rfl⟩, hworld⟩ := add_lun_exec hname hopens hadd
      have hroom' : i + (lunfiles.length + 1) ≤ 256 := hroom
      have hrest := ih (fun other hother => by
        rw [hworld, opened_directory]
        exact hexists other (List.mem_cons_of_mem _ hother)) hopens₁ (by omega) h
      rw [hworld] at hrest
      exact hrest.cons hname hroom'

/-- What `configure_scsi_target` makes of the files it has accepted. -/
theorem configure_exec {argv : List (List Char)} {o : Options} {filenames : List Char} (hoptions : options argv = .ok o)
    (hfilenames : o.filenames = some filenames) (hopens : Opens m)
    (h : (configure_scsi_target argv).exec libc m = .ok (td, m')) : ∃ st_size,
      Accepted m.state.world (listed filenames) st_size ∧
      Attached (int32 (st_size / (1024 * 1024) : Nat)) 0 (listed filenames)
        (add_target "virtual20mhd".toList TARGET_TYPE_EMULATION) m.state.world td m'.state.world := by
  simp only [configure_scsi_target, hoptions, hfilenames, Prog.exec_bind] at h
  cases hlist : (listFiles (filenames ++ [',']) [] [] 0).exec libc m with
  | error e => simp [hlist] at h
  | ok result =>
    obtain ⟨⟨lunfiles, st_size⟩, m₁⟩ := result
    simp only [hlist] at h
    obtain ⟨hstate, haccepted, hlunfiles⟩ := listFiles_exec filenames [] [] 0 (Accepted.initial _) hlist
    have hlisted : lunfiles = listed filenames := by
      obtain ⟨head, tail, hsplit⟩ := List.exists_cons_of_ne_nil (List.splitOn_ne_nil ',' filenames)
      simpa [listed, hsplit] using hlunfiles
    subst hlisted
    refine ⟨st_size, haccepted, ?_⟩
    rw [← hstate]
    refine addLuns_exec (fun name hname => ?_) (Prog.exec_fair hlist hopens) (by simpa using haccepted.count) h
    obtain ⟨mb, hsize⟩ := haccepted.sized name hname
    rw [World.size?, Option.map_eq_some_iff] at hsize
    obtain ⟨inode, hinode, -⟩ := hsize
    exact ⟨inode, by rw [hstate, hinode]⟩

/-- Of files of one size any gives the number of MiB that is left over. -/
theorem Accepted.size_left {st_size mb : Nat} (h : Accepted w lunfiles st_size)
    (hall : ∀ name ∈ lunfiles, w.size? name = some (mb * (1024 * 1024))) (hmax : mb < 2 ^ 31) (hname : name ∈ lunfiles) :
    int32 (st_size / (1024 * 1024) : Nat) = mb := by
  obtain ⟨last, hlast⟩ := List.getLast?_isSome.mpr (List.ne_nil_of_mem hname) |> Option.isSome_iff_exists.mp
  have hlastsize := (h.last last hlast).symm.trans (hall last (List.mem_of_getLast? hlast))
  rw [Option.some.inj hlastsize, Nat.mul_div_cancel _ (by decide)]
  exact int32_of_range (by omega) (by omega)

/-- A new disk is mounted on the file that its stream has been opened on. -/
theorem newLun_mounted {n : UInt8} {mb fh inode time : Nat} (hsize : (w.fs.files inode).size = mb * (1024 * 1024))
    (hstream : w'.streams fh = some (.opened inode true)) (hfiles : w'.fs.files = w.fs.files) :
    Mounted (newLun n name .hd mb time (some fh)) w' fh inode (w.fs.files inode) := by
  refine ⟨rfl, rfl, rfl, ?_, .opened inode true, hstream, rfl, rfl, Stream.Coherent.opened _ _ _, ?_⟩
  · change ((w.fs.files inode).size : Int) = (mb : Int) * 1024 * 1024
    rw [hsize]
    omega
  · rw [hfiles, Stream.contents, Stream.opened, File.pwrite_nil]

/-- READ CAPACITY(10) finds the size of a file that a LUN is mounted on. -/
theorem reportsCapacity {lun : UInt8} {ld : LunData} {fh inode : Nat} {f : File} (hserves : Serves td lun ld)
    (hmounted : Mounted ld w fh inode f) (hsize : f.size % 512 = 0) (hpos : 512 ≤ f.size) (hmax : f.size ≤ 2 ^ 41) :
    ReportsCapacity td lun w f.size := by
  intro fuel cdb data_size before hopcode hworld hfair
  subst hworld
  have hblocks : f.size = f.size / 512 * 512 := by omega
  obtain ⟨r, m, hexec, -, rfl, -, hdata⟩ := (run_capacity_ends hserves hmounted hopcode fuel data_size hblocks
    (by omega) (by omega)).exec_ok hfair
  exact ⟨m, hexec, hdata⟩

/-- Start-up leaves every image as it was, and tells its size, exactly when all
of them have the size of the last. -/
theorem startup_intact_iff {argv : List (List Char)} {o : Options} {filenames : List Char} (hoptions : options argv = .ok o)
    (hfilenames : o.filenames = some filenames) (hopens : Opens m)
    (hexec : (configure_scsi_target argv).exec libc m = .ok (td, m')) :
    Intact m.state.world (listed filenames) td m'.state.world ↔ OneSize m.state.world (listed filenames) := by
  obtain ⟨st_size, haccepted, hattached⟩ := configure_exec hoptions hfilenames hopens hexec
  -- a name on the list stands for a file of a whole number of MiB
  have hsized : ∀ name ∈ listed filenames, ∃ inode mb, m.state.world.fs.directory name = some inode ∧
      (m.state.world.fs.files inode).size = mb * (1024 * 1024) := by
    intro name hname
    obtain ⟨mb, hsize⟩ := haccepted.sized name hname
    rw [World.size?, Option.map_eq_some_iff] at hsize
    obtain ⟨inode, hinode, hmb⟩ := hsize
    exact ⟨inode, mb, hinode, hmb⟩
  constructor
  · intro hintact
    refine ⟨(int32 (st_size / (1024 * 1024) : Nat)).toNat, ?_, fun name hname => ?_⟩
    · have hlt := int32_lt (st_size / (1024 * 1024) : Nat)
      omega
    · obtain ⟨inode, mb, hinode, hmb⟩ := hsized name hname
      obtain ⟨i, hi⟩ := List.mem_iff_getElem?.mp hname
      obtain ⟨ld, hbacking⟩ := hintact i name inode hi hinode
      obtain ⟨time, hfind, -⟩ := hattached.luns i name inode hi hinode
      have hld := Option.some.inj (hbacking.find.symm.trans (findLun_eq (by rwa [Nat.zero_add] at hfind)))
      have hlunsize := hbacking.lunsizeinmb
      rw [hld, hmb, Nat.mul_div_cancel _ (by decide)] at hlunsize
      simp only [newLun] at hlunsize
      rw [World.size?, hinode, Option.map_some, hmb, hlunsize, Int.toNat_natCast]
  · rintro ⟨mb, hmax, hall⟩ i name inode hi hinode
    have hname := List.mem_of_getElem? hi
    have hsize : (m.state.world.fs.files inode).size = mb * (1024 * 1024) := by
      have hfound := hall name hname
      rw [World.size?, hinode, Option.map_some] at hfound
      exact Option.some.inj hfound
    rw [haccepted.size_left hall hmax hname] at hattached
    obtain ⟨time, hfind, hstream⟩ := hattached.luns i name inode hi hinode
    rw [Nat.zero_add] at hfind
    have hfiles := hattached.files fun name hname => ⟨mb * (1024 * 1024), hall name hname, by omega⟩
    have hserves : Serves td (UInt8.ofNat i) _ := ⟨hattached.type, hfind⟩
    have hmounted : Mounted (newLun (UInt8.ofNat i) name .hd mb time (some (m.state.world.next + i))) m'.state.world
        (m.state.world.next + i) inode (m.state.world.fs.files inode) := newLun_mounted hsize hstream hfiles
    refine ⟨_, findLun_eq hfind, rfl, ⟨_, rfl, ?_⟩, ?_, ?_, ?_, fun hpos hcount => ?_⟩
    · rw [World.inode?, hstream, Option.map_some, Stream.opened]
    · rw [hattached.directory, hinode]
    · rw [hfiles]
    · rw [hsize, Nat.mul_div_cancel _ (by decide)]
      rfl
    · exact reportsCapacity hserves hmounted (by omega) hpos hcount

/-- A process that starts where there are two images, of so many MiB. -/
def twoImages (first second : Nat) : Machine Choice Space where
  state :=
    { world :=
        { fs :=
            { directory := Function.update (Function.update (fun _ => none) "a".toList (some 0)) "b".toList (some 1)
              files := fun inode => File.empty.truncate ((if inode = 0 then first else second) * (1024 * 1024))
              fresh := 2 }
          streams := fun _ => none
          next := 0 }
      data := fun _ => 0 }
  choices _ := .whole

/-- The arguments that name them both. -/
def twoImagesArgs : List (List Char) := ["-dev".toList, "/dev/scsitap".toList, "-files".toList, "a,b".toList]

theorem startup_intact_two_equal : ∃ td m', (configure_scsi_target twoImagesArgs).exec libc (twoImages 1 1) = .ok (td, m') ∧
    Intact (twoImages 1 1).state.world (listed "a,b".toList) td m'.state.world := by
  have hoptions : options twoImagesArgs = .ok { Options.initial with
      selection := 3, devname := some "/dev/scsitap".toList, filenames := some "a,b".toList } := rfl
  have haccepted : ∃ td m', (configure_scsi_target twoImagesArgs).exec libc (twoImages 1 1) = .ok (td, m') := ⟨_, _, rfl⟩
  obtain ⟨td, m', hexec⟩ := haccepted
  refine ⟨td, m', hexec, (startup_intact_iff hoptions rfl (fun _ => rfl) hexec).mpr ⟨1, by decide, ?_⟩⟩
  have hlisted : listed "a,b".toList = ["a".toList, "b".toList] := by decide
  intro name hname
  rw [hlisted] at hname
  rcases List.mem_pair.mp hname with rfl | rfl <;> rfl

/-- The first of two images is cut to the size of the second. -/
theorem startup_cuts_image : ∃ td m', options twoImagesArgs = .ok { Options.initial with
      selection := 3, devname := some "/dev/scsitap".toList, filenames := some "a,b".toList } ∧ Opens (twoImages 2 1) ∧
    (configure_scsi_target twoImagesArgs).exec libc (twoImages 2 1) = .ok (td, m') ∧
    (twoImages 2 1).state.world.size? "a".toList = some (2 * (1024 * 1024)) ∧
    m'.state.world.size? "a".toList = some (1024 * 1024) ∧
    ¬ Intact (twoImages 2 1).state.world (listed "a,b".toList) td m'.state.world := by
  refine ⟨_, _, rfl, fun _ => rfl, rfl, by decide, by decide, fun hintact => ?_⟩
  obtain ⟨ld, hbacking⟩ := hintact 0 "a".toList 0 rfl rfl
  exact absurd (congrArg File.size hbacking.file) (by decide)

end vscsi.main
