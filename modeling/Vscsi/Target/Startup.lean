import Vscsi.Target.Images
import Vscsi.Target.Standby

open lib lib.Code

namespace vscsi.main

open hba api scsi scsi_target

variable {t t' td : TargetData} {w w' : World} {m m' : Machine Choice Space} {size : Int} {i : Nat} {name : FileName}
  {lunfiles : List FileName} {ld : LunData}

/-- Each LUN that the loop has added is the one its number finds. -/
theorem addLuns_found (hexists : ∀ name ∈ lunfiles, ∃ inode, m.state.world.fs.directory name = some inode)
    (hopens : Opens m) (hroom : i + lunfiles.length ≤ 256)
    (h : (addLuns t size i lunfiles).exec libc m = .ok (t', m')) (hld : ld ∈ t'.luns) :
    ld ∈ t.luns ∨ (∃ k < lunfiles.length, ld.lun = UInt8.ofNat (i + k)) ∧ t'.luns.find? (·.lun = ld.lun) = some ld := by
  induction lunfiles generalizing t i m with
  | nil =>
    cases h
    exact .inl hld
  | cons name lunfiles ih =>
    obtain ⟨inode, hname⟩ := hexists name (List.mem_cons_self ..)
    simp only [addLuns, Prog.exec_bind] at h
    cases hadd : (add_lun t i name .hd size).exec libc m with
    | error e => simp [hadd] at h
    | ok result =>
      obtain ⟨t₁, m₁⟩ := result
      simp only [hadd] at h
      obtain ⟨hopens₁, ⟨time, rfl⟩, hworld⟩ := add_lun_exec hname hopens hadd
      have hroom' : i + (lunfiles.length + 1) ≤ 256 := hroom
      have hrest : ∀ other ∈ lunfiles, ∃ inode, m₁.state.world.fs.directory other = some inode := by
        intro other hother
        rw [hworld, opened_directory]
        exact hexists other (List.mem_cons_of_mem _ hother)
      rcases ih hrest hopens₁ (by omega) h with hfirst | ⟨⟨k, hk, hnumber⟩, hfound⟩
      · rcases List.mem_cons.mp hfirst with rfl | hold
        · refine .inr ⟨⟨0, Nat.succ_pos _, rfl⟩, ?_⟩
          have hothers := (addLuns_exec hrest hopens₁ (by omega) h).others (UInt8.ofNat i)
            fun k hk => ofNat_ne (by omega) (by omega) (by omega)
          exact hothers.trans (List.find?_cons_of_pos (by simp [newLun]))
        · exact .inl hold
      · refine .inr ⟨⟨k + 1, Nat.succ_lt_succ hk, ?_⟩, hfound⟩
        rw [hnumber, Nat.add_assoc, Nat.add_comm 1 k]

/-- What is left to do when the list has been accepted. -/
theorem configure_addLuns {argv : List (List Char)} {o : Options} {filenames : List Char} (hoptions : options argv = .ok o)
    (hfilenames : o.filenames = some filenames) (hopens : Opens m)
    (h : (configure_scsi_target argv).exec libc m = .ok (td, m')) :
    ∃ st_size m₁, m₁.state = m.state ∧ Opens m₁ ∧ Accepted m.state.world (listed filenames) st_size ∧
      (addLuns (add_target "virtual20mhd".toList TARGET_TYPE_EMULATION) (int32 (st_size / (1024 * 1024) : Nat)) 0
        (listed filenames)).exec libc m₁ = .ok (td, m') := by
  simp only [configure_scsi_target, hoptions, hfilenames, Prog.exec_bind] at h
  cases hlist : (listFiles (filenames ++ [',']) [] [] 0).exec libc m with
  | error e => simp [hlist] at h
  | ok result =>
    obtain ⟨⟨lunfiles, st_size⟩, m₁⟩ := result
    simp only [hlist] at h
    obtain ⟨hstate, haccepted, hlunfiles⟩ := listFiles_exec filenames [] [] 0 (Accepted.initial _) hlist
    have hlisted : lunfiles = listed filenames := by
      obtain ⟨head, tail, hsplit⟩ := List.exists_cons_of_ne_nil (List.splitOn_ne_nil ',' filenames)
      simpa [listed, hsplit] using hlunfiles
    subst hlisted
    exact ⟨st_size, m₁, hstate, Prog.exec_fair hlist hopens, haccepted, h⟩

/-- No two names of a list are names of one file. -/
def Apart (w : World) (names : List FileName) : Prop :=
  ∀ name ∈ names, ∀ name' ∈ names, ∀ inode, w.fs.directory name = some inode → w.fs.directory name' = some inode →
    name = name'

/-- The LUN of a place: its number and its stream, which has just been opened on the
file of that place. -/
structure Placed (w w' : World) (ld : LunData) (k inode : Nat) : Prop where
  lun : ld.lun = UInt8.ofNat k
  mounted : Mounted ld w' (w.next + k) inode (w.fs.files inode)

theorem Placed.holds {k inode : Nat} (h : Placed w w' ld k inode) : HasFile ld w' inode true (w.fs.files inode) :=
  ⟨_, h.mounted.lun_fh, World.volume_iff.mp h.mounted.volume⟩

theorem Placed.inode? {k inode : Nat} (h : Placed w w' ld k inode) : w'.inode? (w.next + k) = some inode :=
  (World.volume_iff.mp h.mounted.volume).inode?

/-- A target whose LUNs are those of a list of files. -/
structure Configured (w : World) (lunfiles : List FileName) (td : TargetData) (w' : World) : Prop where
  type : td.type = TARGET_TYPE_EMULATION
  nodup : lunfiles.Nodup
  exist : ∀ name ∈ lunfiles, ∃ inode, w.fs.directory name = some inode
  placed : ∀ k name inode, lunfiles[k]? = some name → w.fs.directory name = some inode →
    ∃ ld, newest td (UInt8.ofNat k) = some ld ∧ Placed w w' ld k inode
  found : ∀ ld ∈ td.luns, newest td ld.lun = some ld ∧ ∃ k < lunfiles.length, ld.lun = UInt8.ofNat k

/-- What `configure_scsi_target` makes of files of one size. -/
theorem configured {argv : List (List Char)} {o : Options} {filenames : List Char} (hoptions : options argv = .ok o)
    (hfilenames : o.filenames = some filenames) (hopens : Opens m)
    (hexec : (configure_scsi_target argv).exec libc m = .ok (td, m')) (hsize : OneSize m.state.world (listed filenames)) :
    Configured m.state.world (listed filenames) td m'.state.world := by
  obtain ⟨st_size, m₁, hstate, hopens₁, haccepted, hadded⟩ := configure_addLuns hoptions hfilenames hopens hexec
  have hexists : ∀ name ∈ listed filenames, ∃ inode, m.state.world.fs.directory name = some inode := by
    intro name hname
    obtain ⟨mb, hsized⟩ := haccepted.sized name hname
    rw [World.size?, Option.map_eq_some_iff] at hsized
    obtain ⟨inode, hinode, -⟩ := hsized
    exact ⟨inode, hinode⟩
  have hexists₁ : ∀ name ∈ listed filenames, ∃ inode, m₁.state.world.fs.directory name = some inode := by rwa [hstate]
  have hroom : 0 + (listed filenames).length ≤ 256 := by simpa using haccepted.count
  have hattached := addLuns_exec hexists₁ hopens₁ hroom hadded
  rw [hstate] at hattached
  refine ⟨hattached.type, haccepted.nodup, hexists, fun k name inode hname hinode => ?_, fun ld hld => ?_⟩
  · obtain ⟨time, hfind, hstream⟩ := hattached.luns k name inode hname hinode
    rw [Nat.zero_add] at hfind
    obtain ⟨mb, hmax, hall⟩ := hsize
    have hmember := List.mem_of_getElem? hname
    have hleft := haccepted.size_left hall hmax hmember
    have hfiles : m'.state.world.fs.files = m.state.world.fs.files :=
      hattached.files fun name hname => ⟨mb * (1024 * 1024), hall name hname, by omega⟩
    have hbytes : (m.state.world.fs.files inode).size = mb * (1024 * 1024) := by
      have hfound := hall name hmember
      rw [World.size?, hinode, Option.map_some] at hfound
      exact Option.some.inj hfound
    rw [hleft] at hfind
    exact ⟨_, hfind, rfl, newLun_mounted hbytes hstream hfiles⟩
  · rcases addLuns_found hexists₁ hopens₁ hroom hadded hld with hnone | ⟨⟨k, hk, hlun⟩, hfound⟩
    · cases hnone
    · exact ⟨hfound, k, hk, by rw [hlun, Nat.zero_add]⟩

/-- Each LUN has its place. -/
theorem Configured.place (h : Configured w lunfiles td w') (hld : ld ∈ td.luns) : ∃ k name inode,
    lunfiles[k]? = some name ∧ w.fs.directory name = some inode ∧ Placed w w' ld k inode := by
  obtain ⟨hfound, k, hk, hlun⟩ := h.found ld hld
  have hname : lunfiles[k]? = some lunfiles[k] := List.getElem?_eq_getElem hk
  obtain ⟨inode, hinode⟩ := h.exist _ (List.mem_of_getElem? hname)
  obtain ⟨ld', hfind, hplaced⟩ := h.placed k _ inode hname hinode
  rw [← hlun, hfound] at hfind
  obtain rfl := Option.some.inj hfind
  exact ⟨k, _, inode, hname, hinode, hplaced⟩

/-- Its LUNs have numbers, streams and files of their own. -/
theorem Configured.volumes (h : Configured w lunfiles td w') (hapart : Apart w lunfiles) : Volumes td w' := by
  have hnumbers : ∀ ld ∈ td.luns, ∀ ld' ∈ td.luns, ld.lun = ld'.lun → ld = ld' := by
    intro ld hld ld' hld' hsame
    have hfound := (h.found ld hld).1
    rw [hsame, (h.found ld' hld').1] at hfound
    exact (Option.some.inj hfound).symm
  have hplaces {ld ld' : LunData} {k k' inode inode' : Nat} (hld : ld ∈ td.luns) (hld' : ld' ∈ td.luns) (hne : ld ≠ ld')
      (hk : Placed w w' ld k inode) (hk' : Placed w w' ld' k' inode') : k ≠ k' := by
    rintro rfl
    exact hne (hnumbers ld hld ld' hld' (hk.lun.trans hk'.lun.symm))
  refine ⟨h.type, fun ld hld => ?_, hnumbers, fun ld hld ld' hld' hne hsame => ?_, fun ld hld ld' hld' hne => ?_,
    fun ld hld => ?_⟩
  · obtain ⟨k, name, inode, -, -, hk⟩ := h.place hld
    exact ⟨.sbc, hk.mounted.cmds⟩
  · obtain ⟨k, name, inode, -, -, hk⟩ := h.place hld
    obtain ⟨k', name', inode', -, -, hk'⟩ := h.place hld'
    rw [hk.mounted.lun_fh, hk'.mounted.lun_fh, Option.some.injEq, Nat.add_left_cancel_iff] at hsame
    exact hplaces hld hld' hne hk hk' hsame
  · obtain ⟨k, name, inode, hname, hinode, hk⟩ := h.place hld
    obtain ⟨k', name', inode', hname', hinode', hk'⟩ := h.place hld'
    rintro fh fh' i hfh hfh' hi hi'
    obtain rfl := Option.some.inj (hk.mounted.lun_fh.symm.trans hfh)
    obtain rfl := Option.some.inj (hk'.mounted.lun_fh.symm.trans hfh')
    obtain rfl : inode = i := Option.some.inj (hk.inode?.symm.trans hi)
    obtain rfl : inode' = inode := Option.some.inj (hk'.inode?.symm.trans hi')
    obtain rfl := hapart name (List.mem_of_getElem? hname) name' (List.mem_of_getElem? hname') inode' hinode hinode'
    have hlt : k < lunfiles.length := (List.getElem?_eq_some_iff.mp hname).1
    exact hplaces hld hld' hne hk hk' ((List.getElem?_inj hlt h.nodup).mp (hname.trans hname'.symm))
  · obtain ⟨k, name, inode, -, -, hk⟩ := h.place hld
    exact ⟨inode, true, _, hk.holds⟩

/-- They are disks. -/
theorem Configured.disks (h : Configured w lunfiles td w') (hapart : Apart w lunfiles) : Disks td w' where
  type := h.type
  numbers := (h.volumes hapart).numbers
  streams := (h.volumes hapart).streams
  files := (h.volumes hapart).files
  mounted ld hld _ := by
    obtain ⟨k, name, inode, -, -, hk⟩ := h.place hld
    exact ⟨_, inode, _, hk.mounted⟩

theorem Configured.sbc (h : Configured w lunfiles td w') (hld : ld ∈ td.luns) : ld.cmds = some .sbc := by
  obtain ⟨k, name, inode, -, -, hk⟩ := h.place hld
  exact hk.mounted.cmds

/-- The LUN of each place has the bytes of the file of that place. -/
theorem Configured.bytes (h : Configured w lunfiles td w') {d : Images} (hd : d.In td w') {k inode : Nat}
    (hname : lunfiles[k]? = some name) (hinode : w.fs.directory name = some inode) :
    d (UInt8.ofNat k) = (w.fs.files inode).bytes := by
  obtain ⟨ld, hfind, hplaced⟩ := h.placed k name inode hname hinode
  obtain ⟨inode', writable, f, hholds, hbytes⟩ := hd.bytes ld (List.mem_of_find?_eq_some hfind)
  obtain ⟨rfl, rfl, rfl⟩ := hplaced.holds.unique hholds
  rw [← hplaced.lun, ← hbytes]

/-- A process that has been configured, on a session. -/
def started (hba : Hba) (td : TargetData) (w : World) : System (targets Unit) where
  hba := hba
  shared :=
    { fs := w.fs
      streams := fun _ => w.streams
      next := fun _ => w.next
      td := fun _ => td
      journal := [] }
  procs _ := { phase := .polling, task := register_scsi_host }

/-- From the command line to the bytes: a target started on files of one size, with no
two names for one file, serves them to the mid layer as arrays of bytes, the file of
each place under the number of that place. -/
theorem files_served {argv : List (List Char)} {o : Options} {filenames : List Char} (hoptions : options argv = .ok o)
    (hfilenames : o.filenames = some filenames) (hopens : Opens m)
    (hexec : (configure_scsi_target argv).exec libc m = .ok (td, m')) (hsize : OneSize m.state.world (listed filenames))
    (hapart : Apart m.state.world (listed filenames)) {k : Hba} (hattached : (started k td m'.state.world).Attached)
    {trace : List (System (targets Unit) × Act Unit)} {s : System (targets Unit)}
    (hrun : Run System.Step (started k td m'.state.world) trace s)
    (hsteps : ∀ e ∈ trace, e.1.Plain e.2 ∧ e.1.Fitting td e.2) :
    ∃ d d' : Images, Performs (Images.Step td) d (seen System.returned? trace) d' ∧
      (∀ (i : Nat) name inode, (listed filenames)[i]? = some name → m.state.world.fs.directory name = some inode →
        d (UInt8.ofNat i) = (m.state.world.fs.files inode).bytes) ∧
      ((∀ call loc, (s.procs ()).phase ≠ .running call loc) →
        (∀ call status data, (s.procs ()).phase ≠ .completing call status data) → d'.In td (s.shared.world ())) := by
  have hconfigured := configured hoptions hfilenames hopens hexec hsize
  obtain ⟨d, hd⟩ := (hconfigured.volumes hapart).images
  obtain ⟨d', hperforms, hrest⟩ := (hattached.holding rfl hd).run hrun hsteps
  exact ⟨d, d', hperforms, fun i name inode hname hinode => hconfigured.bytes hd hname hinode, hrest⟩

theorem started_standby {k : Hba} (hattached : (started k td w').Attached) (h : Configured w lunfiles td w')
    (hapart : Apart w lunfiles) : (started k td w').Standby td :=
  ⟨⟨.attached hattached, by rw [hattached.polling], hattached.empty⟩, rfl, h.disks hapart⟩

theorem started_attached (td : TargetData) (w : World) : (started oneTarget td w).Attached where
  reachable := ⟨.fresh, Hba.fresh_initial, lib.Reachable.refl.tail Hba.register_step⟩
  serving := ⟨rfl, rfl, rfl⟩
  empty := rfl
  polling := fun _ => rfl

/-- What two images of one MiB make of a target. -/
theorem twoImages_configured : options twoImagesArgs = .ok { Options.initial with
      selection := 3, devname := some "/dev/scsitap".toList, filenames := some "a,b".toList } ∧
    OneSize (twoImages 1 1).state.world (listed "a,b".toList) ∧ Apart (twoImages 1 1).state.world (listed "a,b".toList) ∧
    ∃ td m', (configure_scsi_target twoImagesArgs).exec libc (twoImages 1 1) = .ok (td, m') := by
  have hlisted : listed "a,b".toList = ["a".toList, "b".toList] := by decide
  refine ⟨rfl, ⟨1, by decide, fun name hname => ?_⟩, ?_, _, _, rfl⟩
  · rw [hlisted] at hname
    rcases List.mem_pair.mp hname with rfl | rfl <;> rfl
  · rw [hlisted]
    intro name hname name' hname' inode hinode hinode'
    rcases List.mem_pair.mp hname with rfl | rfl <;> rcases List.mem_pair.mp hname' with rfl | rfl
    · rfl
    · cases hinode.trans hinode'.symm
    · cases hinode.trans hinode'.symm
    · rfl

/-- A block of the second image is written and read back. -/
theorem files_served_two_images : ∃ td m' s d d' trace r₁ r₂,
    (configure_scsi_target twoImagesArgs).exec libc (twoImages 1 1) = .ok (td, m') ∧
    Run System.Step (started oneTarget td m'.state.world) trace s ∧ seen System.returned? trace = [r₁, r₂] ∧
    r₁.request = (oneBlock .write10 1).request ∧ r₁.result = 0 ∧ r₁.sent = List.replicate 512 0xff ∧
    r₂.request = (oneBlock .read10 1).request ∧ r₂.result = 0 ∧ r₂.received = List.replicate 512 0xff ∧
    Performs (Images.Step td) d [r₁, r₂] d' ∧ d 0 = (File.empty.truncate (1024 * 1024)).bytes ∧
    d'.In td (s.shared.world ()) := by
  obtain ⟨hoptions, hsize, hapart, td, m', hexec⟩ := twoImages_configured
  have hconfigured := configured hoptions rfl (fun _ => rfl) hexec hsize
  have hsbc : ∀ ld ∈ td.luns, ld.cmds = some .sbc := fun ld hld => hconfigured.sbc hld
  obtain ⟨ld, hfind, hlun, hmounted⟩ := hconfigured.placed 1 "b".toList 1 rfl rfl
  have hld := List.mem_of_find?_eq_some hfind
  have hone : ld.lun = 1 := hlun
  -- the two commands, one after the other
  have hstandby := started_standby (started_attached td m'.state.world) hconfigured hapart
  obtain ⟨trace₁, s₁, hwrite, hstandby₁⟩ :=
    hstandby.serves_oneBlock hsbc hld (show MediaCommand.write10 ≠ .write12 by decide) fun _ => 0xff
  obtain ⟨trace₂, s₂, hread, -⟩ :=
    hstandby₁.serves_oneBlock hsbc hld (show MediaCommand.read10 ≠ .write12 by decide) fun _ => 0
  rw [hone] at hwrite hread
  obtain ⟨r₁, hseen₁, hrequest₁, hsent₁⟩ := hwrite.seen
  obtain ⟨r₂, hseen₂, hrequest₂, -⟩ := hread.seen
  have hrun := hwrite.run.append hread.run
  have hseen : seen System.returned? (trace₁ ++ trace₂) = [r₁, r₂] := by
    rw [seen, List.filterMap_append, ← seen, ← seen, hseen₁, hseen₂, List.singleton_append]
  have hones : r₁.sent = List.replicate 512 0xff := hsent₁.trans (slice_const 0xff 0 512)
  obtain ⟨d, d', hperforms, hbytes, hrest⟩ := files_served hoptions rfl (fun _ => rfl) hexec hsize hapart
    (started_attached td m'.state.world) hrun fun e he => (List.mem_append.mp he).elim (hwrite.steps e) (hread.steps e)
  rw [hseen] at hperforms
  -- what they come back with
  obtain ⟨d₁, hfirst, hsecond⟩ := Performs.last (show Performs (Images.Step td) d ([r₁] ++ [r₂]) d' from hperforms)
  obtain ⟨d₀, hstart, hstep⟩ := Performs.last (show Performs (Images.Step td) d ([] ++ [r₁]) d₁ from hfirst)
  obtain rfl := hstart.nil_eq
  have hbound : 512 ≤ bound ld := by
    rw [bound_eq, ← hmounted.size]
    decide
  obtain ⟨hresult₁, -, hwritten⟩ := oneBlock_images hstep (by decide) hrequest₁ hfind hmounted hbound
  obtain ⟨hresult₂, hgot, -⟩ := oneBlock_images hsecond (by decide) hrequest₂ hfind hmounted hbound
  have hreceived : r₂.received = List.replicate 512 0xff := by
    have hslice := slice_blit (d₀ 1) 0 (List.replicate 512 (0xff : UInt8))
    rw [List.length_replicate] at hslice
    rw [(hgot rfl).1, hwritten (by decide), Function.update_self, hones, hslice]
  exact ⟨td, m', _, _, d', _, r₁, r₂, hexec, hrun, hseen, hrequest₁, hresult₁, hones, hrequest₂, hresult₂, hreceived,
    hperforms, hbytes 0 "a".toList 0 rfl rfl, hrest (by simp [hread.waits.polling]) (by simp [hread.waits.polling])⟩

end vscsi.main
