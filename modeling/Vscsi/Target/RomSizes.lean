import Vscsi.Scsi.Termination
import Vscsi.Target.Owned

open lib lib.Code

namespace vscsi.scsi_target

open scsi

/-- A LUN of a target, with the image it is opened on. -/
structure Disc where
  target : TargetData
  lun : UInt8
  world : World
  image : File

/-- A command on a LUN that has come back. -/
def Commanded (lun : UInt8) (s : TargetData × World) (cdb : Cdb) (s' : TargetData × World) : Prop :=
  ∃ fuel data_size data choices status m',
    (run_scsi_command fuel s.1 lun cdb data_size).exec libc { state := { world := s.2, data }, choices } =
      .ok ((status, s'.1), m') ∧ m'.state.world = s'.2

namespace Disc

/-- A DVD-ROM as `add_lun` opens it. -/
def IsRom (d : Disc) : Prop := ∃ ld, Serves d.target d.lun ld ∧ Opened .dvd_rom ld d.world d.image

/-- A DVD-ROM after any commands on it. -/
def IsUsedRom (d : Disc) : Prop :=
  ∃ td w, IsRom { d with target := td, world := w } ∧ Reachable (Commanded d.lun) (td, w) (d.target, d.world)

def blocks (d : Disc) : Nat := d.image.size / 2048

/-- Where the stream of the LUN is. -/
def position (d : Disc) : Option Nat :=
  (d.target.luns.find? (·.lun = d.lun)).bind fun ld => (ld.lun_fh.bind d.world.streams).map (·.pos)

/-- The stream is behind the last block, as far as four bytes can tell. -/
def AtEnd (d : Disc) : Prop := ∃ pos, d.position = some pos ∧ pos / 2048 % 2 ^ 32 = d.blocks

/-- All commands of a kind return a number with status 0. -/
def Reports (d : Disc) (kind : Cdb → Prop) (number : Mem → Nat) (n : Nat) : Prop :=
  ∀ fuel cdb data_size data choices, kind cdb →
    ∃ m', (run_scsi_command fuel d.target d.lun cdb data_size).exec libc { state := { world := d.world, data }, choices } =
      .ok ((0, d.target), m') ∧ number m'.state.data = n

/-- READ CAPACITY(10). -/
def IsCapacity (cdb : Cdb) : Prop := cdb.get 0 = 0x25

/-- READ TRACK INFORMATION for the track of a block other than the first, with
room for all of the answer. -/
def IsTrack (cdb : Cdb) : Prop :=
  cdb.get 0 = 0x52 ∧ cdb.get 1 &&& 0x03 = 1 ∧ beNat (cdb.field 2 4) ≠ 0 ∧ 34 ≤ beNat (cdb.field 7 2)

def trackSize (data : Mem) : Nat := beNat (slice data 24 4)

/-- READ DVD STRUCTURE for the physical format, with room for the last sector. -/
def IsStructure (cdb : Cdb) : Prop := cdb.get 0 = 0xad ∧ cdb.get 7 = 0 ∧ 16 ≤ beNat (cdb.field 8 2)

def lastSector (data : Mem) : Nat := beNat (slice data 13 3)

/-- The reports of a disc: its last LBA, a track size that fits it, and its last
sector. -/
structure Sizes (d : Disc) (last sector : Nat) : Prop where
  capacity : d.Reports IsCapacity lastLba last
  track : d.Reports IsTrack trackSize (last + 1)
  structure_ : d.Reports IsStructure lastSector sector

/-- The reports of each of two discs agree, and their last sectors are in the
order of their last LBAs. -/
def SizesAgree (d d' : Disc) : Prop :=
  ∃ last last' sector sector', d.Sizes last sector ∧ d'.Sizes last' sector' ∧ (last = last' → sector = sector') ∧
    (last < last' → sector < sector') ∧ (last' < last → sector' < sector)

/-- The smaller of two numbers is the smaller one even if bits 8 to 15 are left out. -/
def SmallerWithoutMiddle (n n' : Nat) : Prop :=
  n / 2 ^ 16 < n' / 2 ^ 16 ∨ n / 2 ^ 16 = n' / 2 ^ 16 ∧ n % 2 ^ 8 < n' % 2 ^ 8

end Disc

section Command

variable {ld : LunData} {fh inode pos : Nat} {f : File} {x : Space} {ok : Choice → Prop}

theorem wholeBlocks_eq (hsize : ld.block_size = 2048) (size : Nat) : wholeBlocks size ld = (size / 2048 : Nat) := by
  simp [wholeBlocks, hsize]

theorem beNat_three (a b c : UInt8) : beNat [a, b, c] = a.toNat * 2 ^ 16 + b.toNat * 2 ^ 8 + c.toNat := by
  simp [beNat]
  omega

/-- READ TRACK INFORMATION stores the number of blocks before the stream's position. -/
theorem mmc_read_track_information_meets (hfh : ld.lun_fh = some fh) (hprofile : ld.current_profile = 0x0010)
    (hsize : ld.block_size = 2048) {writable : Bool} (h : x.world.ContentAt fh inode writable f pos) {cdb : Cdb}
    (hkind : Disc.IsTrack cdb) (fuel : Nat) (td : TargetData) (data_size : Int) :
    (mmc_read_track_information fuel td ld cdb data_size).Meets libc ok (fun _ => False) x fun o x' =>
      o.ld = ld ∧ o.status = 0 ∧ Disc.trackSize x'.data = pos / 2048 % 2 ^ 32 := by
  obtain ⟨-, haddress, hlba, -⟩ := hkind
  have haccepted : ¬ (cdb.get 1 &&& 0x03 ≠ 1 ∨ ntohl (cdb.long 2) = 0) := by
    rintro (hother | hzero)
    · exact hother haddress
    · refine hlba ?_
      rw [← cdb.ntohl_long (by decide), hzero]
      rfl
  have hclear : ¬ ((ntohs (cdb.short 7)).toNat : Int) < 0 := by omega
  unfold mmc_read_track_information
  simp only [haccepted, if_false, hprofile, clear, hclear]
  refine Prog.Meets.call fun _ _ => ⟨_, _, rfl, Prog.Meets.call fun _ _ => ⟨_, _, rfl, ?_⟩⟩
  refine Prog.Meets.call fun _ _ => ⟨_, _, rfl, ?_⟩
  rw [hfh]
  refine Prog.Meets.call fun choice _ => ⟨_, _, content_ftello h, ?_⟩
  refine Prog.Meets.call fun _ _ => ⟨_, _, rfl, rfl, rfl, ?_⟩
  have hbytes : [byteAt (wholeBlocks pos ld) 24, byteAt (wholeBlocks pos ld) 16, byteAt (wholeBlocks pos ld) 8,
      byteAt (wholeBlocks pos ld) 0] = be 4 (pos / 2048) := by
    simp only [wholeBlocks_eq hsize, byteAt_four]
  have hstored (data : Mem) : slice (blit data 24 (be 4 (pos / 2048) ++ [0, 0, 0, 0])) 24 4 = be 4 (pos / 2048) := by
    simpa using slice_blit_prefix data 24 (be 4 (pos / 2048)) [0, 0, 0, 0]
  rw [← hbytes] at hstored
  refine (congrArg beNat (hstored _)).trans ?_
  rw [hbytes, beNat_be]

/-- READ DVD STRUCTURE stores all bits of the number of blocks but those from 8 to 15. -/
theorem mmc_read_dvd_structure_meets (hfh : ld.lun_fh = some fh) (hprofile : ld.current_profile = 0x0010)
    (hsize : ld.block_size = 2048) {writable : Bool} (h : x.world.Content fh inode writable f) {cdb : Cdb}
    (hkind : Disc.IsStructure cdb) (fuel : Nat) (td : TargetData) (data_size : Int) :
    (mmc_read_dvd_structure fuel td ld cdb data_size).Meets libc ok (fun _ => False) x fun o x' =>
      o.ld = ld ∧ o.status = 0 ∧ Disc.lastSector x'.data =
        f.size / 2048 / 2 ^ 24 % 2 ^ 8 * 2 ^ 16 + f.size / 2048 / 2 ^ 16 % 2 ^ 8 * 2 ^ 8 + f.size / 2048 % 2 ^ 8 := by
  obtain ⟨-, hformat, -⟩ := hkind
  have hclear : ¬ ((ntohs (cdb.short 8)).toNat : Int) < 0 := by omega
  unfold mmc_read_dvd_structure
  simp only [hformat, hprofile, clear, hclear, if_false]
  refine Prog.Meets.call fun _ _ => ⟨_, _, rfl, Prog.Meets.call fun _ _ => ⟨_, _, rfl, ?_⟩⟩
  refine Prog.Meets.call fun _ _ => ⟨_, _, rfl, Prog.Meets.call fun _ _ => ⟨_, _, rfl, ?_⟩⟩
  rw [hfh]
  refine Prog.Meets.call fun choice _ => ?_
  let cleared := blit x.data 0 (List.replicate (ntohs (cdb.short 8)).toNat 0)
  obtain ⟨w, hseek, hat⟩ := content_fseeko_end choice
    (x := { x with data := blit (blit (blit cleared 0 [8, 2, 0, 0]) 4 [1, 2, 1, 0]) 9 [3, 0, 0] }) h
  refine ⟨_, _, hseek, Prog.Meets.call fun choice' _ => ⟨_, _, content_ftello hat, ?_⟩⟩
  refine Prog.Meets.call fun _ _ => ⟨_, _, rfl, rfl, rfl, ?_⟩
  have hstored (data : Mem) (a b c : UInt8) : slice (blit data 13 [a, b, c]) 13 3 = [a, b, c] :=
    slice_blit data 13 [a, b, c]
  refine (congrArg beNat (hstored _ _ _ _)).trans ?_
  simp only [beNat_three, wholeBlocks_eq hsize, byteAt_natCast, UInt8.toNat_ofNat', Nat.pow_zero, Nat.div_one]

/-- What the handlers find in a DVD-ROM. -/
theorem Opened.rom {w : World} (h : Opened .dvd_rom ld w f) : ∃ fh inode, ld.lun_fh = some fh ∧ ld.cmds = some .mmc ∧
    ld.current_profile = 0x0010 ∧ ld.block_size = 2048 ∧ w.Content fh inode false f := by
  obtain ⟨lun, lunfile, lunsizeinmb, time, fh, inode, rfl, hcontent⟩ := h
  exact ⟨fh, inode, rfl, rfl, rfl, rfl, hcontent⟩

theorem Opened.of_content {luntype : LunType} {w w' : World} (h : Opened luntype ld w f)
    (hkept : ∀ fh inode, ld.lun_fh = some fh → w.Content fh inode (luntype ≠ .dvd_rom) f →
      w'.Content fh inode (luntype ≠ .dvd_rom) f) : Opened luntype ld w' f := by
  obtain ⟨lun, lunfile, lunsizeinmb, time, fh, inode, hld, hcontent⟩ := h
  have hfh : ld.lun_fh = some fh := by rw [hld]; cases luntype <;> rfl
  exact ⟨lun, lunfile, lunsizeinmb, time, fh, inode, hld, hkept fh inode hfh hcontent⟩

/-- No command on a DVD-ROM changes its target or what is in its image. -/
theorem commanded_keeps {td td' : TargetData} {lun : UInt8} {w w' : World} {cdb : Cdb} (hserves : Serves td lun ld)
    (hopened : Opened .dvd_rom ld w f) (hstep : Commanded lun (td, w) cdb (td', w')) :
    td' = td ∧ Opened .dvd_rom ld w' f := by
  obtain ⟨fuel, data_size, data, choices, status, m', hexec, rfl⟩ := hstep
  obtain ⟨fh, inode, hfh, hcmds, hprofile, -, hcontent⟩ := hopened.rom
  have hprofiled : CommandTable.mmc = .mmc → Profiled ld := fun _ => .inr hprofile
  have hstarts : ¬ StartsImage .mmc ld cdb := by
    rintro ⟨-, -, hdvd_r⟩
    rw [hprofile] at hdvd_r
    cases hdvd_r
  simp only [run_scsi_command, hserves.type, if_true, findLun_eq hserves.find, hcmds] at hexec
  cases hfunc : CommandTable.mmc.func (cdb.get 0) with
  | none =>
    simp only [hfunc] at hexec
    cases hexec
    exact ⟨rfl, hopened⟩
  | some func =>
    simp only [hfunc, Prog.exec_bind] at hexec
    cases hrun : (func fuel td ld cdb data_size).exec libc { state := { world := w, data }, choices } with
    | error e => simp [hrun] at hexec
    | ok result =>
      obtain ⟨o, m₁⟩ := result
      rw [hrun] at hexec
      cases hexec
      have hbacked : Backed ld w f := ⟨fh, inode, hfh, by simpa [hprofile] using hcontent⟩
      obtain ⟨hsame, -⟩ := answered_keeps hprofiled hfunc hstarts hbacked hrun
      have honly : (func fuel td ld cdb data_size).Only (Call.On ld.lun_fh) := answered_on hprofiled hfunc hstarts
      refine ⟨by rw [hsame, putLun_self hserves.find], hopened.of_content fun fh' inode' hfh' hbefore => ?_⟩
      rw [hfh'] at honly
      exact Code.readonly honly hrun hbefore

/-- After any commands a DVD-ROM is one still. -/
theorem Disc.IsUsedRom.isRom {d : Disc} (h : d.IsUsedRom) : d.IsRom := by
  obtain ⟨td, w, ⟨ld, hserves, hopened⟩, hreached⟩ := h
  have hkept : ∀ s, Reachable (Commanded d.lun) (td, w) s → s.1 = td ∧ Opened .dvd_rom ld s.2 d.image := by
    intro s hs
    refine hs.invariant (P := fun s => s.1 = td ∧ Opened .dvd_rom ld s.2 d.image) ⟨rfl, hopened⟩ ?_
    rintro ⟨td₁, w₁⟩ cdb ⟨td₂, w₂⟩ ⟨rfl, hbefore⟩ hstep
    exact commanded_keeps hserves hbefore hstep
  obtain ⟨htarget, hafter⟩ := hkept _ hreached
  exact ⟨ld, by rw [show d.target = td from htarget]; exact hserves, hafter⟩

end Command

namespace Disc

variable {d d' : Disc} {kind : Cdb → Prop} {number : Mem → Nat} {n n' : Nat}

/-- What a handler stores is reported. -/
theorem reports_of_meets {ld : LunData} {func : Handler} (hserves : Serves d.target d.lun ld) (hcmds : ld.cmds = some .mmc)
    (hfunc : ∀ cdb, kind cdb → CommandTable.mmc.func (cdb.get 0) = some func)
    (hmeets : ∀ fuel cdb data_size x, kind cdb → x.world = d.world →
      (func fuel d.target ld cdb data_size).Meets libc (fun _ => True) (fun _ => False) x fun o x' =>
        o.ld = ld ∧ o.status = 0 ∧ number x'.data = n) : d.Reports kind number n := by
  intro fuel cdb data_size data choices hkind
  have hrun := run_scsi_command_eq hserves.type (findLun_eq hserves.find) hcmds (hfunc cdb hkind) fuel data_size
  let m : Machine Choice Space := { state := { world := d.world, data }, choices }
  obtain ⟨o, m', hexec, -, hld, hstatus, hnumber⟩ := (hmeets fuel cdb data_size m.state hkind rfl).exec_ok fun _ => trivial
  refine ⟨m', ?_, hnumber⟩
  change (run_scsi_command fuel d.target d.lun cdb data_size).exec libc m = _
  rw [hrun]
  simp only [Prog.exec_bind, hexec, Prog.pure_eq, Prog.exec_ret, hstatus, hld, putLun_self hserves.find]

/-- There is one report. -/
theorem Reports.unique {cdb : Cdb} (hkind : kind cdb) (h : d.Reports kind number n) (h' : d.Reports kind number n') :
    n = n' := by
  obtain ⟨m, hexec, rfl⟩ := h 0 cdb 0 (fun _ => 0) (fun _ => .whole) hkind
  obtain ⟨m', hexec', rfl⟩ := h' 0 cdb 0 (fun _ => 0) (fun _ => .whole) hkind
  obtain ⟨-, rfl⟩ := Prod.mk.inj (Except.ok.inj (hexec.symm.trans hexec'))
  rfl

/-- The number of blocks as READ DVD STRUCTURE stores it. -/
def stored (n : Nat) : Nat := n / 2 ^ 24 % 2 ^ 8 * 2 ^ 16 + n / 2 ^ 16 % 2 ^ 8 * 2 ^ 8 + n % 2 ^ 8

/-- The first of the three bytes is always zero. -/
theorem stored_eq (hn : n < 2 ^ 24) : stored n = n / 2 ^ 16 * 2 ^ 8 + n % 2 ^ 8 := by
  have hhigh : n / 2 ^ 24 % 2 ^ 8 = 0 := by omega
  have hmiddle : n / 2 ^ 16 % 2 ^ 8 = n / 2 ^ 16 := by omega
  rw [stored, hhigh, hmiddle, Nat.zero_mul, Nat.zero_add]

theorem stored_lt_iff (hn : n < 2 ^ 24) (hn' : n' < 2 ^ 24) : stored n < stored n' ↔ SmallerWithoutMiddle n n' := by
  rw [stored_eq hn, stored_eq hn', SmallerWithoutMiddle]
  have hlow : n % 2 ^ 8 < 2 ^ 8 := Nat.mod_lt _ (by decide)
  have hlow' : n' % 2 ^ 8 < 2 ^ 8 := Nat.mod_lt _ (by decide)
  omega

/-- What a DVD-ROM reports. -/
structure Reported (d : Disc) (pos : Nat) : Prop where
  position : d.position = some pos
  capacity : d.Reports IsCapacity lastLba (d.blocks - 1)
  track : d.Reports IsTrack trackSize (pos / 2048 % 2 ^ 32)
  structure_ : d.Reports IsStructure lastSector (stored d.blocks)

theorem IsRom.reported (h : d.IsRom) (hpos : 1 ≤ d.blocks) (hmax : d.blocks < 2 ^ 24) : ∃ pos, Reported d pos := by
  obtain ⟨ld, hserves, hopened⟩ := h
  obtain ⟨fh, inode, hfh, hcmds, hprofile, hsize, s, hs⟩ := hopened.rom
  have hcontent : d.world.Content fh inode false d.image := ⟨s, hs⟩
  have hat : d.world.ContentAt fh inode false d.image s.pos := ⟨s, hs, rfl⟩
  refine ⟨s.pos, ?_, ?_, ?_, ?_⟩
  · simp [position, hserves.find, hfh, hs.opened]
  · have hfunc : ∀ cdb, IsCapacity cdb → CommandTable.mmc.func (cdb.get 0) = some sbc_read_capacity10 := by
      intro cdb hop
      rw [show cdb.get 0 = 0x25 from hop]
      rfl
    refine reports_of_meets hserves hcmds hfunc fun fuel cdb data_size x _ hx => ?_
    refine (sbc_read_capacity10_meets hfh (hx ▸ hcontent) fuel d.target cdb data_size).mono (fun _ h => h) ?_
    rintro o x' ⟨rfl, -, hdata⟩
    refine ⟨rfl, rfl, ?_⟩
    have hfour := congrArg (List.take 4) hdata
    have hblocks : d.image.size / 2048 ≤ 2 ^ 32 := Nat.le_of_lt (Nat.lt_trans hmax (by decide))
    rw [take_slice, List.take_append_of_le_length (by simp), List.take_of_length_le (by simp),
      lastBlock_eq (wholeBlocks_eq hsize _) hpos hblocks] at hfour
    have hlast : lastLba x'.data = beNat (be 4 (d.blocks - 1)) := congrArg beNat hfour
    rw [hlast, beNat_be]
    omega
  · have hfunc : ∀ cdb, IsTrack cdb → CommandTable.mmc.func (cdb.get 0) = some mmc_read_track_information := by
      intro cdb hkind
      rw [hkind.1]
      rfl
    exact reports_of_meets hserves hcmds hfunc fun fuel cdb data_size x hkind hx =>
      mmc_read_track_information_meets hfh hprofile hsize (hx ▸ hat) hkind fuel d.target data_size
  · have hfunc : ∀ cdb, IsStructure cdb → CommandTable.mmc.func (cdb.get 0) = some mmc_read_dvd_structure := by
      intro cdb hkind
      rw [hkind.1]
      rfl
    exact reports_of_meets hserves hcmds hfunc fun fuel cdb data_size x hkind hx =>
      mmc_read_dvd_structure_meets hfh hprofile hsize (hx ▸ hcontent) hkind fuel d.target data_size

/-- Commands of each kind. -/
def capacityCdb : Cdb := #v[0x25, 0, 0, 0, 0, 0, 0, 0, 0, 0, 0, 0, 0, 0, 0, 0]

def trackCdb : Cdb := #v[0x52, 1, 0, 0, 0, 1, 0, 0, 34, 0, 0, 0, 0, 0, 0, 0]

def structureCdb : Cdb := #v[0xad, 0, 0, 0, 0, 0, 0, 0, 0, 16, 0, 0, 0, 0, 0, 0]

theorem capacityCdb_kind : IsCapacity capacityCdb := rfl

theorem trackCdb_kind : IsTrack trackCdb := ⟨rfl, rfl, by decide, by decide⟩

theorem structureCdb_kind : IsStructure structureCdb := ⟨rfl, rfl, by decide⟩

theorem Reported.sizes_iff {pos last sector : Nat} (h : Reported d pos) :
    d.Sizes last sector ↔ last = d.blocks - 1 ∧ last + 1 = pos / 2048 % 2 ^ 32 ∧ sector = stored d.blocks := by
  constructor
  · rintro ⟨hcapacity, htrack, hstructure⟩
    exact ⟨hcapacity.unique capacityCdb_kind h.capacity, htrack.unique trackCdb_kind h.track,
      hstructure.unique structureCdb_kind h.structure_⟩
  · rintro ⟨rfl, htrack, rfl⟩
    exact ⟨h.capacity, htrack ▸ h.track, h.structure_⟩

theorem Reported.atEnd_iff {pos : Nat} (h : Reported d pos) : d.AtEnd ↔ pos / 2048 % 2 ^ 32 = d.blocks := by
  constructor
  · rintro ⟨pos', hpos', hend⟩
    obtain rfl := Option.some.inj (h.position.symm.trans hpos')
    exact hend
  · exact fun hend => ⟨pos, h.position, hend⟩

/-- After any commands, the size reports of two DVD-ROMs agree exactly if both
streams are left at the end and bits 8 to 15 of the sizes do not matter to their
order. -/
theorem sizes_agree_iff (h : d.IsUsedRom) (h' : d'.IsUsedRom) (hpos : 1 ≤ d.blocks) (hmax : d.blocks < 2 ^ 24)
    (hpos' : 1 ≤ d'.blocks) (hmax' : d'.blocks < 2 ^ 24) :
    SizesAgree d d' ↔ d.AtEnd ∧ d'.AtEnd ∧ (d.blocks < d'.blocks → SmallerWithoutMiddle d.blocks d'.blocks) ∧
      (d'.blocks < d.blocks → SmallerWithoutMiddle d'.blocks d.blocks) := by
  obtain ⟨pos, hreported⟩ := h.isRom.reported hpos hmax
  obtain ⟨pos', hreported'⟩ := h'.isRom.reported hpos' hmax'
  simp only [SizesAgree, hreported.sizes_iff, hreported'.sizes_iff, hreported.atEnd_iff, hreported'.atEnd_iff,
    ← stored_lt_iff hmax hmax', ← stored_lt_iff hmax' hmax]
  constructor
  · rintro ⟨last, last', sector, sector', ⟨rfl, htrack, rfl⟩, ⟨rfl, htrack', rfl⟩, -, hless, hless'⟩
    exact ⟨by omega, by omega, fun hlt => hless (by omega), fun hlt => hless' (by omega)⟩
  · rintro ⟨hend, hend', hless, hless'⟩
    refine ⟨d.blocks - 1, d'.blocks - 1, _, _, ⟨rfl, by omega, rfl⟩, ⟨rfl, by omega, rfl⟩, fun hsame => ?_,
      fun hlt => hless (by omega), fun hlt => hless' (by omega)⟩
    rw [show d.blocks = d'.blocks by omega]

/-- READ CAPACITY(10) leaves the stream at the end. -/
theorem IsUsedRom.capacity (h : d.IsUsedRom) (hmax : d.blocks < 2 ^ 24) :
    ∃ w, IsUsedRom { d with world := w } ∧ AtEnd { d with world := w } := by
  obtain ⟨ld, hserves, hopened⟩ := h.isRom
  obtain ⟨fh, inode, hfh, hcmds, -, -, hcontent⟩ := hopened.rom
  let m : Machine Choice Space := { state := { world := d.world, data := fun _ => 0 }, choices := fun _ => .whole }
  have hfair : m.Fair fun _ => True := fun _ => trivial
  obtain ⟨o, m', hexec, -, rfl, ⟨s, hs, hend⟩, -⟩ :=
    (sbc_read_capacity10_meets (x := m.state) hfh hcontent 0 d.target capacityCdb 0).exec_ok hfair
  have hrun : (run_scsi_command 0 d.target d.lun capacityCdb 0).exec libc m = .ok ((0, d.target), m') := by
    rw [run_scsi_command_eq hserves.type (findLun_eq hserves.find) hcmds rfl]
    simp only [Prog.exec_bind, hexec, Prog.pure_eq, Prog.exec_ret, putLun_self hserves.find]
  have hstep : Commanded d.lun (d.target, d.world) capacityCdb (d.target, m'.state.world) :=
    ⟨0, 0, _, _, 0, m', hrun, rfl⟩
  obtain ⟨td, w, hmade, hreached⟩ := h
  refine ⟨m'.state.world, ⟨td, w, hmade, hreached.tail hstep⟩, s.pos, ?_, ?_⟩
  · simp [position, hserves.find, hfh, hs.opened]
  · rw [hend]
    exact Nat.mod_eq_of_lt (Nat.lt_trans hmax (by decide))

/-- A DVD-ROM that `add_lun` has made of an image of `n` blocks. -/
def made (n : Nat) : Disc where
  target := dvdTarget .dvd_rom
  lun := 0
  world := romWorld (File.empty.truncate (n * 2048))
  image := File.empty.truncate (n * 2048)

theorem made_isUsedRom (n : Nat) : (made n).IsUsedRom := ⟨_, _, ⟨_, ⟨rfl, rfl⟩, rom_opened _⟩, .refl⟩

theorem made_blocks (n : Nat) : (made n).blocks = n := Nat.mul_div_cancel n (by decide)

theorem exists_atEnd {n : Nat} (hmax : n < 2 ^ 24) : ∃ d : Disc, d.IsUsedRom ∧ d.blocks = n ∧ d.AtEnd := by
  obtain ⟨w, hused, hend⟩ := (made_isUsedRom n).capacity (by rwa [made_blocks])
  exact ⟨_, hused, made_blocks n, hend⟩

theorem sizes_agree_small_discs : ∃ d d' : Disc, d.blocks = 1 ∧ d'.blocks = 2 ∧ SizesAgree d d' := by
  obtain ⟨d, hused, hblocks, hend⟩ := exists_atEnd (n := 1) (by decide)
  obtain ⟨d', hused', hblocks', hend'⟩ := exists_atEnd (n := 2) (by decide)
  refine ⟨d, d', hblocks, hblocks', (sizes_agree_iff hused hused' (by omega) (by omega) (by omega) (by omega)).mpr
    ⟨hend, hend', fun _ => ?_, fun hless => ?_⟩⟩
  · rw [hblocks, hblocks']
    exact .inr ⟨by decide, by decide⟩
  · omega

/-- Right after `add_lun` a disc of one block reports a track of none. With their
streams at the end, a disc of 256 blocks reports a smaller last sector than one of 255. -/
theorem sizes_disagree : (∃ m m', (add_lun (add_target "virtualdvd".toList TARGET_TYPE_EMULATION) 0 "dvd".toList
      .dvd_rom 1).exec libc m = .ok ((made 1).target, m') ∧ m'.state.world = (made 1).world) ∧
    ¬ SizesAgree (made 1) (made 1) ∧
    ∃ d d' : Disc, d.IsUsedRom ∧ d'.IsUsedRom ∧ d.blocks = 255 ∧ d'.blocks = 256 ∧ d.AtEnd ∧ d'.AtEnd ∧ ¬ SizesAgree d d' := by
  refine ⟨?_, ?_, ?_⟩
  · let x : Space := { world := .oneFile "dvd".toList (File.empty.truncate (1 * 2048)), data := fun _ => 0 }
    exact ⟨{ state := x, choices := fun _ => .whole }, _, rfl, rfl⟩
  · obtain ⟨pos, hreported⟩ := (made_isUsedRom 1).isRom.reported (by decide) (by decide)
    obtain rfl : 0 = pos := Option.some.inj hreported.position
    rintro ⟨last, -, sector, -, hsizes, -⟩
    obtain ⟨-, htrack, -⟩ := hreported.sizes_iff.mp hsizes
    cases htrack
  · obtain ⟨d, hused, hblocks, hend⟩ := exists_atEnd (n := 255) (by decide)
    obtain ⟨d', hused', hblocks', hend'⟩ := exists_atEnd (n := 256) (by decide)
    refine ⟨d, d', hused, hused', hblocks, hblocks', hend, hend', ?_⟩
    obtain ⟨pos, hreported⟩ := hused.isRom.reported (by omega) (by omega)
    obtain ⟨pos', hreported'⟩ := hused'.isRom.reported (by omega) (by omega)
    rintro ⟨last, last', sector, sector', hsizes, hsizes', -, hless, -⟩
    obtain ⟨rfl, -, rfl⟩ := hreported.sizes_iff.mp hsizes
    obtain ⟨rfl, -, rfl⟩ := hreported'.sizes_iff.mp hsizes'
    rw [hblocks, hblocks'] at hless
    exact absurd (hless (by decide)) (by decide)

end Disc

end vscsi.scsi_target
