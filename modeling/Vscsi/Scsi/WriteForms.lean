import Vscsi.Scsi.Capacity

open lib lib.Code

namespace vscsi.scsi_target

open scsi

/-- The WRITE(6) CDB for `n` blocks, from 1 to 256, at a 21-bit LBA. -/
structure Encodes6 (cdb : Cdb) (lba n : Nat) : Prop where
  opcode : cdb.get 0 = 0x0a
  high : (cdb.get 1).toNat % 2 ^ 5 = lba / 2 ^ 16
  low : beNat (cdb.field 2 2) = lba % 2 ^ 16
  length : (cdb.get 4).toNat = n % 2 ^ 8

/-- The WRITE(10) or WRITE(12) CDB for `n` blocks at an LBA. -/
structure Encodes (c : MediaCommand) (cdb : Cdb) (lba n : Nat) : Prop where
  opcode : cdb.get 0 = c.opcode
  lba : MediaCommand.lba cdb = lba
  length : c.length cdb = n

/-- What the LUN's stream makes of the file on the disk. -/
def Backs (ld : LunData) (w : World) (f : File) : Prop :=
  ∃ fh inode, ld.lun_fh = some fh ∧ w.Volume fh inode f

/-- From every machine with this state a command returns the status and leaves
the disk as `f`. -/
def Gives (fuel : Nat) (td : TargetData) (lun : UInt8) (ld : LunData) (cdb : Cdb) (data_size : Int) (x : Space)
    (status : UInt8) (f : File) : Prop :=
  ∀ choices, (∀ n, (choices n : Choice).Progress) →
    ∃ m, (run_scsi_command fuel td lun cdb data_size).exec libc { state := x, choices } = .ok ((status, td), m) ∧
      Backs ld m.state.world f

/-- The three write commands for the same blocks and data have the same status
and leave the same file. -/
def FormsAgree (td : TargetData) (lun : UInt8) (ld : LunData) (w : World) (lba n : Nat) : Prop :=
  ∀ (data : Mem) (cdb6 cdb10 cdb12 : Cdb) (fuel : Nat) (data_size : Int),
    Encodes6 cdb6 lba n → Encodes .write10 cdb10 lba n → Encodes .write12 cdb12 lba n → n * 512 ≤ fuel →
    ∃ status f, ∀ cdb ∈ [cdb6, cdb10, cdb12], Gives fuel td lun ld cdb data_size { world := w, data } status f

variable {td : TargetData} {lun : UInt8} {ld : LunData} {w : World} {fh inode : Nat} {f : File} {lba n : Nat}

/-- A disk has one content. -/
theorem Backs.unique {g : File} (hf : Backs ld w f) (hg : Backs ld w g) : f = g := by
  obtain ⟨fh, inode, hfh, s, hs⟩ := hf
  obtain ⟨fh', inode', hfh', s', hs'⟩ := hg
  obtain rfl : fh = fh' := Option.some.inj (hfh.symm.trans hfh')
  obtain rfl : s = s' := Option.some.inj (hs.opened.symm.trans hs'.opened)
  obtain rfl : inode = inode' := hs.on.symm.trans hs'.on
  exact hs.contents.symm.trans hs'.contents

theorem Gives.unique {fuel : Nat} {cdb : Cdb} {data_size : Int} {x : Space} {status status' : UInt8} {g : File}
    (hf : Gives fuel td lun ld cdb data_size x status f) (hg : Gives fuel td lun ld cdb data_size x status' g) :
    status = status' ∧ f = g := by
  obtain ⟨m, hexec, hbacks⟩ := hf (fun _ => .whole) fun _ => Choice.whole_progress
  obtain ⟨m', hexec', hbacks'⟩ := hg (fun _ => .whole) fun _ => Choice.whole_progress
  obtain ⟨hreturn, rfl⟩ := Prod.mk.inj (Except.ok.inj (hexec.symm.trans hexec'))
  exact ⟨(Prod.mk.inj hreturn).1, hbacks.unique hbacks'⟩

section Write

variable (hserves : Serves td lun ld) (h : Mounted ld w fh inode f) {cdb : Cdb} {func : Handler}
  (hfunc : CommandTable.sbc.func (cdb.get 0) = some func) {fuel : Nat} {data_size : Int}
  (haccess : func fuel td ld cdb data_size = access (fwrite · · ld.lun_fh) fuel ld data_size lba n)

include hserves h hfunc haccess

theorem run_write : run_scsi_command fuel td lun cdb data_size = do
    let outcome ← access (fwrite · · ld.lun_fh) fuel ld data_size lba n
    return (outcome.status, putLun td lun outcome.ld) := by
  rw [run_scsi_command_eq hserves.type (findLun_eq hserves.find) h.cmds hfunc, haccess]

/-- A write command, whatever its form, beyond the bound does nothing. -/
theorem write_beyond (hbeyond : bound ld < ((lba + n) * 512 : Nat)) (m : Machine Choice Space) :
    (run_scsi_command fuel td lun cdb data_size).exec libc m = .ok ((2, td), m) := by
  rw [run_write hserves h hfunc haccess, access_rejected _ fuel h.block_size data_size hbeyond]
  simp [putLun_self hserves.find]

/-- Up to the bound it writes the blocks that its CDB names field by field. -/
theorem write_inside (hinside : ((lba + n) * 512 : Nat) ≤ bound ld) (data : Mem) :
    Ends (OutOfFuel fuel (n * 512)) (run_scsi_command fuel td lun cdb data_size) { world := w, data }
      fun r x' => r = (0, td) ∧ x'.world.Volume fh inode (f.pwrite (lba * 512) (slice data 0 (n * 512))) := by
  rw [run_write hserves h hfunc haccess]
  refine Prog.Meets.bind (write_ends h fuel data_size hinside) ?_
  rintro o x' ⟨rfl, hvolume, -⟩
  exact ⟨by rw [putLun_self hserves.find], hvolume⟩

theorem gives_write (hfuel : n * 512 ≤ fuel) (data : Mem) :
    if bound ld < ((lba + n) * 512 : Nat) then Gives fuel td lun ld cdb data_size { world := w, data } 2 f
    else Gives fuel td lun ld cdb data_size { world := w, data } 0 (f.pwrite (lba * 512) (slice data 0 (n * 512))) := by
  split
  · rename_i hbeyond
    intro choices hfair
    exact ⟨_, write_beyond hserves h hfunc haccess hbeyond _, fh, inode, h.lun_fh, h.volume⟩
  · rename_i hinside
    intro choices hfair
    let before : Machine Choice Space := { state := { world := w, data }, choices }
    have hmachine : before.Fair Choice.Progress := hfair
    rcases (write_inside hserves h hfunc haccess (Int.not_lt.mp hinside) data).exec hmachine with
      ⟨r, m, hexec, -, rfl, hvolume⟩ | ⟨e, -, hfewer⟩
    · exact ⟨m, hexec, fh, inode, h.lun_fh, hvolume⟩
    · exact absurd hfewer.2 (by omega)

end Write

/-- WRITE(10) and WRITE(12) take the blocks they are given. -/
theorem gives_long {c : MediaCommand} (hwrite : c ≠ .read10) (hserves : Serves td lun ld)
    (h : Mounted ld w fh inode f) {cdb : Cdb} (hcdb : Encodes c cdb lba n) {fuel : Nat} (hfuel : n * 512 ≤ fuel)
    (data_size : Int) (data : Mem) :
    if bound ld < ((lba + n) * 512 : Nat) then Gives fuel td lun ld cdb data_size { world := w, data } 2 f
    else Gives fuel td lun ld cdb data_size { world := w, data } 0 (f.pwrite (lba * 512) (slice data 0 (n * 512))) := by
  have hfunc : CommandTable.sbc.func (cdb.get 0) = some c.handler := by rw [hcdb.opcode, c.func_sbc]
  refine gives_write hserves h hfunc ?_ hfuel data
  rw [c.handler_eq, hcdb.lba, hcdb.length]
  cases c with
  | read10 => exact absurd rfl hwrite
  | write10 => rfl
  | write12 => rfl

/-- WRITE(6) drops the upper five bits of the LBA and takes a length of zero for
no blocks. -/
theorem gives_short (hserves : Serves td lun ld) (h : Mounted ld w fh inode f) {cdb : Cdb}
    (hcdb : Encodes6 cdb lba n) {fuel : Nat} (hfuel : n * 512 ≤ fuel) (data_size : Int) (data : Mem) :
    if bound ld < ((lba % 2 ^ 16 + n % 2 ^ 8) * 512 : Nat) then
      Gives fuel td lun ld cdb data_size { world := w, data } 2 f
    else Gives fuel td lun ld cdb data_size { world := w, data } 0
      (f.pwrite (lba % 2 ^ 16 * 512) (slice data 0 (n % 2 ^ 8 * 512))) := by
  have hfunc : CommandTable.sbc.func (cdb.get 0) = some sbc_write6 := by rw [hcdb.opcode]; rfl
  have henough : n % 2 ^ 8 * 512 ≤ fuel := le_trans (Nat.mul_le_mul_right 512 (Nat.mod_le n (2 ^ 8))) hfuel
  have hlow := cdb.ntohs_short (i := 2) (by decide)
  rw [hcdb.low] at hlow
  refine gives_write hserves h hfunc ?_ henough data
  simp only [sbc_write6, hlow, hcdb.length]

/-- Where WRITE(6) keeps all of the LBA and the length, or is turned away, the
three commands agree. -/
theorem forms_agree (hserves : Serves td lun ld) (h : Mounted ld w fh inode f)
    (hcond : lba < 2 ^ 16 ∧ n ≤ 255 ∨ bound ld < ((lba % 2 ^ 16 + n % 2 ^ 8) * 512 : Nat)) :
    FormsAgree td lun ld w lba n := by
  intro data cdb6 cdb10 cdb12 fuel data_size h6 h10 h12 hfuel
  have hshort := gives_short hserves h h6 hfuel data_size data
  have hlong10 := gives_long (by decide) hserves h h10 hfuel data_size data
  have hlong12 := gives_long (by decide) hserves h h12 hfuel data_size data
  by_cases hbeyond : bound ld < ((lba % 2 ^ 16 + n % 2 ^ 8) * 512 : Nat)
  · have hle : (lba % 2 ^ 16 + n % 2 ^ 8) * 512 ≤ (lba + n) * 512 :=
      Nat.mul_le_mul_right 512 (Nat.add_le_add (Nat.mod_le lba (2 ^ 16)) (Nat.mod_le n (2 ^ 8)))
    have hbeyond' : bound ld < ((lba + n) * 512 : Nat) :=
      Int.lt_of_lt_of_le hbeyond (Int.ofNat_le.mpr hle)
    rw [if_pos hbeyond] at hshort
    rw [if_pos hbeyond'] at hlong10 hlong12
    exact ⟨2, f, by simp [hshort, hlong10, hlong12]⟩
  · obtain ⟨hlba, hn⟩ := hcond.resolve_right hbeyond
    have hn : n < 2 ^ 8 := by omega
    rw [Nat.mod_eq_of_lt hlba, Nat.mod_eq_of_lt hn] at hshort hbeyond
    rw [if_neg hbeyond] at hshort hlong10 hlong12
    refine ⟨0, f.pwrite (lba * 512) (slice data 0 (n * 512)), ?_⟩
    simp only [List.mem_cons, List.not_mem_nil, or_false, forall_eq_or_imp, forall_eq]
    exact ⟨hshort, hlong10, hlong12⟩

/-- A CDB of WRITE(6). -/
def cdb6 (lba n : Nat) : Cdb :=
  #v[0x0a, UInt8.ofNat (lba / 2 ^ 16), UInt8.ofNat (lba / 2 ^ 8), UInt8.ofNat lba, UInt8.ofNat n, 0, 0, 0, 0, 0, 0, 0,
    0, 0, 0, 0]

/-- A CDB of WRITE(12). -/
def cdb12 (lba n : Nat) : Cdb :=
  #v[0xaa, 0, UInt8.ofNat (lba / 2 ^ 24), UInt8.ofNat (lba / 2 ^ 16), UInt8.ofNat (lba / 2 ^ 8), UInt8.ofNat lba,
    UInt8.ofNat (n / 2 ^ 24), UInt8.ofNat (n / 2 ^ 16), UInt8.ofNat (n / 2 ^ 8), UInt8.ofNat n, 0, 0, 0, 0, 0, 0]

theorem encodes_cdb6 (hlba : lba < 2 ^ 21) : Encodes6 (cdb6 lba n) lba n where
  opcode := rfl
  high := by
    change (UInt8.ofNat (lba / 2 ^ 16)).toNat % 2 ^ 5 = lba / 2 ^ 16
    rw [UInt8.toNat_ofNat']
    omega
  low := by
    have hfield : (cdb6 lba n).field 2 2 = be 2 lba := by simp [cdb6, Cdb.field, be, List.range, List.range.loop]
    rw [hfield, beNat_be]
  length := UInt8.toNat_ofNat'

theorem encodes_cdb10 (hlba : lba < 2 ^ 21) (hn : n ≤ 256) : Encodes .write10 (cdb10 0x2a lba n) lba n where
  opcode := rfl
  lba := by
    rw [lba_cdb10]
    omega
  length := by
    rw [length_cdb10 (c := .write10) (nofun)]
    omega

theorem encodes_cdb12 (hlba : lba < 2 ^ 21) (hn : n ≤ 256) : Encodes .write12 (cdb12 lba n) lba n where
  opcode := rfl
  lba := by
    have hfield : (cdb12 lba n).field 2 4 = be 4 lba := by simp [cdb12, Cdb.field, be, List.range, List.range.loop]
    rw [MediaCommand.lba, hfield, beNat_be]
    omega
  length := by
    have hfield : (cdb12 lba n).field 6 4 = be 4 n := by simp [cdb12, Cdb.field, be, List.range, List.range.loop]
    rw [MediaCommand.length, hfield, beNat_be]
    omega

/-- Elsewhere they do not: WRITE(6) leaves out the last byte that WRITE(10) stores. -/
theorem forms_differ (hserves : Serves td lun ld) (h : Mounted ld w fh inode f) (hlba : lba < 2 ^ 21)
    (hpos : 1 ≤ n) (hn : n ≤ 256) (hloss : 2 ^ 16 ≤ lba ∨ n = 256)
    (hinside : ((lba % 2 ^ 16 + n % 2 ^ 8) * 512 : Nat) ≤ bound ld) : ¬ FormsAgree td lun ld w lba n := by
  intro hagree
  -- data in which every byte differs from the last byte of the blocks in the file
  obtain ⟨last, hlast⟩ : ∃ last, last = lba * 512 + (n * 512 - 1) := ⟨_, rfl⟩
  obtain ⟨data, hdata⟩ : ∃ data : Mem, ∀ i, data i = f.bytes last + 1 := ⟨fun _ => f.bytes last + 1, fun _ => rfl⟩
  obtain ⟨status, g, hgives⟩ := hagree data (cdb6 lba n) (cdb10 0x2a lba n) (cdb12 lba n) (n * 512) 0
    (encodes_cdb6 hlba) (encodes_cdb10 hlba hn) (encodes_cdb12 hlba hn) (Nat.le_refl _)
  have hshort := gives_short hserves h (encodes_cdb6 (n := n) hlba) (Nat.le_refl _) 0 data
  have hlong := gives_long (by decide) hserves h (encodes_cdb10 hlba hn) (Nat.le_refl _) 0 data
  rw [if_neg (by omega)] at hshort
  obtain ⟨rfl, rfl⟩ := (hgives _ (.head _)).unique hshort
  by_cases hbeyond : bound ld < ((lba + n) * 512 : Nat)
  · rw [if_pos hbeyond] at hlong
    exact absurd ((hgives _ (.tail _ (.head _))).unique hlong).1 (by decide)
  · rw [if_neg hbeyond] at hlong
    have hsame := congrArg (fun g : File => g.bytes last) ((hgives _ (.tail _ (.head _))).unique hlong).2
    have hshorter : lba % 2 ^ 16 * 512 + n % 2 ^ 8 * 512 ≤ last := by omega
    have hbyte : blit f.bytes (lba * 512) (slice data 0 (n * 512)) last = f.bytes last + 1 := by
      have hread := blit_add f.bytes (lba * 512) (show n * 512 - 1 < (slice data 0 (n * 512)).length by simp; omega)
      rw [← hlast] at hread
      rw [hread]
      simp only [slice, List.getElem_map, hdata]
    simp only [File.pwrite_bytes, hbyte] at hsame
    rw [blit_outside _ (.inr (by simpa using hshorter))] at hsame
    exact absurd hsame (by simp)

/-- The three write commands agree exactly where WRITE(6) loses nothing of the
LBA and the length, or turns what is left of them away. -/
theorem forms_agree_iff (hserves : Serves td lun ld) (h : Mounted ld w fh inode f) (hlba : lba < 2 ^ 21)
    (hpos : 1 ≤ n) (hn : n ≤ 256) :
    FormsAgree td lun ld w lba n ↔
      lba < 2 ^ 16 ∧ n ≤ 255 ∨ bound ld < ((lba % 2 ^ 16 + n % 2 ^ 8) * 512 : Nat) := by
  refine ⟨fun hagree => ?_, forms_agree hserves h⟩
  by_contra hcond
  exact forms_differ hserves h hlba hpos hn (by omega) (by omega) hagree

theorem forms_agree_first_block :
    FormsAgree (diskTarget 1) 0 (newLun 0 "disk".toList .hd 1 0 (some 0)) (diskWorld 1) 0 1 := by
  obtain ⟨-, fh, inode, f, hmounted⟩ := (disk_made 1).mounted
  exact (forms_agree_iff (disk_made 1).serves hmounted (by decide) (by decide) (by decide)).mpr (.inl (by decide))

/-- On a disk of 64 MiB they differ for one block in its second half, which
WRITE(6) puts in the first half, and for 256 blocks, of which it writes none. -/
theorem forms_differ_64_mib :
    ¬ FormsAgree (diskTarget 64) 0 (newLun 0 "disk".toList .hd 64 0 (some 0)) (diskWorld 64) 65536 1 ∧
      ¬ FormsAgree (diskTarget 64) 0 (newLun 0 "disk".toList .hd 64 0 (some 0)) (diskWorld 64) 0 256 := by
  obtain ⟨-, fh, inode, f, hmounted⟩ := (disk_made 64).mounted
  constructor
  · exact forms_differ (disk_made 64).serves hmounted (by decide) (by decide) (by decide) (.inl (by decide)) (by decide)
  · exact forms_differ (disk_made 64).serves hmounted (by decide) (by decide) (by decide) (.inr rfl) (by decide)

end vscsi.scsi_target
