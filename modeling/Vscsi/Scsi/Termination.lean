import Vscsi.Lib.Faulty
import Vscsi.Scsi.Answers
import Vscsi.Scsi.Capacity

open lib lib.Code

namespace vscsi.scsi_target

open scsi

/-- A LUN that `add_lun` has made, with what its stream makes of its file. -/
def Opened (luntype : LunType) (ld : LunData) (w : World) (f : File) : Prop :=
  ∃ lun lunfile lunsizeinmb time fh inode, ld = newLun lun lunfile luntype lunsizeinmb time (some fh) ∧
    w.Content fh inode (luntype ≠ .dvd_rom) f

/-- What keeps a transfer of a command from getting past an offset: a read past the
end of the file, a write on a stream that is open for reading, an error of either. -/
def Stops (bad : Nat → Bool) (luntype : LunType) (cdb : Cdb) (f : File) (o : Nat) : Prop :=
  bad o = true ∨ if cdb.get 0 = 0x28 then f.size ≤ o else luntype = .dvd_rom

/-- All blocks of a command have been moved. -/
def Moved (cdb : Cdb) (ld : LunData) (f : File) (lba n : Nat) (x x' : Space) : Prop :=
  if cdb.get 0 = 0x28 then
    x'.data = blit x.data 0 (slice f.bytes (lba * ld.block_size.toNat) (n * ld.block_size.toNat))
  else Backed ld x'.world (f.pwrite (lba * ld.block_size.toNat) (slice x.data 0 (n * ld.block_size.toNat)))

/-- However short its transfers are, a command comes back, with all its blocks
moved if its status is 0. -/
def EndsAlways (bad : Nat → Bool) (td : TargetData) (lun : UInt8) (ld : LunData) (cdb : Cdb) (lba n : Nat) (x : Space)
    (f : File) : Prop :=
  ∀ (data_size : Int) (choices : Nat → Choice), ∃ fuel status td' m',
    (run_scsi_command fuel td lun cdb data_size).exec (faulty bad) { state := x, choices } = .ok ((status, td'), m') ∧
      (status = 0 → Moved cdb ld f lba n x m'.state)

variable {bad : Nat → Bool} {luntype : LunType} {td : TargetData} {lun : UInt8} {ld : LunData} {cdb : Cdb} {f : File}
  {fh inode pos lba n len : Nat} {x : Space}

/-- A LUN that `add_lun` has added is one. -/
theorem add_lun_opened {t : TargetData} {number : Int} {lunfile : FileName} {lunsizeinmb : Int} {m m' : Machine Choice Space}
    (h : (add_lun t number lunfile luntype lunsizeinmb).exec libc m = .ok ({ t with luns := ld :: t.luns }, m')) :
    ∃ f, Opened luntype ld m'.state.world f := by
  have hadded {time fh : Nat} {w : World} {inode : Nat} (hld : newLun (UInt8.ofInt number) lunfile luntype lunsizeinmb time
      (some fh) = ld) (hstream : w.streams fh = some (.opened inode (luntype ≠ .dvd_rom))) : ∃ f, Opened luntype ld w f :=
    ⟨_, _, _, _, _, _, _, hld.symm, World.opened_content hstream⟩
  simp only [add_lun, Prog.exec_bind, exec_time] at h
  cases luntype with
  | hd =>
    simp only [Prog.exec_bind] at h
    cases hopen : (openDisk lunfile).exec libc (next m m.state) with
    | error e => simp [hopen] at h
    | ok result =>
      obtain ⟨lun_fh, m₁⟩ := result
      cases lun_fh with
      | none =>
        simp only [hopen, Option.isNone_none, if_true, Prog.pure_eq, Prog.exec_ret, Except.ok.injEq, Prod.mk.injEq] at h
        exact absurd (congrArg (·.luns.length) h.1) (by simp)
      | some fh =>
        obtain ⟨inode, -, hstream⟩ := openDisk_some hopen
        simp only [hopen, Option.isNone_some, Bool.false_eq_true, if_false, Prog.exec_bind, exec_truncate, Prog.pure_eq,
          Prog.exec_ret, Except.ok.injEq, Prod.mk.injEq] at h
        obtain ⟨htarget, rfl⟩ := h
        exact hadded (List.cons.inj (congrArg (·.luns) htarget)).1 (by rw [next, World.truncate_streams]; exact hstream)
  | dvd_r =>
    simp only [Prog.exec_bind, exec_fopen] at h
    cases hopen : (next m m.state).state.world.fopen lunfile .w_plus ((next m m.state).choices 0) with
    | mk lun_fh w =>
      cases lun_fh with
      | none =>
        simp only [hopen, Option.isNone_none, if_true, Prog.pure_eq, Prog.exec_ret, Except.ok.injEq, Prod.mk.injEq] at h
        exact absurd (congrArg (·.luns.length) h.1) (by simp)
      | some fh =>
        obtain ⟨inode, -, hstream⟩ := World.fopen_opened hopen
        simp only [hopen, Option.isNone_some, Bool.false_eq_true, if_false, Prog.pure_eq, Prog.exec_ret, Except.ok.injEq,
          Prod.mk.injEq] at h
        obtain ⟨htarget, rfl⟩ := h
        exact hadded (List.cons.inj (congrArg (·.luns) htarget)).1 hstream
  | dvd_rom =>
    simp only [Prog.exec_bind, exec_fopen] at h
    cases hopen : (next m m.state).state.world.fopen lunfile .r ((next m m.state).choices 0) with
    | mk lun_fh w =>
      cases lun_fh with
      | none =>
        simp only [hopen, Option.isNone_none, if_true, Prog.pure_eq, Prog.exec_ret, Except.ok.injEq, Prod.mk.injEq] at h
        exact absurd (congrArg (·.luns.length) h.1) (by simp)
      | some fh =>
        obtain ⟨inode, -, hstream⟩ := World.fopen_opened hopen
        simp only [hopen, Option.isNone_some, Bool.false_eq_true, if_false, Prog.pure_eq, Prog.exec_ret, Except.ok.injEq,
          Prod.mk.injEq] at h
        obtain ⟨htarget, rfl⟩ := h
        exact hadded (List.cons.inj (congrArg (·.luns) htarget)).1 hstream

/-- What a command leaves between the rounds of its transfer. A read changes no file. -/
def Between (luntype : LunType) (cdb : Cdb) (f : File) (fh : Nat) (x : Space) : Prop :=
  ∃ inode g, x.world.Content fh inode (luntype ≠ .dvd_rom) g ∧ (cdb.get 0 = 0x28 → g = f)

/-- A round moves at least one byte, unless it is stopped where it is. -/
theorem mover_faulty {g : File} (h : x.world.ContentAt fh inode (luntype ≠ .dvd_rom) g pos) (hread : cdb.get 0 = 0x28 → g = f)
    (i : Nat) {count : Nat} (hcount : 0 < count) :
    (mover cdb (some fh) i count).Meets (faulty bad) (fun _ => True) (fun _ => False) x fun res x' =>
      Between luntype cdb f fh x' ∧ res ≤ count ∧ (¬ Stops bad luntype cdb f pos → 1 ≤ res) ∧
        ∀ o, Stops bad luntype cdb f o → pos ≤ o → pos + res ≤ o := by
  by_cases hop : cdb.get 0 = 0x28
  · obtain rfl := hread hop
    rw [mover_read hop]
    refine Prog.Meets.call fun choice _ => ?_
    obtain ⟨res, w, data, hcall, hcontent, hle, hmore, hstop⟩ := faulty_fread bad choice h i hcount
    refine ⟨_, _, hcall, ⟨inode, g, hcontent, fun _ => rfl⟩, hle, fun hgoes => ?_, fun o ho hpos => ?_⟩
    · simp only [Stops, hop, if_true, not_or, Bool.not_eq_true, Nat.not_le] at hgoes
      exact hmore hgoes.1 hgoes.2
    · simp only [Stops, hop, if_true] at ho
      exact hstop o ho hpos
  · rw [mover_write hop]
    refine Prog.Meets.call fun choice _ => ?_
    obtain ⟨res, w, g', hcall, hcontent, hle, hmore, hstop⟩ := faulty_fwrite bad choice h i hcount
    refine ⟨_, _, hcall, ⟨inode, g', hcontent, fun h => absurd h hop⟩, hle, fun hgoes => ?_, fun o ho hpos => ?_⟩
    · simp only [Stops, hop, if_false, not_or, Bool.not_eq_true] at hgoes
      exact hmore hgoes.1 (decide_eq_true hgoes.2)
    · simp only [Stops, hop, if_false] at ho
      exact hstop o (ho.imp_right fun hrom => by simp [hrom]) hpos

theorem fseeko_faulty (h : Between luntype cdb f fh x) (target : Nat) :
    (fseeko (some fh) target .set).Meets (faulty bad) (fun _ => True) (fun _ => False) x fun _ x' =>
      ∃ inode g, x'.world.ContentAt fh inode (luntype ≠ .dvd_rom) g target ∧ (cdb.get 0 = 0x28 → g = f) := by
  obtain ⟨inode, g, hcontent, hread⟩ := h
  refine Prog.Meets.call fun choice _ => ?_
  obtain ⟨w, hcall, hat⟩ := content_fseeko choice hcontent target
  exact ⟨_, _, hcall, inode, g, hat, hread⟩

/-- A transfer that nothing stops comes to its end. -/
theorem transfer_passes (hlen : len < 2 ^ 31) (hgoes : ∀ o, lba ≤ o → o < lba + len → ¬ Stops bad luntype cdb f o)
    (fuel : Nat) (h : Between luntype cdb f fh x) :
    (transfer (mover cdb (some fh)) (some fh) lba len fuel 0).Meets (faulty bad) (fun _ => True)
      (OutOfFuel fuel len) x fun _ _ => True := by
  have hround (count : Nat) (x : Space) (hcount : count < len) (hbetween : Between luntype cdb f fh x) :
      (fseeko (some fh) (lba + count : Nat) .set).Meets (faulty bad) (fun _ => True) (fun _ => False) x fun _ x' =>
        (mover cdb (some fh) count (len - count)).Meets (faulty bad) (fun _ => True) (fun _ => False) x' fun res x'' =>
          1 ≤ res ∧ res ≤ len - count ∧ Between luntype cdb f fh x'' := by
    refine (fseeko_faulty hbetween (lba + count)).mono (fun _ h => h) ?_
    rintro _ x' ⟨inode, g, hat, hread⟩
    refine (mover_faulty hat hread count (by omega)).mono (fun _ h => h) ?_
    rintro res x'' ⟨hbetween', hle, hmore, -⟩
    exact ⟨hmore (hgoes _ (by omega) (by omega)), hle, hbetween'⟩
  refine (transfer_meets 1 (fun _ => Between luntype cdb f fh) hlen hround fuel (Nat.zero_le len) h).mono ?_
    fun _ _ _ => trivial
  rintro e (hnone | hmissing)
  · exact hnone.elim
  · rwa [Nat.mul_one] at hmissing

/-- A transfer that is stopped goes on forever. -/
theorem transfer_stuck (hlen : len < 2 ^ 31) {o : Nat} (hlo : lba ≤ o) (hhi : o < lba + len)
    (hstops : Stops bad luntype cdb f o) (fuel : Nat) (h : Between luntype cdb f fh x) :
    (transfer (mover cdb (some fh)) (some fh) lba len fuel 0).Meets (faulty bad) (fun _ => True)
      (fun e => e = .diverge) x fun _ _ => False := by
  have hround (count : Nat) (x : Space) (hcount : count < len)
      (hbefore : Between luntype cdb f fh x ∧ lba + count ≤ o) :
      (fseeko (some fh) (lba + count : Nat) .set).Meets (faulty bad) (fun _ => True) (fun _ => False) x fun _ x' =>
        (mover cdb (some fh) count (len - count)).Meets (faulty bad) (fun _ => True) (fun _ => False) x' fun res x'' =>
          0 ≤ res ∧ res ≤ len - count ∧ Between luntype cdb f fh x'' ∧ lba + (count + res) ≤ o := by
    refine (fseeko_faulty hbefore.1 (lba + count)).mono (fun _ h => h) ?_
    rintro _ x' ⟨inode, g, hat, hread⟩
    refine (mover_faulty hat hread count (by omega)).mono (fun _ h => h) ?_
    rintro res x'' ⟨hbetween', hle, -, hstop⟩
    have hshort := hstop o hstops hbefore.2
    exact ⟨Nat.zero_le res, hle, hbetween', by omega⟩
  refine (transfer_meets 0 (fun count x' => Between luntype cdb f fh x' ∧ lba + count ≤ o) hlen hround fuel
    (Nat.zero_le len) ⟨h, hlo⟩).mono ?_ ?_
  · rintro e (hnone | hmissing)
    · exact hnone.elim
    · exact hmissing.1
  · rintro _ x' ⟨-, hpast⟩
    omega

/-- Whatever the transfers, a transfer that comes to its end has moved all bytes. -/
theorem transfer_moved (hlen : len < 2 ^ 31) (fuel : Nat) (h : x.world.Content fh inode (luntype ≠ .dvd_rom) f) :
    Settles (transfer (mover cdb (some fh)) (some fh) lba len fuel 0) x fun _ x' =>
      if cdb.get 0 = 0x28 then x'.data = blit x.data 0 (slice f.bytes lba len)
      else x'.world.Content fh inode (luntype ≠ .dvd_rom) (f.pwrite lba (slice x.data 0 len)) := by
  by_cases hop : cdb.get 0 = 0x28
  · simp only [hop, if_true, mover_read hop]
    exact (transfer_fread_settles hlen fuel h).mono (fun _ h => h) fun _ _ h => h.2
  · simp only [hop, if_false, mover_write hop]
    exact transfer_fwrite_settles hlen fuel h

/-- With enough fuel a transfer that nothing stops returns, with all bytes moved. -/
theorem transfer_exec {m : Machine Choice Space} (hlen : len < 2 ^ 31)
    (hgoes : ∀ o, lba ≤ o → o < lba + len → ¬ Stops bad luntype cdb f o)
    (h : m.state.world.Content fh inode (luntype ≠ .dvd_rom) f) :
    ∃ m', (transfer (mover cdb (some fh)) (some fh) lba len len 0).exec (faulty bad) m = .ok ((), m') ∧
      if cdb.get 0 = 0x28 then m'.state.data = blit m.state.data 0 (slice f.bytes lba len)
      else m'.state.world.Content fh inode (luntype ≠ .dvd_rom) (f.pwrite lba (slice m.state.data 0 len)) := by
  have hbetween : Between luntype cdb f fh m.state := ⟨inode, f, h, fun _ => rfl⟩
  rcases (transfer_passes hlen hgoes len hbetween).exec (fun _ => trivial) with ⟨_, m', hexec, -⟩ | ⟨e, -, -, hfuel⟩
  · refine ⟨m', hexec, ?_⟩
    rcases (faulty_refines (transfer_moved hlen len h) bad).exec (fun _ => trivial) with ⟨_, m₁, hexec₁, -, hmoved⟩ | ⟨e, hexec₁, -⟩
    · rw [hexec] at hexec₁
      cases hexec₁
      exact hmoved
    · rw [hexec] at hexec₁
      cases hexec₁
  · omega

section Command

variable (hserves : Serves td lun ld) (hopened : Opened luntype ld x.world f) {cmds : CommandTable}
  (hcmds : ld.cmds = some cmds) (hblocks : blocks cmds cdb = some (lba, n))

include hserves hcmds hblocks

/-- A command on blocks is an access. -/
theorem run_blocks_eq (fuel : Nat) (data_size : Int) : run_scsi_command fuel td lun cdb data_size = do
    let outcome ← access (mover cdb ld.lun_fh) fuel ld data_size lba n
    return (outcome.status, putLun td lun outcome.ld) := by
  obtain ⟨func, hfunc, haccess⟩ := blocks_access hblocks
  rw [run_scsi_command_eq hserves.type (findLun_eq hserves.find) hcmds hfunc, haccess]

/-- Beyond the bound a command returns status 2. -/
theorem ends_of_beyond (hbeyond : bound ld < ((lba + n) * ld.block_size.toNat : Nat)) :
    EndsAlways bad td lun ld cdb lba n x f := by
  intro data_size choices
  refine ⟨0, 2, putLun td lun ld, { state := x, choices }, ?_, nofun⟩
  rw [run_blocks_eq hserves hcmds hblocks, access_eq, if_pos hbeyond]
  rfl

include hopened

/-- Within it the command returns if nothing stops its transfer. -/
theorem ends_of_goes (hbound : ¬ bound ld < ((lba + n) * ld.block_size.toNat : Nat))
    (hgoes : ∀ o, lba * ld.block_size.toNat ≤ o → o < (lba + n) * ld.block_size.toNat → ¬ Stops bad luntype cdb f o) :
    EndsAlways bad td lun ld cdb lba n x f := by
  obtain ⟨number, lunfile, lunsizeinmb, time, fh, inode, hld, hcontent⟩ := hopened
  have hfh : ld.lun_fh = some fh := by rw [hld]; cases luntype <;> rfl
  have hmode : decide (luntype ≠ .dvd_rom) = decide (ld.current_profile ≠ 0x0010) := by
    rw [hld]
    cases luntype <;> rfl
  intro data_size choices
  rw [Nat.add_mul] at hgoes
  obtain ⟨m', hexec, hmoved⟩ := transfer_exec (m := { state := x, choices }) (access_len hbound) hgoes hcontent
  refine ⟨n * ld.block_size.toNat, 0, putLun td lun ld, m', ?_, fun _ => ?_⟩
  · rw [run_blocks_eq hserves hcmds hblocks, access_eq, if_neg hbound, hfh]
    simp only [Prog.exec_bind, hexec]
    rfl
  · unfold Moved
    by_cases hop : cdb.get 0 = 0x28
    · rw [if_pos hop] at hmoved ⊢
      exact hmoved
    · rw [if_neg hop] at hmoved ⊢
      rw [hmode] at hmoved
      exact ⟨fh, inode, hfh, hmoved⟩

/-- A transfer that is stopped never comes back. -/
theorem not_ends_of_stops (hbound : ¬ bound ld < ((lba + n) * ld.block_size.toNat : Nat)) {o : Nat}
    (hlo : lba * ld.block_size.toNat ≤ o) (hhi : o < (lba + n) * ld.block_size.toNat) (hstops : Stops bad luntype cdb f o) :
    ¬ EndsAlways bad td lun ld cdb lba n x f := by
  intro hends
  obtain ⟨fuel, status, td', m', hexec, -⟩ := hends 0 fun _ => .whole
  obtain ⟨number, lunfile, lunsizeinmb, time, fh, inode, hld, hcontent⟩ := hopened
  have hfh : ld.lun_fh = some fh := by rw [hld]; cases luntype <;> rfl
  rw [Nat.add_mul] at hhi
  have hstuck := transfer_stuck (access_len hbound) hlo hhi hstops fuel
    (⟨inode, f, hcontent, fun _ => rfl⟩ : Between luntype cdb f fh x)
  rw [run_blocks_eq hserves hcmds hblocks, access_eq, if_neg hbound, hfh] at hexec
  rcases hstuck.exec (m := { state := x, choices := fun _ => .whole }) (fun _ => trivial) with ⟨_, _, _, _, hnever⟩ | ⟨e, herror, -⟩
  · exact hnever
  · simp only [Prog.exec_bind, herror] at hexec
    cases hexec

/-- A command on blocks comes back exactly when it is turned away or nothing stops
its transfer. -/
theorem media_access_ends_iff : EndsAlways bad td lun ld cdb lba n x f ↔
    bound ld < ((lba + n) * ld.block_size.toNat : Nat) ∨
      ∀ o, lba * ld.block_size.toNat ≤ o → o < (lba + n) * ld.block_size.toNat → ¬ Stops bad luntype cdb f o := by
  constructor
  · intro hends
    by_contra hcond
    obtain ⟨hbound, hstopped⟩ := not_or.mp hcond
    exact hstopped fun o hlo hhi hstops =>
      not_ends_of_stops hserves hopened hcmds hblocks hbound hlo hhi hstops hends
  · rintro (hbeyond | hgoes)
    · exact ends_of_beyond hserves hcmds hblocks hbeyond
    · by_cases hbeyond : bound ld < ((lba + n) * ld.block_size.toNat : Nat)
      · exact ends_of_beyond hserves hcmds hblocks hbeyond
      · exact ends_of_goes hserves hopened hcmds hblocks hbeyond hgoes

end Command

/-- A DVD-ROM that `add_lun` has opened. -/
def romWorld (f : File) : World :=
  { World.oneFile "dvd".toList f with
    streams := Function.update (fun _ => none) 0 (some (.opened 0 false)), next := 1 }

theorem rom_opened (f : File) : Opened .dvd_rom (newLun 0 "dvd".toList .dvd_rom 1 0 (some 0)) (romWorld f) f :=
  ⟨0, _, 1, 0, 0, 0, rfl, World.opened_content rfl⟩

theorem media_access_ends_one_block : EndsAlways (fun _ => false) (diskTarget 1) 0 (newLun 0 "disk".toList .hd 1 0 (some 0))
    (cdb10 0x28 0 1) 0 1 { world := diskWorld 1, data := fun _ => 0 } ((diskWorld 1).fs.files 0) := by
  refine (media_access_ends_iff (disk_made 1).serves ⟨0, _, 1, 0, 0, 0, rfl, World.opened_content rfl⟩ rfl rfl).mpr
    (.inr fun o _ hhi => ?_)
  have hsize : ((diskWorld 1).fs.files 0).size = 1048576 := rfl
  have hend : o < 512 := hhi
  rintro (hbad | hpast)
  · cases hbad
  · have hpast : ((diskWorld 1).fs.files 0).size ≤ o := hpast
    omega

/-- On a DVD-ROM of 1 MiB whose file is empty, neither the read nor the write of
the first block ever returns. -/
theorem media_access_hangs : (∃ m m', (add_lun (add_target "virtualdvd".toList TARGET_TYPE_EMULATION) 0 "dvd".toList
      .dvd_rom 1).exec libc m = .ok (dvdTarget .dvd_rom, m') ∧ m'.state.world = romWorld .empty) ∧
    ∀ opcode ∈ [0x28, 0x2a], ¬ EndsAlways (fun _ => false) (dvdTarget .dvd_rom) 0
      (newLun 0 "dvd".toList .dvd_rom 1 0 (some 0)) (cdb10 opcode 0 1) 0 1
      { world := romWorld .empty, data := fun _ => 0 } .empty := by
  refine ⟨⟨{ state := { world := .oneFile "dvd".toList .empty, data := fun _ => 0 }, choices := fun _ => .whole }, _,
    rfl, rfl⟩, fun opcode hopcode hends => ?_⟩
  have hserves : Serves (dvdTarget .dvd_rom) 0 (newLun 0 "dvd".toList .dvd_rom 1 0 (some 0)) := ⟨rfl, rfl⟩
  rcases List.mem_pair.mp hopcode with rfl | rfl
  · exact absurd hends (not_ends_of_stops hserves (rom_opened .empty) rfl rfl (by decide) (Nat.le_refl 0) (by decide)
      (.inr (Nat.le_refl 0)))
  · exact absurd hends (not_ends_of_stops hserves (rom_opened .empty) rfl rfl (by decide) (Nat.le_refl 0) (by decide)
      (.inr rfl))

end vscsi.scsi_target
