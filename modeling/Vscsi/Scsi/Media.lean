import Vscsi.Lib.Volume
import Vscsi.Scsi.Target

open lib lib.Code

namespace vscsi.scsi

/-- The first block and the number of blocks of a command that moves blocks. -/
def blocks (cmds : CommandTable) (cdb : Cdb) : Option (Nat × Nat) :=
  match cmds, cdb.get 0 with
  | _, 0x28 => some (beNat (cdb.field 2 4), beNat (cdb.field 7 2))
  | _, 0x2a => some (beNat (cdb.field 2 4), beNat (cdb.field 7 2))
  | .sbc, 0x0a => some (beNat (cdb.field 2 2), (cdb.get 4).toNat)
  | .sbc, 0xaa => some (beNat (cdb.field 2 4), beNat (cdb.field 6 4))
  | _, _ => none

/-- The call that moves the blocks of a command. -/
def mover (cdb : Cdb) (fh : Option Nat) (i count : Nat) : Code Nat :=
  if cdb.get 0 = 0x28 then fread i count fh else fwrite i count fh

theorem mover_read {cdb : Cdb} (h : cdb.get 0 = 0x28) (fh : Option Nat) : mover cdb fh = (fread · · fh) := by
  funext i count
  rw [mover, if_pos h]

theorem mover_write {cdb : Cdb} (h : cdb.get 0 ≠ 0x28) (fh : Option Nat) : mover cdb fh = (fwrite · · fh) := by
  funext i count
  rw [mover, if_neg h]

/-- The handlers for the commands that move blocks are accesses. -/
theorem blocks_access {cmds : CommandTable} {cdb : Cdb} {lba n : Nat} (h : blocks cmds cdb = some (lba, n)) :
    ∃ func, cmds.func (cdb.get 0) = some func ∧ ∀ fuel td ld data_size,
      func fuel td ld cdb data_size = access (mover cdb ld.lun_fh) fuel ld data_size lba n := by
  have hlong := cdb.ntohl_long (i := 2) (by decide)
  have hshort := cdb.ntohs_short (i := 7) (by decide)
  have hread (hop : cdb.get 0 = 0x28) (fuel : Nat) (td : TargetData) (ld : LunData) (data_size : Int) :
      sbc_read10 fuel td ld cdb data_size =
        access (mover cdb ld.lun_fh) fuel ld data_size (beNat (cdb.field 2 4)) (beNat (cdb.field 7 2)) := by
    rw [sbc_read10, hlong, hshort, mover_read hop]
  have hwrite (hop : cdb.get 0 = 0x2a) (fuel : Nat) (td : TargetData) (ld : LunData) (data_size : Int) :
      sbc_write10 fuel td ld cdb data_size =
        access (mover cdb ld.lun_fh) fuel ld data_size (beNat (cdb.field 2 4)) (beNat (cdb.field 7 2)) := by
    rw [sbc_write10, hlong, hshort, mover_write (by rw [hop]; decide)]
  unfold blocks at h
  split at h
  · rename_i cmds _ _ hop
    cases h
    exact ⟨sbc_read10, by rw [hop]; cases cmds <;> rfl, hread hop⟩
  · rename_i cmds _ _ hop
    cases h
    exact ⟨sbc_write10, by rw [hop]; cases cmds <;> rfl, hwrite hop⟩
  · rename_i hop
    cases h
    refine ⟨sbc_write6, by rw [hop]; rfl, fun fuel td ld data_size => ?_⟩
    rw [sbc_write6, cdb.ntohs_short (by decide), mover_write (by rw [hop]; decide)]
  · rename_i hop
    cases h
    refine ⟨sbc_write12, by rw [hop]; rfl, fun fuel td ld data_size => ?_⟩
    rw [sbc_write12, hlong, cdb.ntohl_long (by decide), mover_write (by rw [hop]; decide)]
  · cases h

/-- The only failure of a transfer is to be still under way after fewer rounds
than it may need. -/
def OutOfFuel (fuel rounds : Nat) (e : Fault) : Prop := e = .diverge ∧ fuel < rounds

/-- What a computation of a target meets while transfers make progress. -/
abbrev Ends {α : Type} (tolerated : Fault → Prop) (p : Code α) (x : Space) (Q : α → Space → Prop) : Prop :=
  p.Meets libc Choice.Progress tolerated x Q

/-- The loop rule: a round that moves at least so many of the bytes left keeps the
invariant, so that it holds with all bytes moved at the end. -/
theorem transfer_meets {sem : Sem Reply Choice Space Fault} {ok : Choice → Prop} {tolerated : Fault → Prop}
    {move : Nat → Nat → Code Nat} {fh : Option Nat} {lba len : Nat} (least : Nat) (Inv : Nat → Space → Prop)
    (hlen : len < 2 ^ 31)
    (hround : ∀ count x, count < len → Inv count x →
      (fseeko fh (lba + count : Nat) .set).Meets sem ok tolerated x fun _ x' =>
        (move count (len - count)).Meets sem ok tolerated x' fun res x'' =>
          least ≤ res ∧ res ≤ len - count ∧ Inv (count + res) x'')
    (fuel : Nat) {count : Nat} (hcount : count ≤ len) {x : Space} (hinv : Inv count x) :
    (transfer move fh lba len fuel count).Meets sem ok
      (fun e => tolerated e ∨ OutOfFuel (fuel * least) (len - count) e) x fun _ x' => Inv len x' := by
  induction fuel generalizing count x with
  | zero =>
    unfold transfer
    by_cases hmore : (count : Int) < len
    · rw [if_pos hmore]
      exact .inr ⟨rfl, by omega⟩
    · rw [if_neg hmore]
      obtain rfl : count = len := by omega
      exact hinv
  | succ fuel ih =>
    unfold transfer
    by_cases hmore : (count : Int) < len
    · rw [if_pos hmore]
      have hleft : size_t (len - count) = len - count := by
        have hsize := size_t_of_range (x := len - count) (by omega) (by omega)
        omega
      rw [← Int.natCast_add, hleft, Int.toNat_natCast]
      refine Prog.Meets.bind ((hround count x (by omega) hinv).mono (fun _ h => .inl h) fun _ _ h => h) ?_
      intro _ x' hmoved
      refine Prog.Meets.bind (hmoved.mono (fun _ h => .inl h) fun _ _ h => h) ?_
      rintro res x'' ⟨hleast, hle, hinv'⟩
      have hint : int32 (count + res) = ((count + res : Nat) : Int) := by
        rw [Int.natCast_add]
        exact int32_of_range (by omega) (by omega)
      rw [hint]
      refine (ih (by omega) hinv').mono ?_ fun _ _ h => h
      have hfuel : (fuel + 1) * least = fuel * least + least := Nat.add_one_mul fuel least
      rintro e (he | ⟨he, hmissing⟩)
      · exact .inl he
      · exact .inr ⟨he, by omega⟩
    · rw [if_neg hmore]
      obtain rfl : count = len := by omega
      exact hinv

/-- Rounds that move at least one byte come to the end. -/
theorem transfer_ends {move : Nat → Nat → Code Nat} {fh : Option Nat} {lba len : Nat} (Inv : Nat → Space → Prop)
    (hlen : len < 2 ^ 31)
    (hround : ∀ count x, count < len → Inv count x →
      Ends (fun _ => False) (fseeko fh (lba + count : Nat) .set) x fun _ x' =>
        Ends (fun _ => False) (move count (len - count)) x' fun res x'' =>
          1 ≤ res ∧ res ≤ len - count ∧ Inv (count + res) x'')
    (fuel : Nat) {count : Nat} (hcount : count ≤ len) {x : Space} (hinv : Inv count x) :
    Ends (OutOfFuel fuel (len - count)) (transfer move fh lba len fuel count) x fun _ x' => Inv len x' := by
  refine (transfer_meets 1 Inv hlen hround fuel hcount hinv).mono ?_ fun _ _ h => h
  rintro e (hnone | hmissing)
  · exact hnone.elim
  · rwa [Nat.mul_one] at hmissing

variable {fh inode : Nat} {f : File} {lba len : Nat}

theorem fseeko_ends {x : Space} (h : x.world.Volume fh inode f) (target : Nat) :
    Ends (fun _ => False) (fseeko (some fh) target .set) x fun _ x' =>
      x'.data = x.data ∧ x'.world.VolumeAt fh inode f target := by
  refine Prog.Meets.call fun choice _ => ?_
  obtain ⟨w, hcall, hat⟩ := libc_fseeko choice h target
  exact ⟨_, _, hcall, rfl, hat⟩

/-- A read inside the volume gets at least one byte. -/
theorem fread_ends {x : Space} {pos : Nat} (h : x.world.VolumeAt fh inode f pos) (i : Nat) {count : Nat}
    (hpos : 0 < count) (hinside : pos + count ≤ f.size) :
    Ends (fun _ => False) (fread i count (some fh)) x fun res x' =>
      1 ≤ res ∧ res ≤ count ∧ x'.world.Volume fh inode f ∧ x'.data = blit x.data i (slice f.bytes pos res) := by
  refine Prog.Meets.call fun choice hprogress => ?_
  obtain ⟨w, hcall, hvolume⟩ := libc_fread choice h i count
  refine ⟨_, _, hcall, ?_⟩
  have hprogress : 1 ≤ choice.amount := hprogress
  have hbytes : (f.pread pos count).take choice.amount = slice f.bytes pos (min choice.amount count) := by
    rw [f.pread_eq pos hinside, take_slice]
  rw [hbytes, slice_length]
  exact ⟨by omega, by omega, hvolume, rfl⟩

/-- A write puts at least one byte. -/
theorem fwrite_ends {x : Space} {pos : Nat} (h : x.world.VolumeAt fh inode f pos) (i : Nat) {count : Nat}
    (hpos : 0 < count) :
    Ends (fun _ => False) (fwrite i count (some fh)) x fun res x' =>
      1 ≤ res ∧ res ≤ count ∧ x'.world.Volume fh inode (f.pwrite pos (slice x.data i res)) ∧ x'.data = x.data := by
  refine Prog.Meets.call fun choice hprogress => ?_
  obtain ⟨w, hcall, hvolume⟩ := libc_fwrite choice h i count
  refine ⟨_, _, hcall, ?_⟩
  have hprogress : 1 ≤ choice.amount := hprogress
  rw [take_slice] at hvolume ⊢
  rw [slice_length]
  exact ⟨by omega, by omega, hvolume, rfl⟩

/-- A transfer that reads leaves in `data` the bytes of the volume. -/
theorem transfer_fread (hlen : len < 2 ^ 31) (hinside : lba + len ≤ f.size) (fuel : Nat) {x : Space}
    (h : x.world.Volume fh inode f) :
    Ends (OutOfFuel fuel len) (transfer (fread · · (some fh)) (some fh) lba len fuel 0) x fun _ x' =>
      x'.world.Volume fh inode f ∧ x'.data = blit x.data 0 (slice f.bytes lba len) := by
  refine transfer_ends (fun count x' => x'.world.Volume fh inode f ∧
    x'.data = blit x.data 0 (slice f.bytes lba count)) hlen ?_ fuel (Nat.zero_le _) ⟨h, by simp⟩
  rintro count x' hcount ⟨hvolume, hdata⟩
  refine (fseeko_ends hvolume (lba + count)).mono (fun _ h => h) ?_
  rintro _ x'' ⟨hsame, hat⟩
  refine (fread_ends hat count (by omega) (by omega)).mono (fun _ h => h) ?_
  rintro res x''' ⟨hpos, hle, hvolume', hdata'⟩
  refine ⟨hpos, hle, hvolume', ?_⟩
  have happend := blit_append x.data 0 (slice f.bytes lba count) (slice f.bytes (lba + count) res)
  rw [slice_length, Nat.zero_add, ← slice_append] at happend
  rw [hdata', hsame, hdata, happend]

/-- A transfer that writes leaves the bytes of `data` in the volume. -/
theorem transfer_fwrite (hlen : len < 2 ^ 31) (fuel : Nat) {x : Space} (h : x.world.Volume fh inode f) :
    Ends (OutOfFuel fuel len) (transfer (fwrite · · (some fh)) (some fh) lba len fuel 0) x fun _ x' =>
      x'.world.Volume fh inode (f.pwrite lba (slice x.data 0 len)) ∧ x'.data = x.data := by
  refine transfer_ends (fun count x' =>
    x'.world.Volume fh inode (f.pwrite lba (slice x.data 0 count)) ∧ x'.data = x.data) hlen ?_ fuel
    (Nat.zero_le _) ⟨by simpa using h, rfl⟩
  rintro count x' hcount ⟨hvolume, hdata⟩
  refine (fseeko_ends hvolume (lba + count)).mono (fun _ h => h) ?_
  rintro _ x'' ⟨hsame, hat⟩
  refine (fwrite_ends hat count (by omega)).mono (fun _ h => h) ?_
  rintro res x''' ⟨hpos, hle, hvolume', hdata'⟩
  refine ⟨hpos, hle, ?_, hdata'.trans (hsame.trans hdata)⟩
  have happend := f.pwrite_append lba (slice x.data 0 count) (slice x.data count res)
  rw [slice_length] at happend
  rw [hsame, hdata, happend] at hvolume'
  have hslice := slice_append x.data 0 count res
  rw [Nat.zero_add] at hslice
  rwa [← hslice] at hvolume'

end vscsi.scsi
