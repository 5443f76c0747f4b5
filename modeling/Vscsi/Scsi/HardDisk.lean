import Vscsi.Scsi.Media

open lib lib.Code

namespace vscsi

/-- A hard disk as `add_lun` sets it up, on a stream whose contents are `f`. -/
structure Mounted (ld : LunData) (w : World) (fh inode : Nat) (f : File) : Prop where
  lun_fh : ld.lun_fh = some fh
  block_size : ld.block_size = 512
  cmds : ld.cmds = some .sbc
  size : (f.size : Int) = ld.lunsizeinmb * 1024 * 1024
  volume : w.Volume fh inode f

namespace scsi

/-- The bound is the size of the disk as far as an `int` can hold it. -/
theorem bound_eq (ld : LunData) : bound ld = int32 (ld.lunsizeinmb * 1024 * 1024) := int32_mul_int32 _ _

/-- What lies below the bound lies in the file. -/
theorem bound_le_size {ld : LunData} {w : World} {fh inode : Nat} {f : File} (h : Mounted ld w fh inode f) :
    bound ld ≤ f.size := by
  rw [bound_eq, ← h.size]
  exact int32_le (by omega)

theorem bound_lt (ld : LunData) : bound ld < 2 ^ 31 := int32_lt _

variable {ld : LunData} {fh inode : Nat} {f : File} {x : Space} {lba n : Nat}

/-- The place and the length of an access in bytes. -/
theorem access_bytes (h : ld.block_size = 512) (blocks : Nat) :
    (blocks : Int) * ld.block_size.toNat = ((blocks * 512 : Nat) : Int) := by
  rw [h]
  simp

/-- Beyond the bound nothing is done. -/
theorem access_rejected (move : Nat → Nat → Code Nat) (fuel : Nat) (hblock : ld.block_size = 512)
    (data_size : Int) (hbeyond : bound ld < ((lba + n) * 512 : Nat)) :
    access move fuel ld data_size lba n = return { ld, data_size, status := 2 } := by
  unfold access
  rw [access_bytes hblock, access_bytes hblock, if_pos]
  omega

/-- Up to the bound the transfer is made. -/
theorem access_accepted (move : Nat → Nat → Code Nat) (fuel : Nat) (hblock : ld.block_size = 512)
    (data_size : Int) (hbound : ((lba + n) * 512 : Nat) ≤ bound ld) :
    access move fuel ld data_size lba n = do
      transfer move ld.lun_fh (lba * 512 : Nat) (n * 512 : Nat) fuel 0
      return { ld, data_size := (n * 512 : Nat), status := 0 } := by
  have hlt := bound_lt ld
  have hsize : int32 ((n * 512 : Nat) : Int) = (n * 512 : Nat) := int32_of_range (by omega) (by omega)
  unfold access
  rw [access_bytes hblock, access_bytes hblock, if_neg (by omega), hsize]

/-- What a command that read `n` blocks leaves: they are in `data`. -/
structure ReadBlocks (ld : LunData) (fh inode : Nat) (f : File) (lba n : Nat) (x : Space) (o : Outcome)
    (x' : Space) : Prop where
  outcome : o = { ld, data_size := (n * 512 : Nat), status := 0 }
  volume : x'.world.Volume fh inode f
  data : x'.data = blit x.data 0 (slice f.bytes (lba * 512) (n * 512))

/-- What a command that wrote `n` blocks leaves: they are in the volume. -/
structure WroteBlocks (ld : LunData) (fh inode : Nat) (f : File) (lba n : Nat) (x : Space) (o : Outcome)
    (x' : Space) : Prop where
  outcome : o = { ld, data_size := (n * 512 : Nat), status := 0 }
  volume : x'.world.Volume fh inode (f.pwrite (lba * 512) (slice x.data 0 (n * 512)))
  data : x'.data = x.data

theorem read_ends (h : Mounted ld x.world fh inode f) (fuel : Nat) (data_size : Int)
    (hbound : ((lba + n) * 512 : Nat) ≤ bound ld) :
    Ends (OutOfFuel fuel (n * 512)) (access (fread · · ld.lun_fh) fuel ld data_size lba n) x
      (ReadBlocks ld fh inode f lba n x) := by
  have hinside := bound_le_size h
  have hlt := bound_lt ld
  rw [access_accepted _ fuel h.block_size data_size hbound, h.lun_fh]
  refine Prog.Meets.bind (transfer_fread (by omega) (by omega) fuel h.volume) ?_
  rintro _ x' ⟨hvolume, hdata⟩
  exact ⟨rfl, hvolume, hdata⟩

theorem write_ends (h : Mounted ld x.world fh inode f) (fuel : Nat) (data_size : Int)
    (hbound : ((lba + n) * 512 : Nat) ≤ bound ld) :
    Ends (OutOfFuel fuel (n * 512)) (access (fwrite · · ld.lun_fh) fuel ld data_size lba n) x
      (WroteBlocks ld fh inode f lba n x) := by
  have hlt := bound_lt ld
  rw [access_accepted _ fuel h.block_size data_size hbound, h.lun_fh]
  refine Prog.Meets.bind (transfer_fwrite (by omega) fuel h.volume) ?_
  rintro _ x' ⟨hvolume, hdata⟩
  exact ⟨rfl, hvolume, hdata⟩

/-- The eight bytes that two wide stores of four leave. -/
theorem wide_stores (data : Mem) (first second : List UInt8) (hfirst : first.length = 4) (hsecond : second.length = 4) :
    slice (blit (blit data 0 (first ++ [0, 0, 0, 0])) 4 (second ++ [0, 0, 0, 0])) 0 8 = first ++ second := by
  have hlow : slice (blit (blit data 0 (first ++ [0, 0, 0, 0])) 4 (second ++ [0, 0, 0, 0])) 0 4 = first := by
    rw [slice_blit_disjoint _ (.inl (by omega))]
    have hprefix := slice_blit_prefix data 0 first [0, 0, 0, 0]
    rwa [hfirst] at hprefix
  have hhigh : slice (blit (blit data 0 (first ++ [0, 0, 0, 0])) 4 (second ++ [0, 0, 0, 0])) 4 4 = second := by
    have hprefix := slice_blit_prefix (blit data 0 (first ++ [0, 0, 0, 0])) 4 second [0, 0, 0, 0]
    rwa [hsecond] at hprefix
  rw [slice_append _ 0 4 4, hlow, Nat.zero_add, hhigh]

/-- READ CAPACITY(10) stores the number of whole blocks less one, and leaves the
stream at the end. -/
theorem sbc_read_capacity10_meets {ok : Choice → Prop} {writable : Bool} (hfh : ld.lun_fh = some fh)
    (h : x.world.Content fh inode writable f) (fuel : Nat) (td : TargetData) (cdb : Cdb) (data_size : Int) :
    (sbc_read_capacity10 fuel td ld cdb data_size).Meets libc ok (fun _ => False) x fun o x' =>
      o = { ld, data_size := 8, status := 0 } ∧ x'.world.ContentAt fh inode writable f f.size ∧
        slice x'.data 0 8 =
          be 4 (UInt32.ofInt (wholeBlocks f.size ld - 1)).toNat ++ be 4 (UInt32.ofNat ld.block_size.toNat).toNat := by
  unfold sbc_read_capacity10
  refine Prog.Meets.call fun _ _ => ⟨_, _, rfl, ?_⟩
  rw [hfh]
  refine Prog.Meets.call fun choice _ => ?_
  obtain ⟨w, hseek, hat⟩ := content_fseeko_end choice
    (x := { x with data := blit x.data 0 (List.replicate 8 0) }) h
  refine ⟨_, _, hseek, Prog.Meets.call fun choice' _ => ⟨_, _, content_ftello hat, ?_⟩⟩
  refine Prog.Meets.call fun _ _ => ⟨_, _, rfl, Prog.Meets.call fun _ _ => ⟨_, _, rfl, rfl, hat, ?_⟩⟩
  simp only [le64_htonl]
  exact wide_stores _ _ _ (be_length _ _) (be_length _ _)

/-- A number of blocks less one fits into the field for it. -/
theorem lastBlock_eq {blocks : Nat} (hcount : wholeBlocks f.size ld = blocks) (hpos : 1 ≤ blocks) (hmax : blocks ≤ 2 ^ 32) :
    (UInt32.ofInt (wholeBlocks f.size ld - 1)).toNat = blocks - 1 := by
  have hmod : (((blocks : Int) - 1) % 2 ^ 32).toNat = blocks - 1 := by omega
  rw [hcount, UInt32.ofInt, hmod, UInt32.toNat_ofNat']
  omega

/-- What READ CAPACITY(10) leaves for a file of `blocks` blocks. -/
structure ReportedCapacity (ld : LunData) (fh inode : Nat) (f : File) (blocks : Nat) (o : Outcome) (x' : Space) :
    Prop where
  outcome : o = { ld, data_size := 8, status := 0 }
  volume : x'.world.Volume fh inode f
  data : slice x'.data 0 8 = be 4 (blocks - 1) ++ be 4 512

theorem sbc_read_capacity10_ends (h : Mounted ld x.world fh inode f) (fuel : Nat) (td : TargetData) (cdb : Cdb)
    (data_size : Int) {blocks : Nat} (hblocks : f.size = blocks * 512) (hpos : 1 ≤ blocks) (hmax : blocks ≤ 2 ^ 32) :
    Ends (fun _ => False) (sbc_read_capacity10 fuel td ld cdb data_size) x
      (ReportedCapacity ld fh inode f blocks) := by
  have hcount : wholeBlocks f.size ld = blocks := by
    have hdiv : (f.size : Int) / ld.block_size.toNat = blocks := by
      rw [h.block_size, hblocks]
      simp
    simp only [wholeBlocks, hdiv, ne_eq, not_true_eq_false, if_false]
  have hblock : (UInt32.ofNat ld.block_size.toNat).toNat = 512 := by
    rw [h.block_size]
    rfl
  refine (sbc_read_capacity10_meets h.lun_fh (World.volume_iff.mp h.volume) fuel td cdb data_size).mono (fun _ h => h) ?_
  rintro o x' ⟨hout, hat, hdata⟩
  refine ⟨hout, World.volume_iff.mpr hat.content, ?_⟩
  rw [hdata, lastBlock_eq hcount hpos hmax, hblock]

end scsi

end vscsi
