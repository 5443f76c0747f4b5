import Vscsi.Scsi.HardDisk

open lib lib.Code

namespace lib

/-- The range of the data that a call is given to load from or store to, as its
start and its length. -/
def Call.range : Call → Nat × Nat
  | .store i bytes => (i, bytes.length)
  | .fread i count _ => (i, count)
  | .fwrite i count _ => (i, count)
  | _ => (0, 0)

/-- All places of the range are below a bound. -/
def Call.Within (room : Nat) (c : Call) : Prop := ∀ j, c.range.1 ≤ j → j < c.range.1 + c.range.2 → j < room

theorem Call.within_iff {room : Nat} {c : Call} : c.Within room ↔ c.range.2 = 0 ∨ c.range.1 + c.range.2 ≤ room := by
  constructor
  · intro h
    by_cases hempty : c.range.2 = 0
    · exact .inl hempty
    · have hlast := h (c.range.1 + c.range.2 - 1) (by omega) (by omega)
      exact .inr (by omega)
  · rintro h j hlo hhi
    omega

end lib

namespace vscsi.scsi

/-- A computation loads from and stores to places below a bound only; it crashes
by itself where the length of a `memset` is negative. -/
structure Confined {α : Type} (room : Nat) (p : Code α) (x : Space) : Prop where
  always : p.Always libc (Call.Within room) (· = .crash) x

variable {α β : Type} {room : Nat}

theorem Confined.pure (a : α) (x : Space) : Confined room (Pure.pure a : Code α) x := ⟨trivial⟩

theorem Confined.bind {p : Code α} {f : α → Code β} {x : Space} (h : Confined room p x)
    (hrest : ∀ a x', Confined room (f a) x') : Confined room (p >>= f) x :=
  ⟨h.always.bind fun a x' => (hrest a x').always⟩

theorem Confined.of_bind {p : Code α} {f : α → Code β} {x : Space} (h : Confined room (p >>= f) x) :
    Confined room p x := ⟨h.always.of_bind⟩

theorem Confined.fail {e : Fault} (h : e ≠ .crash) (x : Space) : Confined room (.fail e : Code α) x := ⟨h⟩

/-- A call that works on a stream or a name only. -/
theorem Confined.perform {c : Call} (h : c.range = (0, 0)) (x : Space) : Confined room (Prog.perform c : Code (Reply c)) x :=
  ⟨Call.within_iff.mpr (.inl (by rw [h])), fun _ _ _ _ => trivial⟩

theorem Confined.store {i : Nat} {bytes : List UInt8} (h : i + bytes.length ≤ room) (x : Space) :
    Confined room (Code.store i bytes) x :=
  ⟨Call.within_iff.mpr (.inr h), fun _ _ _ _ => trivial⟩

theorem Confined.clear {i count : Nat} (h : i + count ≤ room) (x : Space) : Confined room (scsi.clear i count) x := by
  rw [scsi.clear, if_neg (by omega)]
  exact .store (by simpa using h) x

theorem not_confined_clear {i : Nat} {count : Int} (h : count < 0) (x : Space) : ¬ Confined room (scsi.clear i count) x := by
  rw [scsi.clear, if_pos h]
  exact fun hnot => hnot.always rfl

theorem ntohs_toNat_lt (x : UInt16) : (ntohs x).toNat < 2 ^ 16 := (ntohs x).toNat_lt

theorem beNat_two_lt (b0 b1 : UInt8) : beNat [b0, b1] < 2 ^ 16 := beNat_lt [b0, b1]

section Handlers

variable {fuel : Nat} {td : TargetData} {ld : LunData} {cdb : Cdb} {data_size : Int} (hroom : 131073 ≤ room) (x : Space)

include hroom

theorem illegalRequest_confined : Confined room (illegalRequest ld) x :=
  .bind (.store (le_trans (by decide) hroom) x) fun _ => .pure _

theorem reportEntries_confined {alloc_len : Int} (halloc : alloc_len ≤ 131072) (luns : List LunData) (numluns : Nat) :
    Confined room (reportEntries alloc_len numluns luns) x := by
  induction luns generalizing numluns x with
  | nil => exact .pure _ x
  | cons tmplun luns ih =>
    unfold reportEntries
    split
    · refine .bind (.store ?_ x) fun _ x' => ih x' _
      simp only [List.length_singleton]
      omega
    · exact ih x _

theorem spc_report_luns_confined (hsize : data_size ≤ 131072) : Confined room (spc_report_luns fuel td ld cdb data_size) x := by
  unfold spc_report_luns
  simp only
  split
  · exact .pure _ x
  · refine .bind (.clear (by omega) x) fun _ x' => .bind (reportEntries_confined hroom x' (by omega) _ _) fun _ x'' => ?_
    exact .bind (.store (by simp [le64]; omega) x'') fun _ => .pure _

theorem spc_request_sense_confined : Confined room (spc_request_sense fuel td ld cdb data_size) x := by
  unfold spc_request_sense
  simp only
  split
  · exact .pure _ x
  · exact .bind (.store (le_trans (by decide) hroom) x) fun _ => .pure _

theorem spc_mode_sense6_confined : Confined room (spc_mode_sense6 fuel td ld cdb data_size) x := by
  unfold spc_mode_sense6
  simp only
  split
  · refine .bind (.store (le_trans (by decide) hroom) x) fun _ x' => ?_
    exact .bind (.store (le_trans (by simp) hroom) x') fun _ => .pure _
  · exact .bind (@Confined.clear room 0 18 (by omega) x) fun _ => .pure _

theorem spc_persistent_reserve_out_confined : Confined room (spc_persistent_reserve_out fuel td ld cdb data_size) x := by
  unfold spc_persistent_reserve_out
  simp only
  split
  · exact .pure _ x
  · exact illegalRequest_confined hroom x

theorem spc_persistent_reserve_in_confined : Confined room (spc_persistent_reserve_in fuel td ld cdb data_size) x := by
  have halloc := beNat_two_lt (cdb.get 7) (cdb.get 8)
  unfold spc_persistent_reserve_in
  simp only
  refine .bind (.clear (by omega) x) fun _ x' => ?_
  split
  · exact .pure _ x'
  · exact illegalRequest_confined hroom x'

theorem inquiryField_confined {i width : Nat} (h : i + width ≤ 131073) (s : List Char) :
    Confined room (inquiryField i width s) x := by
  refine .bind (.store (by simp; omega) x) fun _ => .store ?_
  simp only [chars, List.length_map, List.length_take]
  omega

theorem spc_inquiry_confined : Confined room (spc_inquiry fuel td ld cdb data_size) x := by
  have halloc := beNat_two_lt (cdb.get 3) (cdb.get 4)
  unfold spc_inquiry
  simp only
  refine .bind (.clear (by omega) x) fun _ x' => ?_
  split
  · split
    · exact .bind (.store (le_trans (by simp) hroom) x') fun _ => .pure _
    · exact .bind (.store (le_trans (by simp) hroom) x') fun _ => .pure _
    · exact .pure _ x'
  · refine .bind (.store (le_trans (by simp) hroom) x') fun _ x₁ => ?_
    refine .bind (inquiryField_confined hroom x₁ (by omega) _) fun _ x₂ => ?_
    refine .bind (inquiryField_confined hroom x₂ (by omega) _) fun _ x₃ => ?_
    exact .bind (inquiryField_confined hroom x₃ (by omega) _) fun _ => .pure _

theorem sbc_read_capacity10_confined : Confined room (sbc_read_capacity10 fuel td ld cdb data_size) x := by
  unfold sbc_read_capacity10
  refine .bind (@Confined.clear room 0 8 (by omega) x) fun _ x₁ => .bind (.perform rfl x₁) fun _ x₂ => ?_
  refine .bind (.perform rfl x₂) fun _ x₃ => .bind (.store (by simp [le64]; omega) x₃) fun _ x₄ => ?_
  exact .bind (.store (by simp [le64]; omega) x₄) fun _ => .pure _

theorem mmc_read_buffer_capacity_confined : Confined room (mmc_read_buffer_capacity fuel td ld cdb data_size) x := by
  unfold mmc_read_buffer_capacity
  simp only
  split
  · exact .pure _ x
  · exact .bind (.store (le_trans (by simp) hroom) x) fun _ => .pure _

theorem mmc_read_disc_information_confined : Confined room (mmc_read_disc_information fuel td ld cdb data_size) x := by
  have halloc := ntohs_toNat_lt (cdb.short 7)
  unfold mmc_read_disc_information
  refine .bind (.clear (by omega) x) fun _ x' => ?_
  simp only
  split
  · exact .bind (.store (le_trans (by simp) hroom) x') fun _ => .pure _
  · exact .bind (.store (le_trans (by simp) hroom) x') fun _ => .pure _
  · exact .pure _ x'

theorem mmc_read_track_information_confined : Confined room (mmc_read_track_information fuel td ld cdb data_size) x := by
  have halloc := ntohs_toNat_lt (cdb.short 7)
  unfold mmc_read_track_information
  simp only
  split
  · exact .pure _ x
  · refine .bind (.clear (by omega) x) fun _ x₁ => ?_
    split
    · exact .bind (.store (le_trans (by simp) hroom) x₁) fun _ => .pure _
    · refine .bind (.store (le_trans (by simp) hroom) x₁) fun _ x₂ => ?_
      refine .bind (.store (le_trans (by simp) hroom) x₂) fun _ x₃ => .bind (.perform rfl x₃) fun _ x₄ => ?_
      exact .bind (.store (le_trans (by simp) hroom) x₄) fun _ => .pure _
    · exact .pure _ x₁

omit hroom in
theorem insert_new_dvd_r_confined : Confined room (scsi_target.insert_new_dvd_r ld) x := by
  have hopen : ∀ x, Confined room (do
      let lun_fh ← fopen ld.filename .w_plus
      if lun_fh.isNone then .fail (.exit 10) else return { ld with lun_fh }) x := by
    intro x
    refine .bind (.perform rfl x) fun lun_fh x' => ?_
    split
    · exact .fail (by decide) _
    · exact .pure _ x'
  unfold scsi_target.insert_new_dvd_r
  simp only
  split
  · refine .bind (.perform rfl x) fun _ x₁ => .bind (.perform rfl x₁) fun _ x₂ => .bind (.perform rfl x₂) fun _ x₃ => ?_
    split
    · refine .bind (.perform rfl x₃) fun _ x₄ => .bind (.perform rfl x₄) fun _ x₅ => .bind (.perform rfl x₅) fun _ => ?_
      exact hopen
    · exact hopen x₃
  · exact hopen x

theorem mmc_get_performance_confined : Confined room (mmc_get_performance fuel td ld cdb data_size) x := by
  unfold mmc_get_performance
  simp only
  split
  · split
    · exact .bind (.store (le_trans (by simp) hroom) x) fun _ => .pure _
    · exact .bind (.store (le_trans (by simp) hroom) x) fun _ => .pure _
    · exact .pure _ x
  · split
    · exact .bind (.store (le_trans (by simp) hroom) x) fun _ => .pure _
    · exact illegalRequest_confined hroom x
  · exact .pure _ x

theorem mmc_read_dvd_structure_confined : Confined room (mmc_read_dvd_structure fuel td ld cdb data_size) x := by
  have halloc := ntohs_toNat_lt (cdb.short 8)
  unfold mmc_read_dvd_structure
  simp only
  refine .bind (.clear (by omega) x) fun _ x₁ => ?_
  split
  · refine .bind (.store (le_trans (by simp) hroom) x₁) fun _ x₂ => ?_
    split
    · refine .bind (.store (le_trans (by simp) hroom) x₂) fun _ x₃ => ?_
      exact .bind (.store (le_trans (by simp) hroom) x₃) fun _ => .pure _
    · refine .bind (.store (le_trans (by simp) hroom) x₂) fun _ x₃ => ?_
      refine .bind (.store (le_trans (by simp) hroom) x₃) fun _ x₄ => .bind (.perform rfl x₄) fun _ x₅ => ?_
      refine .bind (.perform rfl x₅) fun _ x₆ => .bind (.store (le_trans (by simp) hroom) x₆) fun _ => .pure _
    · exact .pure _ x₂
  · exact .bind (.store (le_trans (by simp) hroom) x₁) fun _ => .pure _
  · split
    · exact .bind (.store (le_trans (by simp) hroom) x₁) fun _ => .pure _
    · exact illegalRequest_confined hroom x₁
    · exact .pure _ x₁
  · split
    · exact .bind (.store (le_trans (by simp) hroom) x₁) fun _ => .pure _
    · exact illegalRequest_confined hroom x₁
    · exact .pure _ x₁
  · exact illegalRequest_confined hroom x₁
  · exact .pure _ x₁

theorem mmc_report_key_confined : Confined room (mmc_report_key fuel td ld cdb data_size) x := by
  have halloc := ntohs_toNat_lt (cdb.short 8)
  unfold mmc_report_key
  simp only
  split
  · exact .pure _ x
  · refine .bind (.clear (by omega) x) fun _ x₁ => .bind (.store (le_trans (by simp) hroom) x₁) fun _ x₂ => ?_
    exact .bind (.store (le_trans (by simp) hroom) x₂) fun _ => .pure _

omit hroom in
/-- A feature takes 34 bytes at most, with a serial number of eight digits. -/
theorem feature_length (hserial : ld.serial_number.length ≤ 8) {number : Nat} {flags body : List UInt8}
    (h : feature ld number = some (flags, body)) : flags.length ≤ 1 ∧ body.length ≤ 32 := by
  have hflag : ∀ a b, (profileFlag ld a b).length ≤ 1 := by
    intro a b
    unfold profileFlag
    split <;> simp
  unfold feature at h
  split at h <;> simp only [Option.some.injEq, Prod.mk.injEq, reduceCtorEq] at h
  all_goals
    obtain ⟨rfl, rfl⟩ := h
    simp [profile_list, chars, hflag]
  omega

theorem mmc_get_configuration_confined (hserial : ld.serial_number.length ≤ 8) :
    Confined room (mmc_get_configuration fuel td ld cdb data_size) x := by
  have halloc := ntohs_toNat_lt (cdb.short 7)
  unfold mmc_get_configuration
  simp only
  refine .bind (.clear (by omega) x) fun _ x₁ => .bind (.store (le_trans (by simp) hroom) x₁) fun _ x₂ => ?_
  split
  · rename_i flags body hfeature
    obtain ⟨hflags, hbody⟩ := feature_length hserial hfeature
    refine .bind (.store ?_ x₂) fun _ x₃ => .bind (.pure _ x₃) fun _ x₄ => ?_
    · simp only [List.length_append, List.length_cons]
      omega
    · exact .bind (.store (le_trans (by simp) hroom) x₄) fun _ => .pure _
  · refine .bind (.pure _ x₂) fun _ x₃ => ?_
    exact .bind (.store (le_trans (by simp) hroom) x₃) fun _ => .pure _

omit hroom in
theorem mmc_start_stop_unit_confined : Confined room (mmc_start_stop_unit fuel td ld cdb data_size) x := by
  unfold mmc_start_stop_unit
  split
  · exact .bind (insert_new_dvd_r_confined x) fun _ => .pure _
  · exact .pure _ x

/-- The allocation length of READ TOC is a `short`, whose sign counts. -/
theorem mmc_read_toc_confined_iff :
    Confined room (mmc_read_toc fuel td ld cdb data_size) x ↔ (ntohs (cdb.short 7)).toNat < 2 ^ 15 := by
  have hlt := ntohs_toNat_lt (cdb.short 7)
  unfold mmc_read_toc
  constructor
  · intro h
    by_contra hlarge
    refine not_confined_clear ?_ x h.of_bind
    rw [Int.bmod_def]
    split <;> omega
  · intro hsmall
    have halloc : Int.bmod (ntohs (cdb.short 7)).toNat (2 ^ 16) = (ntohs (cdb.short 7)).toNat :=
      Int.bmod_eq_of_le (by omega) (by omega)
    simp only [halloc]
    refine .bind (.clear (by omega) x) fun _ x₁ => ?_
    split
    · exact .bind (.store (le_trans (by simp) hroom) x₁) fun _ => .pure _
    · refine .bind (.clear (by omega) x₁) fun _ x₂ => ?_
      split
      · exact .pure _ x₂
      · exact .bind (.store (le_trans (by simp) hroom) x₂) fun _ => .pure _

end Handlers

section Access

/-- A call that moves bytes between the data and a stream, at most as many as it
is asked for. -/
structure Moves (move : Nat → Nat → Code Nat) : Prop where
  confined : ∀ {room i count : Nat} {α : Type} {next : Nat → Code α} {x : Space}, i + count ≤ room →
    (∀ res x', res ≤ count → Confined room (next res) x') → Confined room (move i count >>= next) x
  inside : ∀ {room i count : Nat} {α : Type} {next : Nat → Code α} {x : Space},
    Confined room (move i count >>= next) x → 0 < count → i + count ≤ room

theorem fread_moves (fh : Option Nat) : Moves (fread · · fh) where
  confined := by
    intro room i count α next x h hrest
    refine ⟨Call.within_iff.mpr (.inr h), fun choice res x' hres => (hrest res x' ?_).always⟩
    obtain ⟨n, s, rfl, hs, hx⟩ := Space.onStream_ok hres
    obtain ⟨rfl, -⟩ := Prod.mk.inj hx
    exact s.read_length_le _ _ _
  inside := by
    intro room i count α next x h hpos
    rcases Call.within_iff.mp h.always.1 with hzero | hle
    · exact absurd hzero (Nat.ne_of_gt hpos)
    · exact hle

theorem fwrite_moves (fh : Option Nat) : Moves (fwrite · · fh) where
  confined := by
    intro room i count α next x h hrest
    refine ⟨Call.within_iff.mpr (.inr h), fun choice res x' hres => (hrest res x' ?_).always⟩
    obtain ⟨n, s, rfl, hs, hx⟩ := Space.onStream_ok hres
    obtain ⟨rfl, -⟩ := Prod.mk.inj hx
    exact le_trans (s.write_le _ _ _) (Nat.le_of_eq (slice_length _ _ _))
  inside := by
    intro room i count α next x h hpos
    rcases Call.within_iff.mp h.always.1 with hzero | hle
    · exact absurd hzero (Nat.ne_of_gt hpos)
    · exact hle

variable {move : Nat → Nat → Code Nat} {fh : Option Nat} {lba len : Int}

/-- Every round of a transfer stays within the bytes it is to move. -/
theorem transfer_confined (hmove : Moves move) (hlen : len < 2 ^ 31) (hroom : len ≤ room) (fuel : Nat) {count : Int}
    (hcount : 0 ≤ count) (x : Space) : Confined room (transfer move fh lba len fuel count) x := by
  induction fuel generalizing count x with
  | zero =>
    unfold transfer
    split
    · exact .fail (by decide) _
    · exact .pure _ x
  | succ fuel ih =>
    unfold transfer
    split
    · rename_i hmore
      have hleft := size_t_of_range (x := len - count) (by omega) (by omega)
      refine .bind (.perform rfl x) fun _ x' => hmove.confined (by omega) fun res x'' hres => ?_
      have hint : int32 (count + res) = count + res := int32_of_range (by omega) (by omega)
      rw [hint]
      exact ih (by omega) x''
    · exact .pure _ x

/-- The first round asks for all of them. -/
theorem transfer_inside (hmove : Moves move) (hpos : 0 < len) (hlen : len < 2 ^ 31) {x : Space} {n : Nat} {s : Stream}
    (hstream : x.world.streams n = some s) {fuel : Nat}
    (h : Confined room (transfer move (some n) lba len (fuel + 1) 0) x) : len ≤ room := by
  have hleft := size_t_of_range (x := len - 0) (by omega) (by omega)
  unfold transfer at h
  rw [if_pos hpos] at h
  have hcall : libc (.fseeko (some n) (lba + 0) .set) .whole x =
      .ok ((), { x with world := x.world.fseeko n s (lba + 0) .set }) := by
    simp only [libc, Space.onStream, hstream]
  have hfirst := hmove.inside ⟨h.always.2 _ _ _ hcall⟩ (by omega)
  omega

variable {ld : LunData} {data_size : Int} {fuel : Nat} {lba n : Nat}

/-- An access is confined to as many bytes as its blocks have, unless it is
turned away. -/
theorem access_confined (hmove : Moves move)
    (hroom : ((lba + n) * ld.block_size.toNat : Nat) ≤ bound ld → n * ld.block_size.toNat ≤ room) (x : Space) :
    Confined room (access move fuel ld data_size lba n) x := by
  have hlt := bound_lt ld
  have hbytes : ((lba + n) * ld.block_size.toNat : Nat) = (lba : Int) * ld.block_size.toNat + (n : Int) * ld.block_size.toNat := by
    rw [Nat.add_mul, Int.natCast_add, Int.natCast_mul, Int.natCast_mul]
  have hnonneg : 0 ≤ (lba : Int) * ld.block_size.toNat := Int.mul_nonneg (Int.natCast_nonneg _) (Int.natCast_nonneg _)
  unfold access
  simp only
  split
  · exact .pure _ x
  · rename_i hinside
    have hfits := hroom (by omega)
    refine .bind (transfer_confined hmove (by omega) ?_ fuel (Int.le_refl 0) x) fun _ => .pure _
    rw [← Int.natCast_mul]
    omega

theorem access_inside (hmove : Moves move) {x : Space} {fh : Nat} {s : Stream} (hfh : ld.lun_fh = some fh)
    (hstream : x.world.streams fh = some s) (hbound : ((lba + n) * ld.block_size.toNat : Nat) ≤ bound ld)
    (h : Confined room (access move (fuel + 1) ld data_size lba n) x) : n * ld.block_size.toNat ≤ room := by
  have hlt := bound_lt ld
  have hbytes : ((lba + n) * ld.block_size.toNat : Nat) = (lba : Int) * ld.block_size.toNat + (n : Int) * ld.block_size.toNat := by
    rw [Nat.add_mul, Int.natCast_add, Int.natCast_mul, Int.natCast_mul]
  have hnonneg : 0 ≤ (lba : Int) * ld.block_size.toNat := Int.mul_nonneg (Int.natCast_nonneg _) (Int.natCast_nonneg _)
  by_cases hzero : n * ld.block_size.toNat = 0
  · omega
  · unfold access at h
    simp only at h
    rw [if_neg (by omega), hfh] at h
    have hle := transfer_inside hmove (by rw [← Int.natCast_mul]; omega) (by omega) hstream h.of_bind
    rw [← Int.natCast_mul] at hle
    omega

end Access

end vscsi.scsi
