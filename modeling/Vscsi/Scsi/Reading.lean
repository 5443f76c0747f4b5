import Vscsi.Lib.Passing
import Vscsi.Lib.Rely
import Vscsi.Scsi.Answers

open lib lib.Code

namespace vscsi.scsi

variable {td : TargetData} {ld : LunData} {cdb : Cdb} {fuel : Nat} {data_size : Int} {fh : Option Nat}

/-- A computation of stores, seeks and reads. -/
abbrev ReadsOnly {α : Type} (fh : Option Nat) (Q : α → Prop) (p : Code α) : Prop := p.Within (Call.Reads fh) Q

theorem store_reads (i : Nat) (bytes : List UInt8) : ReadsOnly fh (fun _ => True) (store i bytes) :=
  ⟨trivial, fun _ => trivial⟩

theorem clear_reads (i : Nat) (count : Int) : ReadsOnly fh (fun _ => True) (clear i count) := by
  unfold clear
  split
  · trivial
  · exact store_reads _ _

theorem reportEntries_reads (alloc_len : Int) (numluns : Nat) (luns : List LunData) :
    ReadsOnly fh (fun _ => True) (reportEntries alloc_len numluns luns) := by
  induction luns generalizing numluns with
  | nil => trivial
  | cons tmplun luns ih =>
    unfold reportEntries
    split
    · exact (store_reads _ _).bind fun _ _ => ih _
    · exact ih _

theorem spc_report_luns_reads : ReadsOnly fh (·.ld = ld) (spc_report_luns fuel td ld cdb data_size) := by
  unfold spc_report_luns
  simp only
  split
  · exact rfl
  · exact (clear_reads _ _).bind fun _ _ => (reportEntries_reads _ _ _).bind fun _ _ =>
      (store_reads _ _).bind fun _ _ => rfl

theorem spc_request_sense_reads : ReadsOnly fh (·.ld = ld) (spc_request_sense fuel td ld cdb data_size) := by
  unfold spc_request_sense
  simp only
  split
  · exact rfl
  · exact (store_reads _ _).bind fun _ _ => rfl

theorem spc_mode_sense6_reads : ReadsOnly fh (·.ld = ld) (spc_mode_sense6 fuel td ld cdb data_size) := by
  unfold spc_mode_sense6
  simp only
  split
  · exact (store_reads _ _).bind fun _ _ => (store_reads _ _).bind fun _ _ => rfl
  · exact (clear_reads _ _).bind fun _ _ => rfl

theorem illegalRequest_reads : ReadsOnly fh (·.ld = ld) (illegalRequest ld) :=
  (store_reads _ _).bind fun _ _ => rfl

theorem spc_persistent_reserve_out_reads :
    ReadsOnly fh (·.ld = ld) (spc_persistent_reserve_out fuel td ld cdb data_size) := by
  unfold spc_persistent_reserve_out
  simp only
  split
  · exact rfl
  · exact illegalRequest_reads

theorem spc_persistent_reserve_in_reads :
    ReadsOnly fh (·.ld = ld) (spc_persistent_reserve_in fuel td ld cdb data_size) := by
  unfold spc_persistent_reserve_in
  refine (clear_reads _ _).bind fun _ _ => ?_
  split
  · exact rfl
  · exact illegalRequest_reads

theorem inquiryField_reads (i width : Nat) (s : List Char) : ReadsOnly fh (fun _ => True) (inquiryField i width s) :=
  (store_reads _ _).bind fun _ _ => store_reads _ _

theorem spc_inquiry_reads : ReadsOnly fh (·.ld = ld) (spc_inquiry fuel td ld cdb data_size) := by
  unfold spc_inquiry
  refine (clear_reads _ _).bind fun _ _ => ?_
  split
  · split
    · exact (store_reads _ _).bind fun _ _ => rfl
    · exact (store_reads _ _).bind fun _ _ => rfl
    · exact rfl
  · exact (store_reads _ _).bind fun _ _ => (inquiryField_reads _ _ _).bind fun _ _ =>
      (inquiryField_reads _ _ _).bind fun _ _ => (inquiryField_reads _ _ _).bind fun _ _ => rfl

theorem sbc_read_capacity10_reads : ReadsOnly ld.lun_fh (·.ld = ld) (sbc_read_capacity10 fuel td ld cdb data_size) := by
  unfold sbc_read_capacity10
  refine (clear_reads _ _).bind fun _ _ => ⟨rfl, fun _ => ⟨rfl, fun total_size => ?_⟩⟩
  exact (store_reads _ _).bind fun _ _ => (store_reads _ _).bind fun _ _ => rfl

theorem transfer_reads {move : Nat → Nat → Code Nat} (hmove : ∀ i count, ReadsOnly fh (fun _ => True) (move i count))
    (lba len : Int) (fuel : Nat) (count : Int) : ReadsOnly fh (fun _ => True) (transfer move fh lba len fuel count) := by
  induction fuel generalizing count with
  | zero =>
    unfold transfer
    split <;> trivial
  | succ fuel ih =>
    unfold transfer
    split
    · exact ⟨rfl, fun _ => (hmove _ _).bind fun _ _ => ih _⟩
    · trivial

theorem sbc_read10_reads : ReadsOnly ld.lun_fh (·.ld = ld) (sbc_read10 fuel td ld cdb data_size) := by
  unfold sbc_read10 access
  simp only
  split
  · exact rfl
  · have hmove (i count : Nat) : ReadsOnly ld.lun_fh (fun _ => True) (fread i count ld.lun_fh) := ⟨rfl, fun _ => trivial⟩
    exact (transfer_reads hmove _ _ _ _).bind fun _ _ => rfl

theorem mmc_read_buffer_capacity_reads : ReadsOnly fh (·.ld = ld) (mmc_read_buffer_capacity fuel td ld cdb data_size) := by
  unfold mmc_read_buffer_capacity
  simp only
  split
  · exact rfl
  · exact (store_reads _ _).bind fun _ _ => rfl

theorem mmc_read_disc_information_reads :
    ReadsOnly fh (·.ld = ld) (mmc_read_disc_information fuel td ld cdb data_size) := by
  unfold mmc_read_disc_information
  refine (clear_reads _ _).bind fun _ _ => ?_
  split
  · exact (store_reads _ _).bind fun _ _ => rfl
  · exact (store_reads _ _).bind fun _ _ => rfl
  · exact rfl

theorem mmc_read_track_information_reads :
    ReadsOnly ld.lun_fh (·.ld = ld) (mmc_read_track_information fuel td ld cdb data_size) := by
  unfold mmc_read_track_information
  simp only
  split
  · exact rfl
  · refine (clear_reads _ _).bind fun _ _ => ?_
    split
    · exact (store_reads _ _).bind fun _ _ => rfl
    · refine (store_reads _ _).bind fun _ _ => (store_reads _ _).bind fun _ _ => ⟨rfl, fun total_size => ?_⟩
      exact (store_reads _ _).bind fun _ _ => rfl
    · exact rfl

/-- The command that starts a new image does more. -/
theorem mmc_start_stop_unit_reads (hprofile : ld.current_profile ≠ 0x0011) :
    ReadsOnly fh (·.ld = ld) (mmc_start_stop_unit fuel td ld cdb data_size) := by
  unfold mmc_start_stop_unit
  split
  · rename_i hburner
    exact absurd hburner hprofile
  · exact rfl

/-- The computation has a name so that its length is not evaluated. -/
theorem mmc_read_toc_reads {p : Code Outcome} (h : mmc_read_toc fuel td ld cdb data_size = p) :
    ReadsOnly fh (·.ld = ld) p := by
  subst h
  unfold mmc_read_toc
  generalize Int.bmod (ntohs (cdb.short 7)).toNat (2 ^ 16) = alloc_len
  refine (clear_reads _ _).bind fun _ _ => ?_
  split
  · exact (store_reads _ _).bind fun _ _ => rfl
  · refine (clear_reads _ _).bind fun _ _ => ?_
    split
    · exact rfl
    · exact (store_reads _ _).bind fun _ _ => rfl

theorem mmc_get_performance_reads : ReadsOnly fh (·.ld = ld) (mmc_get_performance fuel td ld cdb data_size) := by
  unfold mmc_get_performance
  simp only
  split
  · split
    · exact (store_reads _ _).bind fun _ _ => rfl
    · exact (store_reads _ _).bind fun _ _ => rfl
    · exact rfl
  · split
    · exact (store_reads _ _).bind fun _ _ => rfl
    · exact illegalRequest_reads
  · exact rfl

theorem mmc_read_dvd_structure_reads :
    ReadsOnly ld.lun_fh (·.ld = ld) (mmc_read_dvd_structure fuel td ld cdb data_size) := by
  unfold mmc_read_dvd_structure
  simp only
  refine (clear_reads _ _).bind fun _ _ => ?_
  split
  · refine (store_reads _ _).bind fun _ _ => ?_
    split
    · exact (store_reads _ _).bind fun _ _ => (store_reads _ _).bind fun _ _ => rfl
    · refine (store_reads _ _).bind fun _ _ => (store_reads _ _).bind fun _ _ => ?_
      exact ⟨rfl, fun _ => ⟨rfl, fun total_size => (store_reads _ _).bind fun _ _ => rfl⟩⟩
    · exact rfl
  · exact (store_reads _ _).bind fun _ _ => rfl
  · split
    · exact (store_reads _ _).bind fun _ _ => rfl
    · exact illegalRequest_reads
    · exact rfl
  · split
    · exact (store_reads _ _).bind fun _ _ => rfl
    · exact illegalRequest_reads
    · exact rfl
  · exact illegalRequest_reads
  · exact rfl

theorem mmc_report_key_reads : ReadsOnly fh (·.ld = ld) (mmc_report_key fuel td ld cdb data_size) := by
  unfold mmc_report_key
  simp only
  split
  · exact rfl
  · exact (clear_reads _ _).bind fun _ _ => (store_reads _ _).bind fun _ _ => (store_reads _ _).bind fun _ _ => rfl

theorem mmc_get_configuration_reads : ReadsOnly fh (·.ld = ld) (mmc_get_configuration fuel td ld cdb data_size) := by
  unfold mmc_get_configuration
  simp only
  refine (clear_reads _ _).bind fun _ _ => (store_reads _ _).bind fun _ _ => ?_
  split
  · exact (store_reads _ _).bind fun _ _ => (store_reads _ _).bind fun _ _ => rfl
  · exact (store_reads _ _).bind fun _ _ => rfl

/-- Of all commands but the one that starts a new image only the writes put
anything into a stream. -/
theorem func_reads {cmds : CommandTable} {func : Handler} (hfunc : cmds.func (cdb.get 0) = some func)
    (hnot : blocks cmds cdb = none ∨ cdb.get 0 = 0x28) (hstarts : ¬ StartsImage cmds ld cdb) :
    ReadsOnly ld.lun_fh (·.ld = ld) (func fuel td ld cdb data_size) := by
  have hnone (hop : cdb.get 0 ≠ 0x28) : blocks cmds cdb = none := hnot.resolve_right hop
  cases cmds with
  | sbc =>
    simp only [CommandTable.func, scsi_sbc_commands] at hfunc
    split at hfunc <;> rename_i hop <;> simp only [Option.some.injEq, reduceCtorEq] at hfunc <;> subst hfunc
    · exact rfl
    · exact spc_request_sense_reads
    · exact absurd (hnone (by rw [hop]; decide)) (by simp [blocks, hop])
    · exact spc_inquiry_reads
    · exact spc_mode_sense6_reads
    · exact rfl
    · exact sbc_read_capacity10_reads
    · exact sbc_read10_reads
    · exact absurd (hnone (by rw [hop]; decide)) (by simp [blocks, hop])
    · exact rfl
    · exact rfl
    · exact spc_persistent_reserve_in_reads
    · exact spc_persistent_reserve_out_reads
    · exact rfl
    · exact spc_report_luns_reads
    · exact absurd (hnone (by rw [hop]; decide)) (by simp [blocks, hop])
    · exact rfl
  | mmc =>
    simp only [CommandTable.func, scsi_mmc_commands] at hfunc
    split at hfunc <;> rename_i hop <;> simp only [Option.some.injEq, reduceCtorEq] at hfunc <;> subst hfunc
    · exact rfl
    · exact spc_request_sense_reads
    · exact spc_inquiry_reads
    · exact spc_mode_sense6_reads
    · exact mmc_start_stop_unit_reads fun hprofile => hstarts ⟨rfl, hop, hprofile⟩
    · exact rfl
    · exact sbc_read_capacity10_reads
    · exact sbc_read10_reads
    · exact absurd (hnone (by rw [hop]; decide)) (by simp [blocks, hop])
    · exact rfl
    · generalize htoc : mmc_read_toc fuel td ld cdb data_size = p
      exact mmc_read_toc_reads htoc
    · exact mmc_get_configuration_reads
    · exact mmc_read_disc_information_reads
    · exact mmc_read_track_information_reads
    · exact rfl
    · exact rfl
    · exact rfl
    · exact mmc_read_buffer_capacity_reads
    · exact spc_report_luns_reads
    · exact mmc_report_key_reads
    · exact mmc_get_performance_reads
    · exact mmc_read_dvd_structure_reads
    · exact rfl
    · exact rfl

end vscsi.scsi
