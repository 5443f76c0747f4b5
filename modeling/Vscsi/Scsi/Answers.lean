import Vscsi.Scsi.Replies
import Vscsi.Scsi.Disk

open lib lib.Code

namespace vscsi.scsi

variable {td : TargetData} {ld : LunData} {sent : Cdb} {data_size : Int} {payload : List UInt8} {f : File}

theorem spc_request_sense_answers (hop : sent.get 0 = 0x03) : Answers spc_request_sense td ld sent data_size payload f := by
  have h1 : ∀ cdb, Agree (needs (sent.get 0)) cdb sent → cdb.get 1 = sent.get 1 := fun cdb h => h.get hop _ (by decide)
  by_cases hdesc : sent.get 1 &&& 0x01 ≠ 0
  · have hwritten : written td ld sent data_size = none := by simp only [written, hop, if_pos hdesc]
    apply Answers.refused hwritten
    intro fuel cdb hagree
    simp only [spc_request_sense, h1 cdb hagree, if_pos hdesc]
    exact .pure _ _ _
  · have hwritten : written td ld sent data_size = some [(0, 26)] := by simp only [written, hop, if_neg hdesc]
    apply Answers.stored hwritten
    · intro fuel cdb hagree
      simp only [spc_request_sense, h1 cdb hagree, if_neg hdesc]
      exact .bind (.store _ _) (.pure _ _ _)
    · exact fun _ hi => hi

theorem mmc_read_disc_information_answers (hop : sent.get 0 = 0x51)
    (hprofile : ld.current_profile = 0x0011 ∨ ld.current_profile = 0x0010) :
    Answers mmc_read_disc_information td ld sent data_size payload f := by
  have h7 : ∀ cdb, Agree (needs (sent.get 0)) cdb sent → (ntohs (cdb.short 7)).toNat = beNat (sent.field 7 2) :=
    fun cdb h => h.short hop (by decide)
  have hwritten : written td ld sent data_size = some [(0, beNat (sent.field 7 2)), (0, 12)] := by
    simp only [written, hop]
  rcases hprofile with hprofile | hprofile
  · apply Answers.stored hwritten
    · intro fuel cdb hagree
      simp only [mmc_read_disc_information, h7 cdb hagree, hprofile]
      exact .bind (.clear _ _) (.bind (.store _ _) (.pure _ _ _))
    · intro i hi
      simpa [Covered, range] using hi
  · apply Answers.stored hwritten
    · intro fuel cdb hagree
      simp only [mmc_read_disc_information, h7 cdb hagree, hprofile]
      exact .bind (.clear _ _) (.bind (.store _ _) (.pure _ _ _))
    · intro i hi
      simpa [Covered, range] using hi


theorem mmc_read_buffer_capacity_answers (hop : sent.get 0 = 0x5c) :
    Answers mmc_read_buffer_capacity td ld sent data_size payload f := by
  have h1 : ∀ cdb, Agree (needs (sent.get 0)) cdb sent → cdb.get 1 = sent.get 1 := fun cdb h => h.get hop _ (by decide)
  by_cases hblock : sent.get 1 &&& 0x01 ≠ 0
  · have hwritten : written td ld sent data_size = none := by simp only [written, hop, if_pos hblock]
    apply Answers.refused hwritten
    intro fuel cdb hagree
    simp only [mmc_read_buffer_capacity, h1 cdb hagree, if_pos hblock]
    exact .pure _ _ _
  · have hwritten : written td ld sent data_size = some [(0, 12)] := by simp only [written, hop, if_neg hblock]
    apply Answers.stored hwritten
    · intro fuel cdb hagree
      simp only [mmc_read_buffer_capacity, h1 cdb hagree, if_neg hblock]
      exact .bind (.store _ _) (.pure _ _ _)
    · exact fun _ hi => hi

theorem spc_mode_sense6_answers (hop : sent.get 0 = 0x1a) : Answers spc_mode_sense6 td ld sent data_size payload f := by
  have h1 : ∀ cdb, Agree (needs (sent.get 0)) cdb sent → cdb.get 1 = sent.get 1 := fun cdb h => h.get hop _ (by decide)
  have h2 : ∀ cdb, Agree (needs (sent.get 0)) cdb sent → cdb.get 2 = sent.get 2 := fun cdb h => h.get hop _ (by decide)
  by_cases hall : sent.get 1 >>> 3 &&& 0x01 = 0 ∧ sent.get 2 >>> 6 &&& 0x03 = 0 ∧ sent.get 2 &&& 0x3f = 0x3f
  · have hwritten : written td ld sent data_size = some [(0, 106)] := by simp only [written, hop, if_pos hall]
    apply Answers.stored hwritten
    · intro fuel cdb hagree
      simp only [spc_mode_sense6, h1 cdb hagree, h2 cdb hagree, if_pos hall]
      exact .bind (.store _ _) (.bind (.store _ _) (.pure _ _ _))
    · intro i hi
      simp [range, modePages] at hi ⊢
      omega
  · have hwritten : written td ld sent data_size = some [(0, 18)] := by simp only [written, hop, if_neg hall]
    apply Answers.stored hwritten
    · intro fuel cdb hagree
      simp only [spc_mode_sense6, h1 cdb hagree, h2 cdb hagree, if_neg hall]
      exact .bind (.clear 0 18) (.pure _ _ _)
    · intro i hi
      simpa [range] using hi

theorem spc_persistent_reserve_out_answers (hop : sent.get 0 = 0x5f) :
    Answers spc_persistent_reserve_out td ld sent data_size payload f := by
  have h1 : ∀ cdb, Agree (needs (sent.get 0)) cdb sent → cdb.get 1 = sent.get 1 := fun cdb h => h.get hop _ (by decide)
  by_cases hsa : (sent.get 1 &&& 0x1f).toNat ≤ 0x03
  · have hwritten : written td ld sent data_size = some [] := by simp only [written, hop, if_pos hsa]
    apply Answers.stored hwritten
    · intro fuel cdb hagree
      simp only [spc_persistent_reserve_out, h1 cdb hagree, if_pos hsa]
      exact .pure _ _ _
    · exact fun _ hi => hi
  · have hwritten : written td ld sent data_size = none := by simp only [written, hop, if_neg hsa]
    apply Answers.refused hwritten
    intro fuel cdb hagree
    simp only [spc_persistent_reserve_out, h1 cdb hagree, if_neg hsa]
    exact illegalRequest_handles ld

theorem spc_persistent_reserve_in_answers (hop : sent.get 0 = 0x5e) :
    Answers spc_persistent_reserve_in td ld sent data_size payload f := by
  have h1 : ∀ cdb, Agree (needs (sent.get 0)) cdb sent → cdb.get 1 = sent.get 1 := fun cdb h => h.get hop _ (by decide)
  have h7 : ∀ cdb, Agree (needs (sent.get 0)) cdb sent → cdb.get 7 = sent.get 7 := fun cdb h => h.get hop _ (by decide)
  have h8 : ∀ cdb, Agree (needs (sent.get 0)) cdb sent → cdb.get 8 = sent.get 8 := fun cdb h => h.get hop _ (by decide)
  by_cases hsa : (sent.get 1 &&& 0x1f).toNat ≤ 0x03
  · have hwritten : written td ld sent data_size = some [(0, beNat [sent.get 7, sent.get 8])] := by
      simp only [written, hop, if_pos hsa]
    apply Answers.stored hwritten
    · intro fuel cdb hagree
      simp only [spc_persistent_reserve_in, h1 cdb hagree, h7 cdb hagree, h8 cdb hagree, if_pos hsa]
      exact .bind (.clear _ _) (.pure _ _ _)
    · intro i hi
      simpa [range] using hi
  · have hwritten : written td ld sent data_size = none := by simp only [written, hop, if_neg hsa]
    apply Answers.refused hwritten
    intro fuel cdb hagree
    simp only [spc_persistent_reserve_in, h1 cdb hagree, h7 cdb hagree, h8 cdb hagree, if_neg hsa]
    exact .bind (.clear _ _) (illegalRequest_handles ld)

theorem inquiryField_stores (i width : Nat) (s : List Char) :
    Stores (inquiryField i width s) [(i, List.replicate width 0x20), (i, chars (s.take width))] () :=
  .bind (.store _ _) (.store _ _)

theorem spc_inquiry_answers (hop : sent.get 0 = 0x12) : Answers spc_inquiry td ld sent data_size payload f := by
  have h1 : ∀ cdb, Agree (needs (sent.get 0)) cdb sent → cdb.get 1 = sent.get 1 := fun cdb h => h.get hop _ (by decide)
  have h2 : ∀ cdb, Agree (needs (sent.get 0)) cdb sent → cdb.get 2 = sent.get 2 := fun cdb h => h.get hop _ (by decide)
  have h3 : ∀ cdb, Agree (needs (sent.get 0)) cdb sent → cdb.get 3 = sent.get 3 := fun cdb h => h.get hop _ (by decide)
  have h4 : ∀ cdb, Agree (needs (sent.get 0)) cdb sent → cdb.get 4 = sent.get 4 := fun cdb h => h.get hop _ (by decide)
  by_cases hevpd : sent.get 1 &&& 0x01 ≠ 0
  · by_cases hpages : sent.get 2 = 0x00
    · have hwritten : written td ld sent data_size = some [(0, beNat [sent.get 3, sent.get 4]), (0, 5)] := by
        simp only [written, hop, if_pos hevpd, if_pos hpages]
      apply Answers.stored hwritten
      · intro fuel cdb hagree
        simp only [spc_inquiry, h1 cdb hagree, h2 cdb hagree, h3 cdb hagree, h4 cdb hagree, if_pos hevpd, hpages]
        exact .bind (.clear _ _) (.bind (.store _ _) (.pure _ _ _))
      · intro i hi
        simpa [range] using hi
    · by_cases hident : sent.get 2 = 0x83
      · have hwritten : written td ld sent data_size = some [(0, beNat [sent.get 3, sent.get 4]), (0, 2)] := by
          simp only [written, hop, if_pos hevpd, if_neg hpages, if_pos hident]
        apply Answers.stored hwritten
        · intro fuel cdb hagree
          simp only [spc_inquiry, h1 cdb hagree, h2 cdb hagree, h3 cdb hagree, h4 cdb hagree, if_pos hevpd, hident]
          exact .bind (.clear _ _) (.bind (.store _ _) (.pure _ _ _))
        · intro i hi
          simpa [range] using hi
      · have hwritten : written td ld sent data_size = none := by
          simp only [written, hop, if_pos hevpd, if_neg hpages, if_neg hident]
        apply Answers.refused hwritten
        intro fuel cdb hagree
        simp only [spc_inquiry, h1 cdb hagree, h2 cdb hagree, h3 cdb hagree, h4 cdb hagree, if_pos hevpd]
        exact .bind (.clear _ _) (.pure _ _ _)
  · have hwritten : written td ld sent data_size = some [(0, beNat [sent.get 3, sent.get 4]), (0, 36)] := by
      simp only [written, hop, if_neg hevpd]
    apply Answers.stored hwritten
    · intro fuel cdb hagree
      simp only [spc_inquiry, h1 cdb hagree, h3 cdb hagree, h4 cdb hagree, if_neg hevpd]
      exact .bind (.clear _ _) (.bind (.store _ _) (.bind (inquiryField_stores _ _ _)
        (.bind (inquiryField_stores _ _ _) (.bind (inquiryField_stores _ _ _) (.pure _ _ _)))))
    · intro i hi
      simp [range] at hi ⊢
      omega

theorem mmc_report_key_answers (hop : sent.get 0 = 0xa4) : Answers mmc_report_key td ld sent data_size payload f := by
  have h10 : ∀ cdb, Agree (needs (sent.get 0)) cdb sent → cdb.get 10 = sent.get 10 := fun cdb h => h.get hop _ (by decide)
  have h8 : ∀ cdb, Agree (needs (sent.get 0)) cdb sent → (ntohs (cdb.short 8)).toNat = beNat (sent.field 8 2) :=
    fun cdb h => h.short hop (by decide)
  by_cases hformat : sent.get 10 &&& 0x3f ≠ 8
  · have hwritten : written td ld sent data_size = none := by simp only [written, hop, if_pos hformat]
    apply Answers.refused hwritten
    intro fuel cdb hagree
    simp only [mmc_report_key, h10 cdb hagree, h8 cdb hagree, if_pos hformat]
    exact .pure _ _ _
  · have hwritten : written td ld sent data_size = some [(0, beNat (sent.field 8 2)), (0, 2), (4, 3)] := by
      simp only [written, hop, if_neg hformat]
    apply Answers.stored hwritten
    · intro fuel cdb hagree
      simp only [mmc_report_key, h10 cdb hagree, h8 cdb hagree, if_neg hformat]
      exact .bind (.clear _ _) (.bind (.store _ _) (.bind (.store _ _) (.pure _ _ _)))
    · intro i hi
      simpa [range] using hi

/-- A handler that never comes back. -/
theorem Answers.crashes (func : Handler)
    (hcrash : ∀ fuel cdb, Agree (needs (sent.get 0)) cdb sent → func fuel td ld cdb data_size = .fail .crash) :
    Answers func td ld sent data_size payload f := by
  refine ⟨f, fun _ => 0, fun fuel cdb hagree => ?_⟩
  rw [hcrash fuel cdb hagree]
  exact ⟨trivial, fun _ _ _ => trivial⟩

theorem mmc_read_toc_answers (hop : sent.get 0 = 0x43) : Answers mmc_read_toc td ld sent data_size payload f := by
  have h2 : ∀ cdb, Agree (needs (sent.get 0)) cdb sent → cdb.get 2 = sent.get 2 := fun cdb h => h.get hop _ (by decide)
  have h7 : ∀ cdb, Agree (needs (sent.get 0)) cdb sent → (ntohs (cdb.short 7)).toNat = beNat (sent.field 7 2) :=
    fun cdb h => h.short hop (by decide)
  by_cases hlen : beNat (sent.field 7 2) < 2 ^ 15
  · have halloc : Int.bmod (beNat (sent.field 7 2)) (2 ^ 16) = beNat (sent.field 7 2) :=
      Int.bmod_eq_of_le (by omega) (by omega)
    by_cases hblank : ld.is_blank = true
    · have hwritten : written td ld sent data_size = none := by simp only [written, hop, if_pos (Or.inl hblank)]
      apply Answers.refused hwritten
      intro fuel cdb hagree
      simp only [mmc_read_toc, h7 cdb hagree, halloc, if_pos hblank]
      exact .bind (.clear _ _) (.bind (.store _ _) (.pure _ _ _))
    · by_cases hformat : sent.get 2 &&& 0x0f ≠ 0
      · have hwritten : written td ld sent data_size = none := by simp only [written, hop, if_pos (Or.inr hformat)]
        apply Answers.refused hwritten
        intro fuel cdb hagree
        simp only [mmc_read_toc, h2 cdb hagree, h7 cdb hagree, halloc, if_neg hblank, if_pos hformat]
        exact .bind (.clear _ _) (.bind (.clear _ _) (.pure _ _ _))
      · have hwritten : written td ld sent data_size = some [(0, beNat (sent.field 7 2)), (0, 12)] := by
          simp only [written, hop, if_neg (not_or.mpr ⟨hblank, hformat⟩)]
        apply Answers.stored hwritten
        · intro fuel cdb hagree
          simp only [mmc_read_toc, h2 cdb hagree, h7 cdb hagree, halloc, if_neg hblank, if_neg hformat]
          exact .bind (.clear _ _) (.bind (.clear _ _) (.bind (.store _ _) (.pure _ _ _)))
        · intro i hi
          simp [range] at hi ⊢
          omega
  · have halloc : Int.bmod (beNat (sent.field 7 2)) (2 ^ 16) < 0 := by
      have hlt := beNat_lt (sent.field 7 2)
      rw [Cdb.field_length _ (by decide)] at hlt
      rw [Int.bmod_def]
      split <;> omega
    refine .crashes _ fun fuel cdb hagree => ?_
    simp only [mmc_read_toc, h7 cdb hagree, clear, if_pos halloc, Prog.fail_bind]

theorem mmc_get_configuration_answers (hop : sent.get 0 = 0x46) :
    Answers mmc_get_configuration td ld sent data_size payload f := by
  have h2 : ∀ cdb, Agree (needs (sent.get 0)) cdb sent → (ntohs (cdb.short 2)).toNat = beNat (sent.field 2 2) :=
    fun cdb h => h.short hop (by decide)
  have h7 : ∀ cdb, Agree (needs (sent.get 0)) cdb sent → (ntohs (cdb.short 7)).toNat = beNat (sent.field 7 2) :=
    fun cdb h => h.short hop (by decide)
  cases hfeature : feature ld (beNat (sent.field 2 2)) with
  | none =>
    have hwritten : written td ld sent data_size = some [(0, beNat (sent.field 7 2)), (0, 10)] := by
      simp only [written, hop, hfeature]
    apply Answers.stored hwritten
    · intro fuel cdb hagree
      simp only [mmc_get_configuration, h2 cdb hagree, h7 cdb hagree, hfeature]
      exact .bind (.clear _ _) (.bind (.store _ _) (.bind (.pure _) (.bind (.store _ _) (.pure _ _ _))))
    · intro i hi
      simp [range] at hi ⊢
      omega
  | some parts =>
    obtain ⟨flags, body⟩ := parts
    have hwritten : written td ld sent data_size =
        some [(0, beNat (sent.field 7 2)), (0, 10 + (flags.length + 1 + body.length))] := by
      simp only [written, hop, hfeature]
    apply Answers.stored hwritten
    · intro fuel cdb hagree
      simp only [mmc_get_configuration, h2 cdb hagree, h7 cdb hagree, hfeature]
      exact .bind (.clear _ _) (.bind (.store _ _) (.bind (.store _ _) (.bind (.pure _)
        (.bind (.store _ _) (.pure _ _ _)))))
    · intro i hi
      simp [range] at hi ⊢
      omega

/-- What the current profile of a DVD is. -/
def Profiled (ld : LunData) : Prop := ld.current_profile = 0x0011 ∨ ld.current_profile = 0x0010

theorem mmc_get_performance_answers (hop : sent.get 0 = 0xac) (hprofile : Profiled ld) :
    Answers mmc_get_performance td ld sent data_size payload f := by
  have h10 : ∀ cdb, Agree (needs (sent.get 0)) cdb sent → cdb.get 10 = sent.get 10 := fun cdb h => h.get hop _ (by decide)
  rcases hprofile with hprofile | hprofile
  · by_cases hzero : sent.get 10 = 0
    · have hwritten : written td ld sent data_size = some [(0, 24)] := by
        simp only [written, hop, if_pos hprofile, if_pos hzero]
      apply Answers.stored hwritten
      · intro fuel cdb hagree
        simp only [mmc_get_performance, h10 cdb hagree, hprofile, hzero]
        exact .bind (.store _ _) (.pure _ _ _)
      · exact fun _ hi => hi
    · by_cases hthree : sent.get 10 = 3
      · have hwritten : written td ld sent data_size = some [(0, 40)] := by
          simp only [written, hop, if_pos hprofile, if_neg hzero, if_pos hthree]
        apply Answers.stored hwritten
        · intro fuel cdb hagree
          simp only [mmc_get_performance, h10 cdb hagree, hprofile, hthree]
          exact .bind (.store _ _) (.pure _ _ _)
        · exact fun _ hi => hi
      · have hwritten : written td ld sent data_size = none := by
          simp only [written, hop, if_pos hprofile, if_neg hzero, if_neg hthree]
        apply Answers.refused hwritten
        intro fuel cdb hagree
        simp only [mmc_get_performance, h10 cdb hagree, hprofile]
        exact .pure _ _ _
  · have hrom : ld.current_profile ≠ 0x0011 := by rw [hprofile]; decide
    by_cases hzero : sent.get 10 = 0
    · have hwritten : written td ld sent data_size = some [(0, 8)] := by
        simp only [written, hop, if_neg hrom, if_pos hzero]
      apply Answers.stored hwritten
      · intro fuel cdb hagree
        simp only [mmc_get_performance, h10 cdb hagree, hprofile, hzero]
        exact .bind (.store _ _) (.pure _ _ _)
      · exact fun _ hi => hi
    · have hwritten : written td ld sent data_size = none := by
        simp only [written, hop, if_neg hrom, if_neg hzero]
      apply Answers.refused hwritten
      intro fuel cdb hagree
      simp only [mmc_get_performance, h10 cdb hagree, hprofile]
      exact illegalRequest_handles ld

/-- The stores of the entries from an index on. -/
def entries (alloc_len : Nat) : (numluns : Nat) → List LunData → List (Nat × List UInt8)
  | _, [] => []
  | numluns, tmplun :: luns =>
    if 8 + 1 + numluns * 8 ≤ alloc_len then (8 + 1 + numluns * 8, [tmplun.lun]) :: entries alloc_len (numluns + 1) luns
    else entries alloc_len (numluns + 1) luns

theorem reportEntries_stores (alloc_len numluns : Nat) (luns : List LunData) :
    Stores (reportEntries alloc_len numluns luns) (entries alloc_len numluns luns) (numluns + luns.length) := by
  induction luns generalizing numluns with
  | nil => exact .pure _
  | cons tmplun luns ih =>
    have hcount : numluns + (tmplun :: luns).length = numluns + 1 + luns.length := by
      rw [List.length_cons]
      omega
    rw [hcount]
    by_cases hfits : 8 + 1 + numluns * 8 ≤ alloc_len
    · simp only [reportEntries, entries, Int.ofNat_le.mpr hfits, if_pos hfits, if_true]
      exact .bind (.store _ _) (ih (numluns + 1))
    · simp only [reportEntries, entries, if_neg hfits, if_neg (mt Int.ofNat_le.mp hfits)]
      exact .bind (.pure _) (ih (numluns + 1))

theorem covered_entries {alloc_len k : Nat} (hfits : 8 + 1 + k * 8 ≤ alloc_len) (luns : List LunData) (numluns : Nat)
    (hlo : numluns ≤ k) (hhi : k < numluns + luns.length) :
    Covered ((entries alloc_len numluns luns).map range) (8 + 1 + k * 8) := by
  induction luns generalizing numluns with
  | nil => simp at hhi; omega
  | cons tmplun luns ih =>
    rw [List.length_cons] at hhi
    unfold entries
    by_cases hfirst : k = numluns
    · subst hfirst
      rw [if_pos hfits]
      simp [range]
    · have hrest := ih (numluns + 1) (by omega) (by omega)
      split
      · exact (covered_cons _ _ _).mpr (.inr hrest)
      · exact hrest

theorem spc_report_luns_answers (hop : sent.get 0 = 0xa0) : Answers spc_report_luns td ld sent data_size payload f := by
  have h6 : ∀ cdb, Agree (needs (sent.get 0)) cdb sent → (ntohl (cdb.long 6)).toNat = beNat (sent.field 6 4) :=
    fun cdb h => h.long hop (by decide)
  by_cases hsize : (beNat (sent.field 6 4) : Int) > data_size
  · have hwritten : written td ld sent data_size = none := by simp only [written, hop, if_pos hsize]
    apply Answers.refused hwritten
    intro fuel cdb hagree
    simp only [spc_report_luns, h6 cdb hagree, if_pos hsize]
    exact .pure _ _ _
  · have hwritten : written td ld sent data_size = some ([(0, beNat (sent.field 6 4)), (0, 8)] ++
        (reported (beNat (sent.field 6 4)) td.luns).map fun numluns => (8 + 1 + numluns * 8, 1)) := by
      simp only [written, hop, if_neg hsize]
    apply Answers.stored hwritten
    · intro fuel cdb hagree
      simp only [spc_report_luns, h6 cdb hagree, if_neg hsize]
      exact .bind (.clear _ _) (.bind (reportEntries_stores _ 0 _) (.bind (.store _ _) (.pure _ _ _)))
    · intro i hi
      simp only [List.cons_append, List.nil_append, covered_cons] at hi
      rcases hi with hclear | hhead | ⟨r, hr, hlo, hhi⟩
      · exact ⟨(0, _), List.mem_cons_self, by simpa using hclear⟩
      · exact ⟨(0, 8), by simp [range], hhead⟩
      · obtain ⟨k, hk, rfl⟩ := List.mem_map.mp hr
        simp only [reported, List.mem_filter, List.mem_range, decide_eq_true_eq] at hk
        obtain rfl : i = 8 + 1 + k * 8 := by simp only at hlo hhi; omega
        obtain ⟨s, hs, hin⟩ := covered_entries hk.2 td.luns 0 (Nat.zero_le _) (by omega)
        exact ⟨s, by simp only [List.map_append, List.mem_append]; exact .inr (.inl hs), hin⟩

section Streams

variable {x : Space} {Q : Outcome → Space → Prop} {fh inode : Nat} {writable : Bool}

theorem Stores.settles {α : Type} {p : Code α} {next : α → Code Outcome} {stores : List (Nat × List UInt8)} {a : α}
    (h : Stores p stores a) (hrest : Settles (next a) { x with data := applied stores x.data } Q) :
    Settles (p >>= next) x Q := by
  obtain rfl := h
  induction stores generalizing x with
  | nil => exact hrest
  | cons s rest ih => exact fun _ _ => ih hrest

/-- A handler that makes stores, looks up the size of its file and makes more. -/
inductive Sizes (ld : LunData) : Code Outcome → (before : List (Nat × List UInt8)) →
    (after : Nat → List (Nat × List UInt8)) → Prop where
  | seek {next : Nat → Code Outcome} {after : Nat → List (Nat × List UInt8)}
      (h : ∀ total_size, Handles (next total_size) (after total_size) ld 0) :
      Sizes ld (do fseeko ld.lun_fh 0 .end_; let total_size ← ftello ld.lun_fh; next total_size) [] after
  | store {α : Type} {p : Code α} {next : α → Code Outcome} {stores before : List (Nat × List UInt8)} {a : α}
      {after : Nat → List (Nat × List UInt8)} (h : Stores p stores a) (hrest : Sizes ld (next a) before after) :
      Sizes ld (p >>= next) (stores ++ before) after

theorem applied_append (first second : List (Nat × List UInt8)) (data : Mem) :
    applied (first ++ second) data = applied second (applied first data) := by
  induction first generalizing data with
  | nil => rfl
  | cons s rest ih => exact ih _

theorem Stores.only {α : Type} {p : Code α} {next : α → Code Outcome} {stores : List (Nat × List UInt8)} {a : α}
    (h : Stores p stores a) {fh : Option Nat} (hrest : (next a).Only (Call.On fh)) : (p >>= next).Only (Call.On fh) := by
  obtain rfl := h
  induction stores with
  | nil => exact hrest
  | cons s rest ih => exact ⟨trivial, fun _ => ih⟩

theorem Sizes.only {p : Code Outcome} {before : List (Nat × List UInt8)} {after : Nat → List (Nat × List UInt8)}
    (h : Sizes ld p before after) : p.Only (Call.On ld.lun_fh) := by
  induction h with
  | @seek next after h =>
    have hnext : ∀ total_size, (next total_size).Only (Call.On ld.lun_fh) := by
      intro total_size
      obtain ⟨size, hstores⟩ := h total_size
      rw [hstores]
      exact storing_only _ _ _
    exact ⟨rfl, fun _ => ⟨rfl, hnext⟩⟩
  | store h hrest ih => exact h.only ih

theorem Sizes.settles {p : Code Outcome} {before : List (Nat × List UInt8)} {after : Nat → List (Nat × List UInt8)}
    (h : Sizes ld p before after) (hbacked : Backed ld x.world f) :
    Settles p x fun o x' => o.status = 0 ∧ o.ld = ld ∧ Backed ld x'.world f ∧
      x'.data = applied (after f.size) (applied before x.data) := by
  induction h generalizing x with
  | @seek next after h =>
    obtain ⟨fh, inode, hfh, hcontent⟩ := hbacked
    rw [hfh]
    refine Prog.Meets.call fun choice _ => ?_
    obtain ⟨w, hseek, hat⟩ := content_fseeko_end choice hcontent
    refine ⟨_, _, hseek, Prog.Meets.call fun choice' _ => ⟨_, _, content_ftello hat, ?_⟩⟩
    obtain ⟨size, hstores⟩ := h f.size
    change Settles (next f.size) _ _
    rw [hstores]
    exact storing_settles ⟨rfl, rfl, ⟨fh, inode, hfh, hat.content⟩, rfl⟩
  | store h hrest ih =>
    refine h.settles ((ih (x := { x with data := applied _ x.data }) hbacked).mono (fun _ h => h) ?_)
    rintro o x' ⟨hstatus, hld, hbacked', hdata⟩
    exact ⟨hstatus, hld, hbacked', by rw [hdata, applied_append]⟩

/-- What such a handler answers. -/
theorem Answers.sized {func : Handler} {before : List (Nat × List UInt8)} {after : Nat → List (Nat × List UInt8)}
    {rs : List (Nat × Nat)} (hwritten : written td ld sent data_size = some rs)
    (hsizes : ∀ fuel cdb, Agree (needs (sent.get 0)) cdb sent → Sizes ld (func fuel td ld cdb data_size) before after)
    (hcovers : ∀ i, Covered rs i → Covered ((before ++ after f.size).map range) i) :
    Answers func td ld sent data_size payload f := by
  refine ⟨f, applied (before ++ after f.size) fun _ => 0, fun fuel cdb hagree => ?_⟩
  have hfunc := hsizes fuel cdb hagree
  refine ⟨hfunc.only, fun x hbacked _ => (hfunc.settles hbacked).mono (fun _ h => h) ?_⟩
  rintro o x' ⟨hstatus, hld, hbacked', hdata⟩
  refine ⟨by rw [hstatus, hwritten]; rfl, hld, hbacked', fun rs' hrs i hi => ?_⟩
  obtain rfl := Option.some.inj (hwritten.symm.trans hrs)
  rw [hdata, ← applied_append]
  exact applied_covered (hcovers i hi) _ _

/-- A handler that makes stores, looks up where its stream is and makes another
store of what it makes of that. -/
inductive Tells (ld : LunData) (start : Nat) : Code Outcome → (before : List (Nat × List UInt8)) → Prop where
  | tell {after : Nat → List UInt8} {size : Int} : Tells ld start (do
      let total_size ← ftello ld.lun_fh
      store start (after total_size)
      return { ld, data_size := size, status := 0 }) []
  | store {α : Type} {p : Code α} {next : α → Code Outcome} {stores before : List (Nat × List UInt8)} {a : α}
      (h : Stores p stores a) (hrest : Tells ld start (next a) before) : Tells ld start (p >>= next) (stores ++ before)

theorem Tells.only {p : Code Outcome} {start : Nat} {before : List (Nat × List UInt8)} (h : Tells ld start p before) :
    p.Only (Call.On ld.lun_fh) := by
  induction h with
  | tell => exact ⟨rfl, fun _ => ⟨trivial, fun _ => trivial⟩⟩
  | store h hrest ih => exact h.only ih

theorem Tells.settles {p : Code Outcome} {start : Nat} {before : List (Nat × List UInt8)} (h : Tells ld start p before)
    (hbacked : Backed ld x.world f) :
    Settles p x fun o x' => o.status = 0 ∧ o.ld = ld ∧ Backed ld x'.world f ∧
      ∀ i < start, x'.data i = applied before x.data i := by
  induction h generalizing x with
  | tell =>
    obtain ⟨fh, inode, hfh, s, hs⟩ := hbacked
    rw [hfh]
    refine Prog.Meets.call fun choice _ => ⟨_, _, content_ftello ⟨s, hs, rfl⟩, ?_⟩
    refine Prog.Meets.call fun _ _ => ⟨_, _, rfl, rfl, rfl, ⟨fh, inode, hfh, s, hs⟩, fun i hi => ?_⟩
    exact blit_of_lt _ _ hi
  | store h hrest ih =>
    refine h.settles ((ih (x := { x with data := applied _ x.data }) hbacked).mono (fun _ h => h) ?_)
    rintro o x' ⟨hstatus, hld, hbacked', hdata⟩
    exact ⟨hstatus, hld, hbacked', fun i hi => by rw [hdata i hi, applied_append]⟩

/-- What such a handler answers, before the place of the last store. -/
theorem Answers.told {func : Handler} {start : Nat} {before : List (Nat × List UInt8)} {rs : List (Nat × Nat)}
    (hwritten : written td ld sent data_size = some rs)
    (htells : ∀ fuel cdb, Agree (needs (sent.get 0)) cdb sent → Tells ld start (func fuel td ld cdb data_size) before)
    (hcovers : ∀ i, Covered rs i → i < start ∧ Covered (before.map range) i) :
    Answers func td ld sent data_size payload f := by
  refine ⟨f, applied before fun _ => 0, fun fuel cdb hagree => ?_⟩
  have hfunc := htells fuel cdb hagree
  refine ⟨hfunc.only, fun x hbacked _ => (hfunc.settles hbacked).mono (fun _ h => h) ?_⟩
  rintro o x' ⟨hstatus, hld, hbacked', hdata⟩
  refine ⟨by rw [hstatus, hwritten]; rfl, hld, hbacked', fun rs' hrs i hi => ?_⟩
  obtain rfl := Option.some.inj (hwritten.symm.trans hrs)
  rw [hdata i (hcovers i hi).1]
  exact applied_covered (hcovers i hi).2 _ _

end Streams

theorem sbc_read_capacity10_answers (hop : sent.get 0 = 0x25) :
    Answers sbc_read_capacity10 td ld sent data_size payload f := by
  have hwritten : written td ld sent data_size = some [(0, 12)] := by simp only [written, hop]
  apply Answers.sized hwritten
  · intro fuel cdb _
    unfold sbc_read_capacity10
    exact .store (.clear 0 8) (.seek fun total_size => .bind (.store _ _) (.bind (.store _ _) (.pure _ _ _)))
  · intro i hi
    simp [range] at hi ⊢
    omega

theorem mmc_read_dvd_structure_answers (hop : sent.get 0 = 0xad) (hprofile : Profiled ld) :
    Answers mmc_read_dvd_structure td ld sent data_size payload f := by
  have h7 : ∀ cdb, Agree (needs (sent.get 0)) cdb sent → cdb.get 7 = sent.get 7 := fun cdb h => h.get hop _ (by decide)
  have h8 : ∀ cdb, Agree (needs (sent.get 0)) cdb sent → (ntohs (cdb.short 8)).toNat = beNat (sent.field 8 2) :=
    fun cdb h => h.short hop (by decide)
  by_cases hzero : sent.get 7 = 0x00
  · rcases hprofile with hprofile | hprofile
    · have hwritten : written td ld sent data_size = some [(0, beNat (sent.field 8 2)), (0, 8), (9, 3)] := by
        simp only [written, hop, if_pos hzero, if_pos hprofile]
      apply Answers.stored hwritten
      · intro fuel cdb hagree
        simp only [mmc_read_dvd_structure, h7 cdb hagree, h8 cdb hagree, hzero, hprofile]
        exact .bind (.clear _ _) (.bind (.store _ _) (.bind (.store _ _) (.bind (.store _ _) (.pure _ _ _))))
      · intro i hi
        simp [range] at hi ⊢
        omega
    · have hrom : ld.current_profile ≠ 0x0011 := by rw [hprofile]; decide
      have hwritten : written td ld sent data_size = some [(0, beNat (sent.field 8 2)), (0, 8), (9, 3), (13, 3)] := by
        simp only [written, hop, if_pos hzero, if_neg hrom]
      apply Answers.sized hwritten
      · intro fuel cdb hagree
        simp only [mmc_read_dvd_structure, h7 cdb hagree, h8 cdb hagree, hzero, hprofile]
        exact .store (.clear _ _) (.store (.store _ _) (.store (.store _ _) (.store (.store _ _)
          (.seek fun total_size => .bind (.store _ _) (.pure _ _ _)))))
      · intro i hi
        simp [range] at hi ⊢
        omega
  · by_cases hone : sent.get 7 = 0x01
    · have hwritten : written td ld sent data_size = some [(0, beNat (sent.field 8 2)), (0, 2)] := by
        simp only [written, hop, if_neg hzero, if_pos hone]
      apply Answers.stored hwritten
      · intro fuel cdb hagree
        simp only [mmc_read_dvd_structure, h7 cdb hagree, h8 cdb hagree, hone]
        exact .bind (.clear _ _) (.bind (.store _ _) (.pure _ _ _))
      · intro i hi
        simpa [range] using hi
    · by_cases hraw : ld.current_profile = 0x0011 ∧ sent.get 7 = 0x0d
      · have hwritten : written td ld sent data_size = some [(0, beNat (sent.field 8 2)), (0, 2)] := by
          simp only [written, hop, if_neg hzero, if_neg hone, if_pos hraw]
        apply Answers.stored hwritten
        · intro fuel cdb hagree
          simp only [mmc_read_dvd_structure, h7 cdb hagree, h8 cdb hagree, hraw.1, hraw.2]
          exact .bind (.clear _ _) (.bind (.store _ _) (.pure _ _ _))
        · intro i hi
          simpa [range] using hi
      · by_cases hpre : ld.current_profile = 0x0011 ∧ sent.get 7 = 0x0e
        · have hwritten : written td ld sent data_size = some [(0, beNat (sent.field 8 2)), (0, 68)] := by
            simp only [written, hop, if_neg hzero, if_neg hone, if_neg hraw, if_pos hpre]
          apply Answers.stored hwritten
          · intro fuel cdb hagree
            simp only [mmc_read_dvd_structure, h7 cdb hagree, h8 cdb hagree, hpre.1, hpre.2]
            exact .bind (.clear _ _) (.bind (.store _ _) (.pure _ _ _))
          · intro i hi
            simpa [range] using hi
        · have hwritten : written td ld sent data_size = none := by
            simp only [written, hop, if_neg hzero, if_neg hone, if_neg hraw, if_neg hpre]
          by_cases hillegal : sent.get 7 = 0x0d ∨ sent.get 7 = 0x0e ∨ sent.get 7 = 0x11
          · apply Answers.refused hwritten
            intro fuel cdb hagree
            simp only [mmc_read_dvd_structure, h7 cdb hagree, h8 cdb hagree]
            rcases hillegal with hformat | hformat | hformat
            · have hrom := hprofile.resolve_left fun h => hraw ⟨h, hformat⟩
              simp only [hformat, hrom]
              exact .bind (.clear _ _) (illegalRequest_handles ld)
            · have hrom := hprofile.resolve_left fun h => hpre ⟨h, hformat⟩
              simp only [hformat, hrom]
              exact .bind (.clear _ _) (illegalRequest_handles ld)
            · simp only [hformat]
              exact .bind (.clear _ _) (illegalRequest_handles ld)
          · obtain ⟨h0d, h0e, h11⟩ : sent.get 7 ≠ 0x0d ∧ sent.get 7 ≠ 0x0e ∧ sent.get 7 ≠ 0x11 := by
              simpa only [not_or] using hillegal
            apply Answers.refused hwritten
            intro fuel cdb hagree
            simp only [mmc_read_dvd_structure, h7 cdb hagree, h8 cdb hagree]
            exact .bind (.clear _ _) (.pure _ _ _)

theorem mmc_read_track_information_answers (hop : sent.get 0 = 0x52) (hprofile : Profiled ld) :
    Answers mmc_read_track_information td ld sent data_size payload f := by
  have h1 : ∀ cdb, Agree (needs (sent.get 0)) cdb sent → cdb.get 1 = sent.get 1 := fun cdb h => h.get hop _ (by decide)
  have h2 : ∀ cdb, Agree (needs (sent.get 0)) cdb sent → (ntohl (cdb.long 2) = 0 ↔ beNat (sent.field 2 4) = 0) := by
    intro cdb h
    rw [← h.long hop (by decide)]
    exact UInt32.toNat_inj.symm
  have h7 : ∀ cdb, Agree (needs (sent.get 0)) cdb sent → (ntohs (cdb.short 7)).toNat = beNat (sent.field 7 2) :=
    fun cdb h => h.short hop (by decide)
  by_cases hnone : sent.get 1 &&& 0x03 ≠ 1 ∨ beNat (sent.field 2 4) = 0
  · have hwritten : written td ld sent data_size = none := by simp only [written, hop, if_pos hnone]
    apply Answers.refused hwritten
    intro fuel cdb hagree
    simp only [mmc_read_track_information, h1 cdb hagree, h2 cdb hagree, h7 cdb hagree, if_pos hnone]
    exact .pure _ _ _
  · rcases hprofile with hprofile | hprofile
    · have hwritten : written td ld sent data_size = some [(0, beNat (sent.field 7 2)), (0, 34)] := by
        simp only [written, hop, if_neg hnone, if_pos hprofile]
      apply Answers.stored hwritten
      · intro fuel cdb hagree
        simp only [mmc_read_track_information, h1 cdb hagree, h2 cdb hagree, h7 cdb hagree, if_neg hnone, hprofile]
        exact .bind (.clear _ _) (.bind (.store _ _) (.pure _ _ _))
      · intro i hi
        simpa [range] using hi
    · have hrom : ld.current_profile ≠ 0x0011 := by rw [hprofile]; decide
      have hwritten : written td ld sent data_size = some [(0, 24)] := by
        simp only [written, hop, if_neg hnone, if_neg hrom]
      apply Answers.told hwritten
      · intro fuel cdb hagree
        simp only [mmc_read_track_information, h1 cdb hagree, h2 cdb hagree, h7 cdb hagree, if_neg hnone, hprofile]
        exact .store (.clear _ _) (.store (.store _ _) (.store (.store _ _) .tell))
      · intro i hi
        simp [range] at hi ⊢
        omega

section Access

/-- The loop rule when nothing is asked of the rounds but to keep the invariant:
it holds with all bytes moved, if there is an end. -/
theorem transfer_settles {move : Nat → Nat → Code Nat} {fh : Option Nat} {lba len : Nat} (Inv : Nat → Space → Prop)
    (hlen : len < 2 ^ 31)
    (hround : ∀ count x, count < len → Inv count x →
      Settles (fseeko fh (lba + count : Nat) .set) x fun _ x' =>
        Settles (move count (len - count)) x' fun res x'' => res ≤ len - count ∧ Inv (count + res) x'')
    (fuel : Nat) {count : Nat} (hcount : count ≤ len) {x : Space} (hinv : Inv count x) :
    Settles (transfer move fh lba len fuel count) x fun _ x' => Inv len x' := by
  have hround' (count : Nat) (x : Space) (hmore : count < len) (hinv : Inv count x) :
      Settles (fseeko fh (lba + count : Nat) .set) x fun _ x' =>
        Settles (move count (len - count)) x' fun res x'' => 0 ≤ res ∧ res ≤ len - count ∧ Inv (count + res) x'' := by
    refine (hround count x hmore hinv).mono (fun _ h => h) fun _ x' hmoved => ?_
    exact hmoved.mono (fun _ h => h) fun res _ h => ⟨Nat.zero_le res, h⟩
  exact (transfer_meets 0 Inv hlen hround' fuel hcount hinv).mono (fun _ _ => trivial) fun _ _ h => h

variable {fh inode : Nat} {writable : Bool} {lba len : Nat} {x : Space}

theorem fseeko_settles (h : x.world.Content fh inode writable f) (target : Nat) :
    Settles (fseeko (some fh) target .set) x fun _ x' =>
      x'.data = x.data ∧ x'.world.ContentAt fh inode writable f target := by
  refine Prog.Meets.call fun choice _ => ?_
  obtain ⟨w, hcall, hat⟩ := content_fseeko choice h target
  exact ⟨_, _, hcall, rfl, hat⟩

/-- A transfer that reads has read the bytes of the file when it ends. -/
theorem transfer_fread_settles (hlen : len < 2 ^ 31) (fuel : Nat) (h : x.world.Content fh inode writable f) :
    Settles (transfer (fread · · (some fh)) (some fh) lba len fuel 0) x fun _ x' =>
      x'.world.Content fh inode writable f ∧ x'.data = blit x.data 0 (slice f.bytes lba len) := by
  refine transfer_settles (fun count x' => x'.world.Content fh inode writable f ∧
    x'.data = blit x.data 0 (slice f.bytes lba count)) hlen ?_ fuel (Nat.zero_le _) ⟨h, by simp⟩
  rintro count x' hcount ⟨hcontent, hdata⟩
  refine (fseeko_settles hcontent (lba + count)).mono (fun _ h => h) ?_
  rintro _ x'' ⟨hsame, hat⟩
  refine Prog.Meets.call fun choice _ => ?_
  obtain ⟨w, hcall, hcontent'⟩ := content_fread choice hat count (len - count)
  refine ⟨_, _, hcall, ?_, hcontent', ?_⟩
  · exact le_trans (List.length_take_le' _ _) (f.pread_length_le _ _)
  · have hbytes : (f.pread (lba + count) (len - count)).take choice.amount =
        slice f.bytes (lba + count) ((f.pread (lba + count) (len - count)).take choice.amount).length := by
      rw [File.pread, take_slice, slice_length]
    have happend := blit_append x.data 0 (slice f.bytes lba count)
      (slice f.bytes (lba + count) ((f.pread (lba + count) (len - count)).take choice.amount).length)
    rw [slice_length, Nat.zero_add, ← slice_append, ← hbytes] at happend
    change blit x''.data _ _ = _
    rw [hsame, hdata, happend]

/-- A transfer that writes has put the bytes of `data` into the file when it
ends; on a stream open for reading it ends only if there are none. -/
theorem transfer_fwrite_settles (hlen : len < 2 ^ 31) (fuel : Nat) (h : x.world.Content fh inode writable f) :
    Settles (transfer (fwrite · · (some fh)) (some fh) lba len fuel 0) x fun _ x' =>
      x'.world.Content fh inode writable (f.pwrite lba (slice x.data 0 len)) := by
  cases writable with
  | true =>
    refine Prog.Meets.mono (transfer_settles (fun count x' =>
      x'.world.Content fh inode true (f.pwrite lba (slice x.data 0 count)) ∧ x'.data = x.data) hlen ?_ fuel
      (Nat.zero_le _) ⟨by simpa using h, rfl⟩) (fun _ h => h) fun _ _ h => h.1
    rintro count x' hcount ⟨hcontent, hdata⟩
    refine (fseeko_settles hcontent (lba + count)).mono (fun _ h => h) ?_
    rintro _ x'' ⟨hsame, hat⟩
    refine Prog.Meets.call fun choice _ => ?_
    obtain ⟨w, hcall, hcontent'⟩ := content_fwrite choice hat count (len - count)
    rw [take_slice] at hcall hcontent'
    refine ⟨_, _, hcall, ?_, ?_, hsame.trans hdata⟩
    · rw [slice_length]
      omega
    · have happend := f.pwrite_append lba (slice x.data 0 count) (slice x.data count (min choice.amount (len - count)))
      have hslice := slice_append x.data 0 count (min choice.amount (len - count))
      rw [slice_length] at happend
      rw [Nat.zero_add] at hslice
      rw [hsame, hdata, happend, ← hslice] at hcontent'
      rwa [slice_length]
  | false =>
    refine Prog.Meets.mono (transfer_settles (fun count x' =>
      x'.world.Content fh inode false f ∧ count = 0) hlen ?_ fuel (Nat.zero_le _) ⟨h, rfl⟩) (fun _ h => h) ?_
    · rintro count x' hcount ⟨hcontent, rfl⟩
      refine (fseeko_settles hcontent (lba + 0)).mono (fun _ h => h) ?_
      rintro _ x'' ⟨-, hat⟩
      refine Prog.Meets.call fun choice _ => ?_
      obtain ⟨w, hcall, hcontent'⟩ := content_fwrite_readonly choice hat.content 0 (len - 0)
      exact ⟨_, _, hcall, Nat.zero_le _, hcontent', rfl⟩
    · rintro _ x' ⟨hcontent, rfl⟩
      simpa using hcontent

/-- An access is turned away or makes its transfer. -/
theorem access_eq (move : Nat → Nat → Code Nat) (fuel : Nat) (ld : LunData) (data_size : Int) (lba n : Nat) :
    access move fuel ld data_size lba n =
      if bound ld < ((lba + n) * ld.block_size.toNat : Nat) then return { ld, data_size, status := 2 }
      else do
        transfer move ld.lun_fh (lba * ld.block_size.toNat : Nat) (n * ld.block_size.toNat : Nat) fuel 0
        return { ld, data_size := int32 (n * ld.block_size.toNat : Nat), status := 0 } := by
  have hbytes : ((lba + n) * ld.block_size.toNat : Nat) = (lba : Int) * ld.block_size.toNat + (n : Int) * ld.block_size.toNat := by
    rw [Nat.add_mul, Int.natCast_add, Int.natCast_mul, Int.natCast_mul]
  rw [hbytes, Int.natCast_mul, Int.natCast_mul]
  rfl

theorem access_len {n : Nat} (h : ¬ bound ld < ((lba + n) * ld.block_size.toNat : Nat)) :
    n * ld.block_size.toNat < 2 ^ 31 := by
  have hlt := bound_lt ld
  have hle : n * ld.block_size.toNat ≤ (lba + n) * ld.block_size.toNat := Nat.mul_le_mul_right _ (Nat.le_add_left _ _)
  omega

variable {func : Handler}

/-- A command that reads blocks answers with them. -/
theorem Answers.read (lba n : Nat)
    (hwritten : written td ld sent data_size =
      if bound ld < ((lba + n) * ld.block_size.toNat : Nat) then none else some [(0, n * ld.block_size.toNat)])
    (hfunc : ∀ fuel cdb, Agree (needs (sent.get 0)) cdb sent → func fuel td ld cdb data_size =
      access (fread · · ld.lun_fh) fuel ld data_size lba n) : Answers func td ld sent data_size payload f := by
  by_cases hbeyond : bound ld < ((lba + n) * ld.block_size.toNat : Nat)
  · apply Answers.refused (by rw [hwritten, if_pos hbeyond])
    intro fuel cdb hagree
    rw [hfunc fuel cdb hagree, access_eq, if_pos hbeyond]
    exact .pure _ _ _
  · rw [if_neg hbeyond] at hwritten
    refine ⟨f, blit (fun _ => 0) 0 (slice f.bytes (lba * ld.block_size.toNat) (n * ld.block_size.toNat)), fun fuel cdb hagree => ?_⟩
    rw [hfunc fuel cdb hagree, access_eq, if_neg hbeyond]
    have honly : ∀ i count, (fread i count ld.lun_fh).Only (Call.On ld.lun_fh) := fun _ _ => ⟨rfl, fun _ => trivial⟩
    refine ⟨Prog.Only.bind (scsi_target.transfer_only honly _ _ _ _) fun _ => trivial, fun x hbacked _ => ?_⟩
    obtain ⟨fh, inode, hfh, hcontent⟩ := hbacked
    rw [hfh]
    refine Prog.Meets.bind (transfer_fread_settles (access_len hbeyond) fuel hcontent) ?_
    rintro _ x' ⟨hcontent', hdata⟩
    refine ⟨by rw [hwritten]; rfl, rfl, ⟨fh, inode, hfh, hcontent'⟩, fun rs hrs i hi => ?_⟩
    obtain rfl := Option.some.inj (hwritten.symm.trans hrs)
    rw [hdata]
    exact blit_covered (by simpa using hi) _ _

/-- A command that writes blocks writes the data that came with it, if that is
as much as it has to write. -/
theorem Answers.write (lba n : Nat)
    (hwritten : written td ld sent data_size =
      if bound ld < ((lba + n) * ld.block_size.toNat : Nat) then none else some [])
    (hpayload : ((lba + n) * ld.block_size.toNat : Nat) ≤ bound ld → n * ld.block_size.toNat ≤ payload.length)
    (hfunc : ∀ fuel cdb, Agree (needs (sent.get 0)) cdb sent → func fuel td ld cdb data_size =
      access (fwrite · · ld.lun_fh) fuel ld data_size lba n) : Answers func td ld sent data_size payload f := by
  by_cases hbeyond : bound ld < ((lba + n) * ld.block_size.toNat : Nat)
  · apply Answers.refused (by rw [hwritten, if_pos hbeyond])
    intro fuel cdb hagree
    rw [hfunc fuel cdb hagree, access_eq, if_pos hbeyond]
    exact .pure _ _ _
  · rw [if_neg hbeyond] at hwritten
    have hlen := hpayload (Int.not_lt.mp hbeyond)
    refine ⟨f.pwrite (lba * ld.block_size.toNat) (payload.take (n * ld.block_size.toNat)), fun _ => 0, fun fuel cdb hagree => ?_⟩
    rw [hfunc fuel cdb hagree, access_eq, if_neg hbeyond]
    have honly : ∀ i count, (fwrite i count ld.lun_fh).Only (Call.On ld.lun_fh) := fun _ _ => ⟨rfl, fun _ => trivial⟩
    refine ⟨Prog.Only.bind (scsi_target.transfer_only honly _ _ _ _) fun _ => trivial, fun x hbacked hdata => ?_⟩
    obtain ⟨fh, inode, hfh, hcontent⟩ := hbacked
    have htake : payload.take (n * ld.block_size.toNat) = slice x.data 0 (n * ld.block_size.toNat) := by
      rw [← hdata, take_slice, Nat.min_eq_left hlen]
    rw [hfh]
    refine Prog.Meets.bind (transfer_fwrite_settles (access_len hbeyond) fuel hcontent) fun _ x' hcontent' => ?_
    refine ⟨by rw [hwritten]; rfl, rfl, ⟨fh, inode, hfh, by rwa [htake]⟩, fun rs hrs i hi => ?_⟩
    obtain rfl := Option.some.inj (hwritten.symm.trans hrs)
    exact absurd hi (not_covered_nil i)

theorem sbc_read10_answers (hop : sent.get 0 = 0x28) : Answers sbc_read10 td ld sent data_size payload f := by
  refine .read (beNat (sent.field 2 4)) (beNat (sent.field 7 2)) (by simp only [written, hop]) ?_
  intro fuel cdb hagree
  rw [sbc_read10, hagree.long hop (by decide), hagree.short hop (by decide)]

end Access

/-- A command that takes data comes with as much as it takes. -/
def Supplied (cmds : CommandTable) (ld : LunData) (cdb : Cdb) (supply : Nat) : Prop :=
  cdb.get 0 ≠ 0x28 → ∀ lba n, blocks cmds cdb = some (lba, n) →
    ((lba + n) * ld.block_size.toNat : Nat) ≤ bound ld → n * ld.block_size.toNat ≤ supply

section Writes

variable {cmds : CommandTable} (h : Supplied cmds ld sent payload.length)

include h

theorem sbc_write6_answers (hcmds : cmds = .sbc) (hop : sent.get 0 = 0x0a) :
    Answers sbc_write6 td ld sent data_size payload f := by
  refine .write (beNat (sent.field 2 2)) (sent.get 4).toNat (by simp only [written, hop])
    (h (by rw [hop]; decide) _ _ (by simp only [blocks, hcmds, hop])) ?_
  intro fuel cdb hagree
  rw [sbc_write6, hagree.short hop (by decide), hagree.get hop _ (by decide)]

theorem sbc_write10_answers (hop : sent.get 0 = 0x2a) : Answers sbc_write10 td ld sent data_size payload f := by
  refine .write (beNat (sent.field 2 4)) (beNat (sent.field 7 2)) (by simp only [written, hop])
    (h (by rw [hop]; decide) _ _ (by simp only [blocks, hop])) ?_
  intro fuel cdb hagree
  rw [sbc_write10, hagree.long hop (by decide), hagree.short hop (by decide)]

theorem sbc_write12_answers (hcmds : cmds = .sbc) (hop : sent.get 0 = 0xaa) :
    Answers sbc_write12 td ld sent data_size payload f := by
  refine .write (beNat (sent.field 2 4)) (beNat (sent.field 6 4)) (by simp only [written, hop])
    (h (by rw [hop]; decide) _ _ (by simp only [blocks, hcmds, hop])) ?_
  intro fuel cdb hagree
  rw [sbc_write12, hagree.long hop (by decide), hagree.long hop (by decide)]

end Writes

/-- The command that starts a new image. -/
def StartsImage (cmds : CommandTable) (ld : LunData) (cdb : Cdb) : Prop :=
  cmds = .mmc ∧ cdb.get 0 = 0x1b ∧ ld.current_profile = 0x0011

/-- The answers of all handlers but the one that starts a new image. -/
theorem func_answers {cmds : CommandTable} {func : Handler} (hfunc : cmds.func (sent.get 0) = some func)
    (hprofile : cmds = .mmc → Profiled ld) (hsupplied : Supplied cmds ld sent payload.length)
    (hstarts : ¬ StartsImage cmds ld sent) : Answers func td ld sent data_size payload f := by
  cases cmds with
  | sbc =>
    simp only [CommandTable.func, scsi_sbc_commands] at hfunc
    split at hfunc <;> rename_i hop <;> simp only [Option.some.injEq, reduceCtorEq] at hfunc <;> subst hfunc
    · exact .nothing (by simp [written, hop]) fun _ _ => .pure _ _ _
    · exact spc_request_sense_answers hop
    · exact sbc_write6_answers hsupplied rfl hop
    · exact spc_inquiry_answers hop
    · exact spc_mode_sense6_answers hop
    · exact .nothing (by simp [written, hop]) fun _ _ => .pure _ _ _
    · exact sbc_read_capacity10_answers hop
    · exact sbc_read10_answers hop
    · exact sbc_write10_answers hsupplied hop
    · exact .nothing (by simp [written, hop]) fun _ _ => .pure _ _ _
    · exact .nothing (by simp [written, hop]) fun _ _ => .pure _ _ _
    · exact spc_persistent_reserve_in_answers hop
    · exact spc_persistent_reserve_out_answers hop
    · exact .nothing (by simp [written, hop]) fun _ _ => .pure _ _ _
    · exact spc_report_luns_answers hop
    · exact sbc_write12_answers hsupplied rfl hop
    · exact .nothing (by simp [written, hop]) fun _ _ => .pure _ _ _
  | mmc =>
    have hdvd := hprofile rfl
    simp only [CommandTable.func, scsi_mmc_commands] at hfunc
    split at hfunc <;> rename_i hop <;> simp only [Option.some.injEq, reduceCtorEq] at hfunc <;> subst hfunc
    · exact .nothing (by simp [written, hop]) fun _ _ => .pure _ _ _
    · exact spc_request_sense_answers hop
    · exact spc_inquiry_answers hop
    · exact spc_mode_sense6_answers hop
    · have hrom := hdvd.resolve_left fun h => hstarts ⟨rfl, hop, h⟩
      refine .nothing (by simp [written, hop]) fun fuel cdb => ?_
      simp only [mmc_start_stop_unit, hrom]
      exact .pure _ _ _
    · exact .nothing (by simp [written, hop]) fun _ _ => .pure _ _ _
    · exact sbc_read_capacity10_answers hop
    · exact sbc_read10_answers hop
    · exact sbc_write10_answers hsupplied hop
    · exact .nothing (by simp [written, hop]) fun _ _ => .pure _ _ _
    · exact mmc_read_toc_answers hop
    · exact mmc_get_configuration_answers hop
    · exact mmc_read_disc_information_answers hop hdvd
    · exact mmc_read_track_information_answers hop hdvd
    · exact .nothing (by simp [written, hop]) fun _ _ => .pure _ _ _
    · exact .nothing (by simp [written, hop]) fun _ _ => .pure _ _ _
    · exact .nothing (by simp [written, hop]) fun _ _ => .pure _ _ _
    · exact mmc_read_buffer_capacity_answers hop
    · exact spc_report_luns_answers hop
    · exact mmc_report_key_answers hop
    · exact mmc_get_performance_answers hop hdvd
    · exact mmc_read_dvd_structure_answers hop hdvd
    · exact .nothing (by simp [written, hop]) fun _ _ => .pure _ _ _
    · exact .nothing (by simp [written, hop]) fun _ _ => .pure _ _ _

end vscsi.scsi
