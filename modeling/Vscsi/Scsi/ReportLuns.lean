import Vscsi.Scsi.Answers
import Vscsi.Scsi.Capacity

open lib lib.Code

namespace vscsi.scsi

/-- What a LUN has in the answer to REPORT LUNS. -/
def entry (l : LunData) : List UInt8 := [0, l.lun, 0, 0, 0, 0, 0, 0]

/-- The whole answer to REPORT LUNS. -/
def response (luns : List LunData) : List UInt8 := be 4 (luns.length * 8) ++ [0, 0, 0, 0] ++ luns.flatMap entry

/-- The numbers of the LUNs in an answer. -/
def lunNumbers (data : Mem) : List UInt8 :=
  (List.range (beNat (slice data 0 4) / 8)).map fun numluns => data (8 + 1 + numluns * 8)

/-- An answer of a length has been stored: as much of the whole answer as there is
room for, followed by zeros, and nothing behind. -/
structure Reports (alloc_len : Nat) (luns : List LunData) (data data' : Mem) : Prop where
  front : ∀ i < alloc_len, data' i = (response luns)[i]?.getD 0
  decoded : 8 + luns.length * 8 ≤ alloc_len → lunNumbers data' = luns.map (·.lun)
  rest : ∀ i, alloc_len ≤ i → data' i = data i

/-- REPORT LUNS stores its answer whatever was in `data`. -/
def ReportsLuns (td : TargetData) (ld : LunData) (cdb : Cdb) (data_size : Int) : Prop :=
  ∀ (fuel : Nat) (m : Machine Choice Space), ∃ o m', (spc_report_luns fuel td ld cdb data_size).exec libc m = .ok (o, m') ∧
    o.status = 0 ∧ Reports (beNat (cdb.field 6 4)) td.luns m.state.data m'.state.data

variable {alloc_len : Nat} {luns : List LunData} {data : Mem} {i : Nat}

/-- The entries have the number of a LUN in every eighth byte, and zeros. -/
theorem entries_getD (luns : List LunData) (i : Nat) : (luns.flatMap entry)[i]?.getD 0 =
    if i % 8 = 1 then (luns[i / 8]?.map (·.lun)).getD 0 else 0 := by
  induction luns generalizing i with
  | nil => simp
  | cons l luns ih =>
    rw [List.flatMap_cons]
    by_cases hfirst : i < 8
    · rw [List.getElem?_append_left hfirst, Nat.div_eq_of_lt hfirst, Nat.mod_eq_of_lt hfirst]
      match i, hfirst with
      | 0, _ | 1, _ | 2, _ | 3, _ | 4, _ | 5, _ | 6, _ | 7, _ => rfl
    · obtain ⟨k, rfl⟩ := Nat.exists_eq_add_of_le' (Nat.not_lt.mp hfirst)
      have hlength : (entry l).length = 8 := rfl
      have hdiv : (k + 8) / 8 = k / 8 + 1 := by omega
      rw [List.getElem?_append_right (by omega), hlength, Nat.add_sub_cancel, ih, Nat.add_mod_right, hdiv,
        List.getElem?_cons_succ]

theorem response_getD (luns : List LunData) (i : Nat) : (response luns)[i]?.getD 0 =
    if i < 8 then (be 4 (luns.length * 8) ++ [0, 0, 0, 0])[i]?.getD 0
    else if i % 8 = 1 then (luns[i / 8 - 1]?.map (·.lun)).getD 0 else 0 := by
  have hlength : (be 4 (luns.length * 8) ++ [0, 0, 0, 0]).length = 8 := by simp
  rw [response]
  by_cases hheader : i < 8
  · rw [List.getElem?_append_left (by omega), if_pos hheader]
  · obtain ⟨k, rfl⟩ := Nat.exists_eq_add_of_le' (Nat.not_lt.mp hheader)
    have hdiv : (k + 8) / 8 - 1 = k / 8 := by omega
    rw [List.getElem?_append_right (by omega), hlength, Nat.add_sub_cancel, entries_getD, if_neg hheader,
      Nat.add_mod_right, hdiv]

/-- What the stores of the entries leave at a place. -/
theorem applied_entries (alloc_len numluns : Nat) (luns : List LunData) (data : Mem) (i : Nat) :
    applied (entries alloc_len numluns luns) data i =
      if i % 8 = 1 ∧ 8 + 1 + numluns * 8 ≤ i ∧ i ≤ alloc_len then
        (luns[i / 8 - 1 - numluns]?.map (·.lun)).getD (data i)
      else data i := by
  induction luns generalizing numluns data with
  | nil => simp [entries, applied]
  | cons l luns ih =>
    unfold entries
    by_cases hfits : 8 + 1 + numluns * 8 ≤ alloc_len
    · rw [if_pos hfits, applied, ih]
      by_cases hself : i = 8 + 1 + numluns * 8
      · have hindex : i / 8 - 1 - numluns = 0 := by omega
        have hstored := blit_add data (8 + 1 + numluns * 8) (show 0 < [l.lun].length from Nat.zero_lt_one)
        rw [if_neg (by omega), if_pos (by omega), hindex, hself]
        exact hstored
      · have hother : blit data (8 + 1 + numluns * 8) [l.lun] i = data i := by
          apply blit_outside
          rw [List.length_singleton]
          omega
        rw [hother]
        by_cases hnext : i % 8 = 1 ∧ 8 + 1 + (numluns + 1) * 8 ≤ i ∧ i ≤ alloc_len
        · have hindex : i / 8 - 1 - numluns = i / 8 - 1 - (numluns + 1) + 1 := by omega
          rw [if_pos hnext, if_pos (by omega), hindex, List.getElem?_cons_succ]
        · rw [if_neg hnext, if_neg (by omega)]
    · rw [if_neg hfits, ih, if_neg (by omega), if_neg (by omega)]

/-- All stores of the handler. -/
def reportStores (alloc_len : Nat) (luns : List LunData) : List (Nat × List UInt8) :=
  (0, List.replicate alloc_len 0) :: entries alloc_len 0 luns ++ [(0, be 4 (luns.length * 8) ++ [0, 0, 0, 0])]

variable {td : TargetData} {ld : LunData} {cdb : Cdb} {data_size : Int}

theorem spc_report_luns_stores (hfits : (beNat (cdb.field 6 4) : Int) ≤ data_size) (fuel : Nat) :
    Stores (spc_report_luns fuel td ld cdb data_size) (reportStores (beNat (cdb.field 6 4)) td.luns)
      { ld, data_size := int32 (beNat (cdb.field 6 4)), status := 0 } := by
  have hheader : le64 (htonl (UInt32.ofNat (td.luns.length * 8))).toNat = be 4 (td.luns.length * 8) ++ [0, 0, 0, 0] := by
    rw [le64_htonl, UInt32.toNat_ofNat']
    exact congrArg (· ++ [0, 0, 0, 0]) (be_mod 4 _)
  have hstores := reportEntries_stores (beNat (cdb.field 6 4)) 0 td.luns
  rw [Nat.zero_add] at hstores
  simp only [spc_report_luns, cdb.ntohl_long (i := 6) (by decide), if_neg (Int.not_lt.mpr hfits)]
  rw [reportStores, ← hheader, List.cons_append]
  exact .bind (.clear _ _) (.bind hstores (.bind (.store _ _) (.pure _)))

/-- What they leave at a place. -/
theorem applied_report (alloc_len : Nat) (luns : List LunData) (data : Mem) (i : Nat) :
    applied (reportStores alloc_len luns) data i =
      if i < 8 then (be 4 (luns.length * 8) ++ [0, 0, 0, 0])[i]?.getD 0
      else if i % 8 = 1 ∧ i ≤ alloc_len then (luns[i / 8 - 1]?.map (·.lun)).getD (if i < alloc_len then 0 else data i)
      else if i < alloc_len then 0 else data i := by
  have hcleared : blit data 0 (List.replicate alloc_len 0) i = if i < alloc_len then 0 else data i := by
    split
    · rename_i hlt
      have hstored := blit_add data 0 (show i < (List.replicate alloc_len (0 : UInt8)).length by simpa using hlt)
      rwa [Nat.zero_add, List.getElem_replicate] at hstored
    · exact blit_outside _ (by simp; omega)
  rw [reportStores, List.cons_append, applied, applied_append]
  simp only [applied]
  by_cases hheader : i < 8
  · have hlength : i < (be 4 (luns.length * 8) ++ [0, 0, 0, 0]).length := by simpa using hheader
    have hstored := blit_add (applied (entries alloc_len 0 luns) (blit data 0 (List.replicate alloc_len 0))) 0 hlength
    rw [Nat.zero_add] at hstored
    rw [if_pos hheader, hstored, List.getElem?_eq_getElem hlength, Option.getD_some]
  · rw [if_neg hheader, blit_outside _ (by simp; omega), applied_entries, hcleared, Nat.sub_zero]
    by_cases hentry : i % 8 = 1 ∧ i ≤ alloc_len
    · rw [if_pos hentry, if_pos (by omega)]
    · rw [if_neg hentry, if_neg (by omega)]

/-- The answer is stored if there is room for a header and no entry starts right
behind the room. -/
theorem reports_of_room (hroom : 8 ≤ alloc_len) (hbeside : ∀ n < luns.length, alloc_len ≠ 8 + 1 + n * 8)
    (hmax : alloc_len < 2 ^ 32) : Reports alloc_len luns data (applied (reportStores alloc_len luns) data) := by
  have hfront : ∀ i < alloc_len, applied (reportStores alloc_len luns) data i = (response luns)[i]?.getD 0 := by
    intro i hi
    rw [applied_report, response_getD]
    by_cases hheader : i < 8
    · rw [if_pos hheader, if_pos hheader]
    · rw [if_neg hheader, if_neg hheader, if_pos hi]
      by_cases hentry : i % 8 = 1
      · rw [if_pos ⟨hentry, by omega⟩, if_pos hentry]
      · rw [if_neg (fun h => hentry h.1), if_neg hentry]
  refine ⟨hfront, fun hall => ?_, fun i hi => ?_⟩
  · have hheader : slice (applied (reportStores alloc_len luns) data) 0 4 = be 4 (luns.length * 8) := by
      apply List.ext_getElem (by simp)
      intro i hslice hbe
      have hi : i < 4 := by simpa using hbe
      have hbyte := hfront i (by omega)
      rw [response_getD, if_pos (by omega), List.getElem?_append_left hbe, List.getElem?_eq_getElem hbe,
        Option.getD_some] at hbyte
      rw [← hbyte]
      simp [slice]
    have hcount : beNat (slice (applied (reportStores alloc_len luns) data) 0 4) / 8 = luns.length := by
      rw [hheader, beNat_be]
      omega
    rw [lunNumbers, hcount]
    apply List.ext_getElem (by simp)
    intro k hrange hmap
    have hk : k < luns.length := by simpa using hmap
    have hindex : (8 + 1 + k * 8) / 8 - 1 = k := by omega
    have hbyte := hfront (8 + 1 + k * 8) (by omega)
    rw [response_getD, if_neg (by omega), if_pos (by omega), hindex, List.getElem?_eq_getElem hk] at hbyte
    simpa using hbyte
  · rw [applied_report, if_neg (by omega), if_neg (Nat.not_lt.mpr hi)]
    by_cases hentry : i % 8 = 1 ∧ i ≤ alloc_len
    · have hnone : luns[i / 8 - 1]? = none := by
        apply List.getElem?_eq_none
        by_contra hlt
        exact hbeside (i / 8 - 1) (by omega) (by omega)
      rw [if_pos hentry, hnone]
      rfl
    · rw [if_neg hentry]

theorem spc_report_luns_exec (td : TargetData) (ld : LunData) (hfits : (beNat (cdb.field 6 4) : Int) ≤ data_size)
    (fuel : Nat) (m : Machine Choice Space) :
    ∃ m', (spc_report_luns fuel td ld cdb data_size).exec libc m =
        .ok ({ ld, data_size := int32 (beNat (cdb.field 6 4)), status := 0 }, m') ∧
      m'.state.data = applied (reportStores (beNat (cdb.field 6 4)) td.luns) m.state.data := by
  obtain ⟨m', hexec, hstate⟩ := storing_exec (reportStores (beNat (cdb.field 6 4)) td.luns)
    ({ ld, data_size := int32 (beNat (cdb.field 6 4)), status := 0 } : Outcome) m
  rw [spc_report_luns_stores hfits fuel]
  exact ⟨m', hexec, by rw [hstate]⟩

section Stored

variable (hfits : (beNat (cdb.field 6 4) : Int) ≤ data_size) (hreports : ReportsLuns td ld cdb data_size)

include hfits hreports

/-- The stores make a report of whatever there is in memory. -/
theorem ReportsLuns.stored (data : Mem) : Reports (beNat (cdb.field 6 4)) td.luns data
    (applied (reportStores (beNat (cdb.field 6 4)) td.luns) data) := by
  obtain ⟨o, m', hexec, -, hreport⟩ := hreports 0
    { state := { world := .oneFile [] .empty, data }, choices := fun _ => .whole }
  obtain ⟨m₁, hexec₁, hdata⟩ := spc_report_luns_exec td ld hfits 0
    { state := { world := .oneFile [] .empty, data }, choices := fun _ => .whole }
  rw [hexec] at hexec₁
  obtain ⟨-, rfl⟩ := Prod.mk.inj (Except.ok.inj hexec₁)
  rwa [hdata] at hreport

/-- The header has eight bytes. -/
theorem ReportsLuns.room : 8 ≤ beNat (cdb.field 6 4) := by
  by_contra hshort
  have hseven := (hreports.stored hfits fun _ => 1).rest 7 (by omega)
  rw [applied_report, if_pos (by decide)] at hseven
  simp at hseven

/-- The number of a LUN is stored right behind the room as well. -/
theorem ReportsLuns.not_beside (n : Nat) (hn : n < td.luns.length) : beNat (cdb.field 6 4) ≠ 8 + 1 + n * 8 := by
  intro hbeside
  have hindex : (8 + 1 + n * 8) / 8 - 1 = n := by omega
  have hbyte := (hreports.stored hfits fun _ => td.luns[n].lun + 1).rest (8 + 1 + n * 8) (Nat.le_of_eq hbeside)
  rw [applied_report, if_neg (by omega), if_pos ⟨by omega, Nat.le_of_eq hbeside.symm⟩, hindex,
    List.getElem?_eq_getElem hn] at hbyte
  simp at hbyte

end Stored

/-- REPORT LUNS stores its answer exactly if there is room for a header and no
entry starts right behind the room. -/
theorem report_luns_iff (hfits : (beNat (cdb.field 6 4) : Int) ≤ data_size) : ReportsLuns td ld cdb data_size ↔
    8 ≤ beNat (cdb.field 6 4) ∧ ∀ n < td.luns.length, beNat (cdb.field 6 4) ≠ 8 + 1 + n * 8 := by
  constructor
  · exact fun hreports => ⟨hreports.room hfits, hreports.not_beside hfits⟩
  · rintro ⟨hroom, hbeside⟩ fuel m
    obtain ⟨m', hexec, hdata⟩ := spc_report_luns_exec td ld hfits fuel m
    have hmax := beNat_lt (cdb.field 6 4)
    rw [Cdb.field_length _ (by decide)] at hmax
    refine ⟨_, m', hexec, rfl, ?_⟩
    rw [hdata]
    exact reports_of_room hroom hbeside hmax

end vscsi.scsi

namespace vscsi.scsi_target

open scsi

variable {td : TargetData} {lun : UInt8} {ld : LunData} {cmds : CommandTable} {cdb : Cdb} {data_size : Int}

/-- The target stores the answer for any of its LUNs. -/
theorem run_report_luns (hserves : Serves td lun ld) (hcmds : ld.cmds = some cmds) (hop : cdb.get 0 = 0xa0)
    (h : ReportsLuns td ld cdb data_size) (hfits : (beNat (cdb.field 6 4) : Int) ≤ data_size) (fuel : Nat)
    (m : Machine Choice Space) : ∃ m', (run_scsi_command fuel td lun cdb data_size).exec libc m = .ok ((0, td), m') ∧
      Reports (beNat (cdb.field 6 4)) td.luns m.state.data m'.state.data := by
  have hfunc : cmds.func (cdb.get 0) = some spc_report_luns := by
    rw [hop]
    cases cmds <;> rfl
  obtain ⟨o, m', hexec, -, hreport⟩ := h fuel m
  obtain ⟨m₁, hexec₁, -⟩ := spc_report_luns_exec td ld hfits fuel m
  rw [hexec] at hexec₁
  obtain ⟨rfl, rfl⟩ := Prod.mk.inj (Except.ok.inj hexec₁)
  refine ⟨m', ?_, hreport⟩
  rw [run_scsi_command_eq hserves.type (findLun_eq hserves.find) hcmds hfunc, Prog.exec_bind, hexec]
  simp only [Prog.pure_eq, Prog.exec_ret, putLun_self hserves.find]

/-- A REPORT LUNS CDB with an allocation length. -/
def reportCdb (alloc_len : Nat) : Cdb :=
  #v[0xa0, 0, 0, 0, 0, 0, UInt8.ofNat (alloc_len / 2 ^ 24), UInt8.ofNat (alloc_len / 2 ^ 16),
    UInt8.ofNat (alloc_len / 2 ^ 8), UInt8.ofNat alloc_len, 0, 0, 0, 0, 0, 0]

theorem report_luns_one_disk : ReportsLuns (diskTarget 1) (newLun 0 "disk".toList .hd 1 0 (some 0)) (reportCdb 16) 16 := by
  refine (report_luns_iff (by decide)).mpr ⟨by decide, fun n hn => ?_⟩
  obtain rfl : n = 0 := Nat.lt_one_iff.mp hn
  decide

/-- With a length of 7 the header runs over the end, with a length of 9 the number
of the first LUN is stored behind it. -/
theorem report_luns_overruns :
    ¬ ReportsLuns (diskTarget 1) (newLun 0 "disk".toList .hd 1 0 (some 0)) (reportCdb 7) 7 ∧
      ¬ ReportsLuns (diskTarget 1) (newLun 0 "disk".toList .hd 1 0 (some 0)) (reportCdb 9) 9 := by
  constructor
  · exact fun hreports => absurd (hreports.room (by decide)) (by decide)
  · exact fun hreports => hreports.not_beside (by decide) 0 Nat.zero_lt_one (by decide)

end vscsi.scsi_target
