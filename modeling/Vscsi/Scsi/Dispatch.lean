import Vscsi.Scsi.Capacity

open lib lib.Code

namespace vscsi.scsi_target

open scsi

/-- A target that `add_target` and calls of `add_lun` have made. -/
inductive Built : TargetData → Prop where
  | add_target (targetname : List Char) (targettype : Int) : Built (add_target targetname targettype)
  | add_lun {t t' : TargetData} (lun : Int) (lunfile : FileName) (luntype : LunType) (lunsizeinmb : Int)
      {m m' : Machine Choice Space} (h : Built t)
      (hexec : (add_lun t lun lunfile luntype lunsizeinmb).exec libc m = .ok (t', m')) : Built t'

/-- The newest LUN with a number. -/
def newest (td : TargetData) (lun : UInt8) : Option LunData := td.luns.find? (·.lun = lun)

/-- The handler of a LUN for an opcode. -/
def handler (ld : LunData) (opcode : UInt8) : Option Handler := ld.cmds.bind (·.func opcode)

/-- A command is run by the handler of its LUN, or comes back with a status
because it has none. -/
inductive Dispatched (td : TargetData) (lun : UInt8) (cdb : Cdb) : Prop where
  | handled (ld : LunData) (func : Handler) (hnewest : newest td lun = some ld) (hfunc : handler ld (cdb.get 0) = some func)
      (hrun : ∀ fuel data_size, run_scsi_command fuel td lun cdb data_size = do
        let outcome ← func fuel td ld cdb data_size
        return (outcome.status, putLun td lun outcome.ld))
  | answered (status : UInt8)
      (hnone : td.type = TARGET_TYPE_EMULATION → ∀ ld, newest td lun = some ld → handler ld (cdb.get 0) = none)
      (hrun : ∀ fuel data_size, run_scsi_command fuel td lun cdb data_size = return (status, td))

/-- A command is dispatched, and REPORT LUNS on LUN 0 is run even if the target
has none. -/
structure DispatchTotal (td : TargetData) (lun : UInt8) (cdb : Cdb) : Prop where
  dispatched : Dispatched td lun cdb
  report_luns : td.type = TARGET_TYPE_EMULATION → lun = 0 → newest td lun = none → cdb.get 0 = 0xa0 →
    ∃ ld, ∀ fuel data_size, run_scsi_command fuel td lun cdb data_size = do
      let outcome ← spc_report_luns fuel td ld cdb data_size
      return (outcome.status, putLun td lun outcome.ld)

variable {td : TargetData} {lun : UInt8} {cdb : Cdb} {ld : LunData}

/-- Every LUN has a command table. -/
theorem Built.cmds (h : Built td) : ∀ ld ∈ td.luns, ∃ cmds, ld.cmds = some cmds := by
  induction h with
  | add_target targetname targettype => exact fun ld hld => absurd hld (List.not_mem_nil)
  | add_lun lun lunfile luntype lunsizeinmb _ hexec ih =>
    rcases add_lun_luns hexec with rfl | ⟨time, fh, rfl⟩
    · exact ih
    · intro ld hld
      rcases List.mem_cons.mp hld with rfl | hold
      · cases luntype
        · exact ⟨.sbc, rfl⟩
        · exact ⟨.mmc, rfl⟩
        · exact ⟨.mmc, rfl⟩
      · exact ih ld hold

/-- The command of a LUN is dispatched. -/
theorem dispatched_newest (htype : td.type = TARGET_TYPE_EMULATION) (hnewest : newest td lun = some ld)
    {cmds : CommandTable} (hcmds : ld.cmds = some cmds) : Dispatched td lun cdb := by
  have hfind : findLun td lun = some ld := findLun_eq hnewest
  cases hfunc : cmds.func (cdb.get 0) with
  | some func =>
    have hhandler : handler ld (cdb.get 0) = some func := by rw [handler, hcmds, Option.bind_some, hfunc]
    exact .handled ld func hnewest hhandler (run_scsi_command_eq htype hfind hcmds hfunc)
  | none =>
    refine .answered 2 (fun _ other hother => ?_) fun fuel data_size => ?_
    · rw [hnewest] at hother
      obtain rfl := Option.some.inj hother
      rw [handler, hcmds, Option.bind_some, hfunc]
    · simp only [run_scsi_command, htype, hfind, hcmds, hfunc, if_true]

/-- Without a LUN a null pointer is followed: the one to the LUN or, on LUN 0,
the one of the stand-in to its commands. -/
theorem run_scsi_command_crashes (htype : td.type = TARGET_TYPE_EMULATION) (hnewest : newest td lun = none)
    (fuel : Nat) (data_size : Int) : run_scsi_command fuel td lun cdb data_size = .fail .crash := by
  have hfind : findLun td lun = if lun = 0 then some DUMMY_LUN_0 else none := by
    rw [findLun, show td.luns.find? (·.lun = lun) = none from hnewest, Option.none_or]
  by_cases hzero : lun = 0
  · rw [if_pos hzero] at hfind
    simp only [run_scsi_command, htype, hfind, if_true, DUMMY_LUN_0]
  · rw [if_neg hzero] at hfind
    simp only [run_scsi_command, htype, hfind, if_true]

theorem not_dispatched (htype : td.type = TARGET_TYPE_EMULATION) (hnewest : newest td lun = none) :
    ¬ Dispatched td lun cdb := by
  intro hdispatched
  cases hdispatched with
  | handled ld func hsome hfunc hrun =>
    rw [hnewest] at hsome
    cases hsome
  | answered status hnone hrun => cases (run_scsi_command_crashes htype hnewest 0 0).symm.trans (hrun 0 0)

/-- A command is dispatched exactly if its LUN exists, or the target is none that
emulates. -/
theorem dispatch_total_iff (h : Built td) (lun : UInt8) (cdb : Cdb) :
    DispatchTotal td lun cdb ↔ td.type ≠ TARGET_TYPE_EMULATION ∨ ∃ ld ∈ td.luns, ld.lun = lun := by
  by_cases htype : td.type = TARGET_TYPE_EMULATION
  · cases hnewest : newest td lun with
    | some ld =>
      have hld := List.mem_of_find?_eq_some hnewest
      have hlun : ld.lun = lun := by simpa using List.find?_some hnewest
      obtain ⟨cmds, hcmds⟩ := h.cmds ld hld
      refine ⟨fun _ => .inr ⟨ld, hld, hlun⟩, fun _ => ⟨dispatched_newest htype hnewest hcmds, fun _ _ hnone => ?_⟩⟩
      rw [hnewest] at hnone
      cases hnone
    | none =>
      constructor
      · exact fun htotal => absurd htotal.dispatched (not_dispatched htype hnewest)
      · rintro (hother | ⟨ld, hld, hlun⟩)
        · exact absurd htype hother
        · exact absurd hlun (by simpa using List.find?_eq_none.mp hnewest ld hld)
  · have hrun : ∀ fuel data_size, run_scsi_command fuel td lun cdb data_size = return (0, td) := by
      intro fuel data_size
      simp only [run_scsi_command, if_neg htype]
    exact ⟨fun _ => .inl htype, fun _ => ⟨.answered 0 (fun hemulates => absurd hemulates htype) hrun,
      fun hemulates => absurd hemulates htype⟩⟩

/-- REPORT LUNS. -/
def reportLunsCdb : Cdb := #v[0xa0, 0, 0, 0, 0, 0, 16, 0, 0, 0, 0, 0, 0, 0, 0, 0]

theorem diskTarget_built : Built (diskTarget 1) := by
  exact .add_lun 0 "disk".toList .hd 1 (.add_target "virtual20mhd".toList TARGET_TYPE_EMULATION)
    (m := { state := { world := .oneFile "disk".toList .empty, data := fun _ => 0 }, choices := fun _ => .whole }) rfl

theorem dispatch_total_disk : DispatchTotal (diskTarget 1) 0 reportLunsCdb :=
  (dispatch_total_iff diskTarget_built 0 reportLunsCdb).mpr (.inr ⟨_, List.mem_singleton.mpr rfl, rfl⟩)

/-- REPORT LUNS kills a target without LUNs, and so does any command for LUN 1 of
a target with one LUN. -/
theorem report_luns_crashes : Built (add_target "virtual20mhd".toList TARGET_TYPE_EMULATION) ∧
    ¬ DispatchTotal (add_target "virtual20mhd".toList TARGET_TYPE_EMULATION) 0 reportLunsCdb ∧
    Built (diskTarget 1) ∧ ∀ cdb, ¬ DispatchTotal (diskTarget 1) 1 cdb := by
  refine ⟨.add_target _ _, fun htotal => ?_, diskTarget_built, fun cdb htotal => ?_⟩
  · exact not_dispatched rfl rfl htotal.dispatched
  · exact not_dispatched rfl rfl htotal.dispatched

end vscsi.scsi_target
