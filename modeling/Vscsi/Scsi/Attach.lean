import Vscsi.Scsi.HardDisk

open lib lib.Code

namespace vscsi.scsi_target

variable {t : TargetData} {lun : Int} {lunfile : FileName} {m m' : Machine Choice Space}

/-- A disk's file is opened for update, whether it was there or is new. -/
theorem openDisk_some {fh : Nat} (h : (openDisk lunfile).exec libc m = .ok (some fh, m')) :
    ∃ inode, m'.state.world.fs.directory lunfile = some inode ∧
      m'.state.world.streams fh = some (.opened inode true) := by
  simp only [openDisk, Prog.exec_bind, exec_fopen] at h
  cases hopen : m.state.world.fopen lunfile .r_plus (m.choices 0) with
  | mk first w =>
    cases first with
    | some fh' =>
      simp only [hopen, Option.isSome_some, if_true, Prog.pure_eq, Prog.exec_ret, Except.ok.injEq,
        Prod.mk.injEq, Option.some.injEq] at h
      obtain ⟨rfl, rfl⟩ := h
      exact World.fopen_some hopen (nofun)
    | none =>
      simp only [hopen, Option.isSome_none, Bool.false_eq_true, if_false, exec_fopen, Except.ok.injEq,
        Prod.mk.injEq] at h
      obtain ⟨hfh, rfl⟩ := h
      exact World.fopen_some (Prod.ext hfh rfl) (nofun)

/-- A hard disk that `add_lun` has made is mounted. -/
theorem add_lun_mounted {mb : Nat} {ld : LunData}
    (h : (add_lun t lun lunfile .hd mb).exec libc m = .ok ({ t with luns := ld :: t.luns }, m')) :
    ld.lunsizeinmb = mb ∧ ∃ fh inode f, Mounted ld m'.state.world fh inode f := by
  simp only [add_lun, Prog.exec_bind, exec_time] at h
  cases hopen : (openDisk lunfile).exec libc (next m m.state) with
  | error e => simp [hopen] at h
  | ok result =>
    obtain ⟨lun_fh, m₁⟩ := result
    cases lun_fh with
    | none =>
      simp only [hopen, Option.isNone_none, if_true, Prog.pure_eq, Prog.exec_ret, Except.ok.injEq, Prod.mk.injEq] at h
      exact absurd (congrArg (·.luns.length) h.1) (by simp)
    | some fh =>
      obtain ⟨inode, hname, hstream⟩ := openDisk_some hopen
      have hsize : (mb : Int) * 1024 * 1024 = ((mb * 1024 * 1024 : Nat) : Int) := by
        rw [Int.natCast_mul, Int.natCast_mul]
        rfl
      simp only [hopen, Option.isNone_some, Bool.false_eq_true, if_false, Prog.exec_bind, exec_truncate, Prog.pure_eq,
        Prog.exec_ret, Except.ok.injEq, Prod.mk.injEq, hsize] at h
      obtain ⟨htarget, rfl⟩ := h
      obtain rfl : newLun (UInt8.ofInt lun) lunfile .hd mb (m.choices 0).answer (some fh) = ld :=
        (List.cons.inj (congrArg (·.luns) htarget)).1
      exact ⟨rfl, fh, inode, _, rfl, rfl, rfl, hsize.symm, World.truncate_opened hname hstream _⟩

/-- A call of `add_lun` adds a LUN with an open stream, or nothing. -/
theorem add_lun_luns {luntype : LunType} {lunsizeinmb : Int} {t' : TargetData}
    (h : (add_lun t lun lunfile luntype lunsizeinmb).exec libc m = .ok (t', m')) : t' = t ∨ ∃ time fh,
      t' = { t with luns := newLun (UInt8.ofInt lun) lunfile luntype lunsizeinmb time (some fh) :: t.luns } := by
  simp only [add_lun, Prog.exec_bind, exec_time] at h
  cases luntype with
  | hd =>
    simp only [Prog.exec_bind] at h
    cases hopen : (openDisk lunfile).exec libc (next m m.state) with
    | error e => simp [hopen] at h
    | ok result =>
      obtain ⟨lun_fh, m₁⟩ := result
      cases lun_fh with
      | none =>
        simp only [hopen, Option.isNone_none, if_true, Prog.pure_eq, Prog.exec_ret, Except.ok.injEq, Prod.mk.injEq] at h
        exact .inl h.1.symm
      | some fh =>
        simp only [hopen, Option.isNone_some, Bool.false_eq_true, if_false, Prog.exec_bind, exec_truncate, Prog.pure_eq,
          Prog.exec_ret, Except.ok.injEq, Prod.mk.injEq] at h
        exact .inr ⟨_, fh, h.1.symm⟩
  | dvd_r =>
    simp only [Prog.exec_bind, exec_fopen] at h
    cases hopen : ((next m m.state).state.world.fopen lunfile .w_plus ((next m m.state).choices 0)).1 with
    | none =>
      simp only [hopen, Option.isNone_none, if_true, Prog.pure_eq, Prog.exec_ret, Except.ok.injEq, Prod.mk.injEq] at h
      exact .inl h.1.symm
    | some fh =>
      simp only [hopen, Option.isNone_some, Bool.false_eq_true, if_false, Prog.pure_eq, Prog.exec_ret, Except.ok.injEq,
        Prod.mk.injEq] at h
      exact .inr ⟨_, fh, h.1.symm⟩
  | dvd_rom =>
    simp only [Prog.exec_bind, exec_fopen] at h
    cases hopen : ((next m m.state).state.world.fopen lunfile .r ((next m m.state).choices 0)).1 with
    | none =>
      simp only [hopen, Option.isNone_none, if_true, Prog.pure_eq, Prog.exec_ret, Except.ok.injEq, Prod.mk.injEq] at h
      exact .inl h.1.symm
    | some fh =>
      simp only [hopen, Option.isNone_some, Bool.false_eq_true, if_false, Prog.pure_eq, Prog.exec_ret, Except.ok.injEq,
        Prod.mk.injEq] at h
      exact .inr ⟨_, fh, h.1.symm⟩

end vscsi.scsi_target
