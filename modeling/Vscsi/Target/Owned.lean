import Vscsi.Scsi.Answers
import Vscsi.Scsi.NewImage
import Vscsi.Target.Confinement

open lib

namespace vscsi

open scsi scsi_target

/-- A LUN has a file open, or its name stands for it. -/
def Uses (w : World) (ld : LunData) (inode : Nat) : Prop :=
  (∃ fh, ld.lun_fh = some fh ∧ w.inode? fh = some inode) ∨ w.fs.directory ld.filename = some inode

/-- The LUNs of a target are as `add_lun` adds them, each on a file of its own. -/
structure Owned (td : TargetData) (w : World) : Prop where
  type : td.type = TARGET_TYPE_EMULATION
  added : ∀ ld ∈ td.luns, Added ld
  backed : ∀ ld ∈ td.luns, ∃ f, Backed ld w f
  filenames : ∀ (p q : Nat) (ld ld' : LunData), p ≠ q → td.luns[p]? = some ld → td.luns[q]? = some ld' →
    ld.filename ≠ ld'.filename
  apart : ∀ (p q : Nat) (ld ld' : LunData), p ≠ q → td.luns[p]? = some ld → td.luns[q]? = some ld' →
    ∀ inode, Uses w ld inode → ¬ Uses w ld' inode
  streams : ∀ fh, w.next ≤ fh → w.streams fh = none
  names : ∀ name inode, w.fs.directory name = some inode → inode < w.fs.fresh
  inodes : ∀ fh inode, w.inode? fh = some inode → inode < w.fs.fresh

section Owned

variable {td : TargetData} {w w' : World} {ld ld' : LunData} {f : File} {p : Nat}

theorem Uses.stream {fh inode : Nat} (hfh : ld.lun_fh = some fh) (h : w.inode? fh = some inode) : Uses w ld inode :=
  .inl ⟨fh, hfh, h⟩

/-- The stream of another LUN is another one, on another file. -/
theorem Owned.others (h : Owned td w) {q : Nat} (hne : q ≠ p) (hp : td.luns[p]? = some ld) (hq : td.luns[q]? = some ld')
    {fh inode : Nat} (hfh : ld'.lun_fh = some fh) (hinode : w.inode? fh = some inode) :
    some fh ≠ ld.lun_fh ∧ ∀ n, ld.lun_fh = some n → w.inode? n ≠ some inode := by
  have hapart := h.apart q p ld' ld hne hq hp inode (.stream hfh hinode)
  exact ⟨fun hsame => hapart (.stream hsame.symm hinode), fun n hn hsame => hapart (.stream hn hsame)⟩

/-- A change to one LUN's stream leaves the other LUNs alone. -/
theorem Owned.keeps_others (h : Owned td w) (hp : td.luns[p]? = some ld) (hlocal : World.Local ld.lun_fh w w') {q : Nat}
    (hne : q ≠ p) (hq : td.luns[q]? = some ld') (hbacked : Backed ld' w f) : Backed ld' w' f := by
  obtain ⟨fh, inode, hfh, hcontent⟩ := hbacked
  obtain ⟨hother, hinode⟩ := h.others hne hp hq hfh hcontent.inode?
  exact ⟨fh, inode, hfh, hlocal.content hother hinode hcontent⟩

theorem Owned.local (h : Owned td w) (hp : td.luns[p]? = some ld) (hlocal : World.Local ld.lun_fh w w')
    (hbacked : Backed ld w' f) : Owned td w' := by
  have huses : ∀ (ld : LunData) (inode : Nat), Uses w' ld inode → Uses w ld inode := by
    rintro ld inode (⟨fh, hfh, hinode⟩ | hname)
    · rw [hlocal.inode?_eq] at hinode
      exact .inl ⟨fh, hfh, hinode⟩
    · rw [hlocal.directory] at hname
      exact .inr hname
  constructor
  · exact h.type
  · exact h.added
  · intro ld' hld'
    obtain ⟨q, hq⟩ := List.mem_iff_getElem?.mp hld'
    by_cases hsame : q = p
    · subst hsame
      obtain rfl := Option.some.inj (hp.symm.trans hq)
      exact ⟨f, hbacked⟩
    · obtain ⟨g, hg⟩ := h.backed ld' hld'
      exact ⟨g, h.keeps_others hp hlocal hsame hq hg⟩
  · exact h.filenames
  · exact fun q q' ld₁ ld₂ hne h₁ h₂ inode hu hu' => h.apart q q' ld₁ ld₂ hne h₁ h₂ inode (huses _ _ hu) (huses _ _ hu')
  · intro fh hfh
    rw [hlocal.next] at hfh
    have hclosed := h.streams fh hfh
    have hinode := hlocal.inode?_eq fh
    simpa [World.inode?, hclosed] using hinode
  · intro name inode hname
    rw [hlocal.directory] at hname
    rw [hlocal.fresh]
    exact h.names name inode hname
  · intro fh inode hinode
    rw [hlocal.inode?_eq] at hinode
    rw [hlocal.fresh]
    exact h.inodes fh inode hinode

theorem Owned.uses_lt (h : Owned td w) {inode : Nat} (huses : Uses w ld inode) : inode < w.fs.fresh := by
  rcases huses with ⟨fh, -, hinode⟩ | hname
  · exact h.inodes fh inode hinode
  · exact h.names _ inode hname

/-- A LUN's stream is older than the next one. -/
theorem Owned.fh_lt (h : Owned td w) {fh inode : Nat} (hinode : w.inode? fh = some inode) : fh < w.next := by
  by_contra hle
  simp [World.inode?, h.streams fh (Nat.le_of_not_lt hle)] at hinode

theorem Added.restarted (h : Added ld) (fh : Nat) : Added { ld with lun_fh := some fh } := by
  obtain ⟨lun, lunfile, luntype, lunsizeinmb, time, fh', rfl⟩ := h
  refine ⟨lun, lunfile, luntype, lunsizeinmb, time, fh, ?_⟩
  cases luntype <;> rfl

/-- The LUNs of a target, one of which has got a new stream. -/
theorem getElem?_restarted {q : Nat} {ld₁ : LunData} {fh : Nat} (hp : td.luns[p]? = some ld)
    (hq : (td.luns.set p { ld with lun_fh := some fh })[q]? = some ld₁) :
    q = p ∧ ld₁ = { ld with lun_fh := some fh } ∨ q ≠ p ∧ td.luns[q]? = some ld₁ := by
  have hlen : p < td.luns.length := (List.getElem?_eq_some_iff.mp hp).1
  by_cases hsame : q = p
  · subst hsame
    rw [List.getElem?_set_self hlen] at hq
    exact .inl ⟨rfl, (Option.some.inj hq).symm⟩
  · rw [List.getElem?_set_ne (Ne.symm hsame)] at hq
    exact .inr ⟨hsame, hq⟩

section Started

variable {fh inode j : Nat} {archive : FileName}

variable (h : Owned td w) (hp : td.luns[p]? = some ld) (hfh : ld.lun_fh = some fh) (hinode : w.inode? fh = some inode)
  (hstarted : Started w fh inode f ld.filename archive w' j)

include h hp hstarted

/-- The file an image is started on is no other LUN's. -/
theorem Owned.not_uses_started {q : Nat} (hne : q ≠ p) (hq : td.luns[q]? = some ld') : ¬ Uses w ld' j := by
  intro huses
  rcases hstarted.origin with ⟨hj, -⟩ | ⟨hname, -⟩
  · exact absurd (h.uses_lt huses) (by omega)
  · exact h.apart q p ld' ld hne hq hp j huses (.inr hname)

/-- What another LUN uses afterwards it has used before, unless its name is the
one the image has been archived under. -/
theorem Owned.uses_started {q : Nat} (hne : q ≠ p) (hq : td.luns[q]? = some ld') {i : Nat} (huses : Uses w' ld' i) :
    Uses w ld' i ∨ ld'.filename = archive ∧ w.fs.directory ld.filename = some i ∧ i ≠ j := by
  rcases huses with ⟨n, hn, hi⟩ | hname
  · obtain ⟨g, n', inode', hn', hcontent⟩ := h.backed ld' (List.mem_of_getElem? hq)
    obtain rfl : n' = n := Option.some.inj (hn'.symm.trans hn)
    have hlt := h.fh_lt hcontent.inode?
    rw [hstarted.inode?, if_neg (by omega)] at hi
    split at hi
    · cases hi
    · exact .inl (.stream hn hi)
  · rcases hstarted.others _ i (h.filenames q p ld' ld hne hq hp) hname with hold | harchived
    · exact .inl (.inr hold)
    · exact .inr harchived

include hfh hinode

/-- The other LUNs hold what they held. -/
theorem Owned.started_others {q : Nat} (hne : q ≠ p) (hq : td.luns[q]? = some ld') {g : File} (hbacked : Backed ld' w g) :
    Backed ld' w' g := by
  obtain ⟨n, k, hn, s, hs⟩ := hbacked
  have hcontent : w.Content n k (ld'.current_profile ≠ 0x0010) g := ⟨s, hs⟩
  have hlt := h.fh_lt hcontent.inode?
  obtain ⟨hother, hapart⟩ := h.others hne hp hq hn hcontent.inode?
  have hnfh : n ≠ fh := fun heq => hother (by rw [heq, hfh])
  have hk : k ≠ inode := fun heq => hapart fh hfh (by rw [hinode, heq])
  have hkj : k ≠ j := by
    rintro rfl
    exact h.not_uses_started hp hstarted hne hq (.stream hn hcontent.inode?)
  have hfile : w'.fs.files k = w.fs.files k := by
    rw [hstarted.files, Function.update_of_ne hkj, Function.update_of_ne hk]
  refine ⟨n, k, hn, s, ?_, hs.on, hs.mode, ?_, ?_⟩
  · rw [hstarted.streams, Function.update_of_ne (by omega), Function.update_of_ne hnfh]
    exact hs.opened
  · rw [hfile]
    exact hs.coherent
  · rw [hfile]
    exact hs.contents

omit h hp hfh hinode in
/-- The LUN of the image uses the file it is started on, and nothing else. -/
theorem started_uses {i : Nat} (huses : Uses w' { ld with lun_fh := some w.next } i) : i = j := by
  rcases huses with ⟨n, hn, hi⟩ | hname
  · obtain rfl := Option.some.inj hn
    rw [hstarted.inode?, if_pos rfl] at hi
    exact (Option.some.inj hi).symm
  · exact Option.some.inj (hname.symm.trans hstarted.name)

omit h hp hfh hinode in
/-- A new image is empty. -/
theorem started_backed (hprofile : ld.current_profile = 0x0011) :
    Backed { ld with lun_fh := some w.next } w' .empty := by
  have hfile : w'.fs.files j = .empty := by rw [hstarted.files, Function.update_self]
  have hmode : decide (ld.current_profile ≠ 0x0010) = true := by rw [hprofile]; decide
  refine ⟨w.next, j, rfl, .opened j true, ?_, rfl, hmode.symm, Stream.Coherent.opened _ _ _, ?_⟩
  · rw [hstarted.streams, Function.update_self]
  · rw [hfile]
    exact File.pwrite_nil _ _

theorem Owned.started (hprofile : ld.current_profile = 0x0011) :
    Owned { td with luns := td.luns.set p { ld with lun_fh := some w.next } } w' := by
  have hget : ∀ {q : Nat} {ld₁ : LunData}, (td.luns.set p { ld with lun_fh := some w.next })[q]? = some ld₁ →
      q = p ∧ ld₁ = { ld with lun_fh := some w.next } ∨ q ≠ p ∧ td.luns[q]? = some ld₁ :=
    fun hq => getElem?_restarted hp hq
  constructor
  · exact h.type
  · intro ld₁ hld₁
    obtain ⟨q, hq⟩ := List.mem_iff_getElem?.mp hld₁
    rcases hget hq with ⟨-, rfl⟩ | ⟨-, hold⟩
    · exact (h.added ld (List.mem_of_getElem? hp)).restarted _
    · exact h.added ld₁ (List.mem_of_getElem? hold)
  · intro ld₁ hld₁
    obtain ⟨q, hq⟩ := List.mem_iff_getElem?.mp hld₁
    rcases hget hq with ⟨-, rfl⟩ | ⟨hne, hold⟩
    · exact ⟨.empty, started_backed hstarted hprofile⟩
    · obtain ⟨g, hg⟩ := h.backed ld₁ (List.mem_of_getElem? hold)
      exact ⟨g, h.started_others hp hfh hinode hstarted hne hold hg⟩
  · intro q q' ld₁ ld₂ hne h₁ h₂
    rcases hget h₁ with ⟨rfl, rfl⟩ | ⟨-, hold₁⟩
    · rcases hget h₂ with ⟨rfl, -⟩ | ⟨-, hold₂⟩
      · exact absurd rfl hne
      · exact h.filenames q q' ld ld₂ hne hp hold₂
    · rcases hget h₂ with ⟨rfl, rfl⟩ | ⟨-, hold₂⟩
      · exact h.filenames q q' ld₁ ld hne hold₁ hp
      · exact h.filenames q q' ld₁ ld₂ hne hold₁ hold₂
  · intro q q' ld₁ ld₂ hne h₁ h₂ i hu₁ hu₂
    -- what the image is started on is used by its LUN alone
    have hj : ∀ {q : Nat} {ld₁ : LunData}, q ≠ p → td.luns[q]? = some ld₁ → ¬ Uses w' ld₁ j := by
      intro q ld₁ hq h₁ hu
      rcases h.uses_started hp hstarted hq h₁ hu with hold | ⟨-, -, hne⟩
      · exact h.not_uses_started hp hstarted hq h₁ hold
      · exact hne rfl
    rcases hget h₁ with ⟨rfl, rfl⟩ | ⟨hq, hold₁⟩
    · rcases hget h₂ with ⟨rfl, -⟩ | ⟨hq', hold₂⟩
      · exact hne rfl
      · obtain rfl := started_uses hstarted hu₁
        exact hj hq' hold₂ hu₂
    · rcases hget h₂ with ⟨rfl, rfl⟩ | ⟨hq', hold₂⟩
      · obtain rfl := started_uses hstarted hu₂
        exact hj hq hold₁ hu₁
      · rcases h.uses_started hp hstarted hq hold₁ hu₁ with huse₁ | ⟨hname₁, harchived, -⟩
        · rcases h.uses_started hp hstarted hq' hold₂ hu₂ with huse₂ | ⟨-, harchived, -⟩
          · exact h.apart q q' ld₁ ld₂ hne hold₁ hold₂ i huse₁ huse₂
          · exact h.apart q p ld₁ ld hq hold₁ hp i huse₁ (.inr harchived)
        · rcases h.uses_started hp hstarted hq' hold₂ hu₂ with huse₂ | ⟨hname₂, -, -⟩
          · exact h.apart q' p ld₂ ld hq' hold₂ hp i huse₂ (.inr harchived)
          · exact h.filenames q q' ld₁ ld₂ hne hold₁ hold₂ (hname₁.trans hname₂.symm)
  · intro n hn
    have hlt := h.fh_lt hinode
    rw [hstarted.next] at hn
    rw [hstarted.streams, Function.update_of_ne (by omega), Function.update_of_ne (by omega)]
    exact h.streams n (by omega)
  · intro name i hi
    by_cases hname : name = ld.filename
    · subst hname
      obtain rfl := Option.some.inj (hi.symm.trans hstarted.name)
      rcases hstarted.origin with ⟨rfl, hfresh⟩ | ⟨hold, hfresh⟩
      · omega
      · rw [hfresh]
        exact h.names _ _ hold
    · have hlt : i < w.fs.fresh := by
        rcases hstarted.others name i hname hi with hold | ⟨-, hold, -⟩
        · exact h.names _ _ hold
        · exact h.names _ _ hold
      rcases hstarted.origin with ⟨-, hfresh⟩ | ⟨-, hfresh⟩ <;> omega
  · intro n i hi
    rw [hstarted.inode?] at hi
    split at hi
    · obtain rfl := Option.some.inj hi
      rcases hstarted.origin with ⟨rfl, hfresh⟩ | ⟨hold, hfresh⟩
      · omega
      · rw [hfresh]
        exact h.names _ _ hold
    · split at hi
      · cases hi
      · have hlt := h.inodes n i hi
        rcases hstarted.origin with ⟨-, hfresh⟩ | ⟨-, hfresh⟩ <;> omega

end Started

end Owned

/-- The only LUN of a target, on the only file. -/
theorem Owned.single {td : TargetData} {w : World} {ld : LunData} {f : File} {name : FileName} {writable : Bool}
    (htype : td.type = TARGET_TYPE_EMULATION) (hluns : td.luns = [ld]) (hadded : Added ld) (hbacked : Backed ld w f)
    (hdirectory : w.fs.directory = Function.update (fun _ => none) name (some 0)) (hfresh : w.fs.fresh = 1)
    (hstreams : w.streams = Function.update (fun _ => none) 0 (some (.opened 0 writable))) (hnext : w.next = 1) :
    Owned td w := by
  have honly : ∀ (p : Nat) (ld' : LunData), td.luns[p]? = some ld' → p = 0 := by
    intro p ld' hp
    rw [hluns] at hp
    cases p with
    | zero => rfl
    | succ p => cases hp
  constructor
  · exact htype
  · intro ld' hld'
    rw [hluns] at hld'
    rw [List.mem_singleton.mp hld']
    exact hadded
  · intro ld' hld'
    rw [hluns] at hld'
    rw [List.mem_singleton.mp hld']
    exact ⟨f, hbacked⟩
  · exact fun p q ld ld' hne hp hq => absurd ((honly p ld hp).trans (honly q ld' hq).symm) hne
  · exact fun p q ld ld' hne hp hq => absurd ((honly p ld hp).trans (honly q ld' hq).symm) hne
  · intro n hn
    rw [hstreams, Function.update_of_ne (by omega)]
  · intro other i hi
    rw [hdirectory] at hi
    rw [hfresh]
    by_cases hname : other = name
    · rw [hname, Function.update_self] at hi
      obtain rfl := Option.some.inj hi
      decide
    · rw [Function.update_of_ne hname] at hi
      cases hi
  · intro n i hi
    rw [World.inode?, hstreams] at hi
    rw [hfresh]
    by_cases hn : n = 0
    · rw [hn, Function.update_self] at hi
      obtain rfl := Option.some.inj hi
      exact Nat.zero_lt_one
    · rw [Function.update_of_ne hn] at hi
      cases hi

section Ran

variable {td td' : TargetData} {lun status : UInt8} {cdb : Cdb} {fuel : Nat} {data_size : Int} {m m' : Machine Choice Space}

theorem Added.profiled {ld : LunData} (h : Added ld) (hcmds : ld.cmds = some .mmc) : Profiled ld := by
  obtain ⟨lun, lunfile, luntype, lunsizeinmb, time, fh, rfl⟩ := h
  cases luntype with
  | hd => cases hcmds
  | dvd_r => exact .inl rfl
  | dvd_rom => exact .inr rfl

/-- What running a command comes to. -/
inductive Ran (fuel : Nat) (td : TargetData) (lun : UInt8) (cdb : Cdb) (data_size : Int) (m : Machine Choice Space)
    (p : Nat) (ld : LunData) (cmds : CommandTable) : UInt8 → TargetData → Machine Choice Space → Prop where
  | unknown (hfunc : cmds.func (cdb.get 0) = none) : Ran fuel td lun cdb data_size m p ld cmds 2 td m
  | answered (func : Handler) (hfunc : cmds.func (cdb.get 0) = some func) (hstarts : ¬ StartsImage cmds ld cdb) (o : Outcome)
      (m' : Machine Choice Space) (hexec : (func fuel td ld cdb data_size).exec libc m = .ok (o, m')) :
      Ran fuel td lun cdb data_size m p ld cmds o.status (putLun td lun o.ld) m'
  | started (hstarts : StartsImage cmds ld cdb) (ld' : LunData) (m' : Machine Choice Space)
      (hexec : (insert_new_dvd_r ld).exec libc m = .ok (ld', m')) :
      Ran fuel td lun cdb data_size m p ld cmds 0 { td with luns := td.luns.set p ld' } m'

/-- A command that runs to its end is for a LUN of the target. -/
theorem Owned.ran (h : Owned td m.state.world)
    (hexec : (run_scsi_command fuel td lun cdb data_size).exec libc m = .ok ((status, td'), m')) :
    ∃ p ld cmds, td.luns.find? (·.lun = lun) = some ld ∧ td.luns[p]? = some ld ∧ ld.cmds = some cmds ∧
      Ran fuel td lun cdb data_size m p ld cmds status td' m' := by
  unfold run_scsi_command at hexec
  simp only [h.type, if_true] at hexec
  cases hfind : td.luns.find? (·.lun = lun) with
  | none =>
    have hfound : findLun td lun = some DUMMY_LUN_0 ∨ findLun td lun = none := by
      rw [findLun, hfind, Option.none_or]
      split
      · exact .inl rfl
      · exact .inr rfl
    rcases hfound with hfound | hfound <;> simp [hfound, DUMMY_LUN_0, Prog.exec] at hexec
  | some ld =>
    have hp : td.luns[td.luns.findIdx (·.lun = lun)]? = some ld := by rw [← List.find?_eq_getElem?_findIdx, hfind]
    obtain ⟨cmds, hcmds⟩ := (h.added ld (List.mem_of_getElem? hp)).cmds
    refine ⟨_, ld, cmds, rfl, hp, hcmds, ?_⟩
    simp only [findLun_eq hfind, hcmds] at hexec
    cases hfunc : cmds.func (cdb.get 0) with
    | none =>
      simp only [hfunc] at hexec
      cases hexec
      exact .unknown hfunc
    | some func =>
      simp only [hfunc, Prog.exec_bind] at hexec
      by_cases hstarts : StartsImage cmds ld cdb
      · obtain ⟨rfl, hop, hprofile⟩ := id hstarts
        rw [hop] at hfunc
        obtain rfl := Option.some.inj hfunc
        simp only [mmc_start_stop_unit, hprofile, Prog.exec_bind] at hexec
        cases hrun : (insert_new_dvd_r ld).exec libc m with
        | error e => simp [hrun] at hexec
        | ok result =>
          obtain ⟨ld', m₁⟩ := result
          rw [hrun] at hexec
          cases hexec
          exact .started hstarts ld' m' hrun
      · cases hrun : (func fuel td ld cdb data_size).exec libc m with
        | error e => simp [hrun] at hexec
        | ok result =>
          obtain ⟨o, m₁⟩ := result
          rw [hrun] at hexec
          cases hexec
          exact .answered func hfunc hstarts o m' hrun

variable {ld : LunData} {cmds : CommandTable} {p : Nat}

/-- What an answer leaves in an execution. -/
theorem Answers.exec {func : Handler} {sent : Cdb} {payload : List UInt8} {f : File}
    (h : Answers func td ld sent data_size payload f) : ∃ f' d, ∀ {fuel : Nat} {cdb : Cdb} {m m' : Machine Choice Space}
      {o : Outcome}, Agree (needs (sent.get 0)) cdb sent → Backed ld m.state.world f →
      slice m.state.data 0 payload.length = payload → (func fuel td ld cdb data_size).exec libc m = .ok (o, m') →
      World.Local ld.lun_fh m.state.world m'.state.world ∧ Replied ld f' (written td ld sent data_size) d o m'.state := by
  obtain ⟨f', d, hanswers⟩ := h
  refine ⟨f', d, fun {fuel cdb m m' o} hagree hbacked hpayload hexec => ?_⟩
  obtain ⟨honly, hsettles⟩ := hanswers fuel cdb hagree
  refine ⟨Code.onStream honly hexec, ?_⟩
  rcases (hsettles m.state hbacked hpayload).exec (fun _ => trivial) with ⟨o', m'', hexec', -, hreplied⟩ | ⟨e, hexec', -⟩
  · obtain ⟨rfl, rfl⟩ := Prod.mk.inj (Except.ok.inj (hexec.symm.trans hexec'))
    exact hreplied
  · cases hexec.symm.trans hexec'

/-- All there is in memory will do for the data of a command. -/
theorem supplied_slice (data : Mem) : Supplied cmds ld cdb (slice data 0 (2 ^ 31)).length := by
  intro _ lba n _ hinside
  rw [slice_length]
  exact Nat.le_of_lt (access_len (Int.not_lt.mpr hinside))

/-- No handler but the one that starts a new image changes more than the LUN's
stream and its file. -/
theorem answered_keeps (hprofile : cmds = .mmc → Profiled ld) {func : Handler} (hfunc : cmds.func (cdb.get 0) = some func)
    (hstarts : ¬ StartsImage cmds ld cdb) {f : File} (hbacked : Backed ld m.state.world f) {o : Outcome}
    (hexec : (func fuel td ld cdb data_size).exec libc m = .ok (o, m')) :
    o.ld = ld ∧ World.Local ld.lun_fh m.state.world m'.state.world ∧ ∃ f', Backed ld m'.state.world f' := by
  have hanswered : Answers func td ld cdb data_size (slice m.state.data 0 (2 ^ 31)) f :=
    func_answers hfunc hprofile (supplied_slice _) hstarts
  obtain ⟨f', d, hanswers⟩ := Answers.exec hanswered
  obtain ⟨hlocal, hreplied⟩ := hanswers (fun _ _ => rfl) hbacked (by rw [slice_length]) hexec
  exact ⟨hreplied.lun, hlocal, f', hreplied.backed⟩

/-- Nor does it make a call on anything else. -/
theorem answered_on (hprofile : cmds = .mmc → Profiled ld) {func : Handler} (hfunc : cmds.func (cdb.get 0) = some func)
    (hstarts : ¬ StartsImage cmds ld cdb) : (func fuel td ld cdb data_size).Only (Call.On ld.lun_fh) := by
  have hanswered : Answers func td ld cdb data_size (slice (fun _ => 0) 0 (2 ^ 31)) .empty :=
    func_answers hfunc hprofile (supplied_slice _) hstarts
  obtain ⟨f', d, hanswers⟩ := hanswered
  exact (hanswers fuel cdb fun _ _ => rfl).1

/-- Every command keeps the LUNs apart. -/
theorem Owned.keeps (h : Owned td m.state.world) {status : UInt8}
    (hexec : (run_scsi_command fuel td lun cdb data_size).exec libc m = .ok ((status, td'), m')) :
    Owned td' m'.state.world := by
  obtain ⟨p, ld, cmds, hfind, hp, hcmds, hran⟩ := h.ran hexec
  have hld := List.mem_of_getElem? hp
  obtain ⟨f, hbacked⟩ := h.backed ld hld
  have hprofile : cmds = .mmc → Profiled ld := fun hmmc => (h.added ld hld).profiled (by rw [hcmds, hmmc])
  cases hran with
  | unknown hfunc => exact h
  | answered func hfunc hstarts o m' hrun =>
    obtain ⟨hsame, hlocal, f', hbacked'⟩ := answered_keeps hprofile hfunc hstarts hbacked hrun
    rw [hsame, putLun_self hfind]
    exact h.local hp hlocal hbacked'
  | started hstarts ld' m' hrun =>
    obtain ⟨fh, inode, hfh, s, hs⟩ := hbacked
    obtain ⟨rfl, hworld⟩ := insert_new_dvd_r_exec hfh hs hrun
    obtain ⟨j, hstarted⟩ := newImage_started m.state.world fh inode f ld.filename (archiveName m.choices) h.names
    rw [hworld]
    exact h.started hp hfh (World.Content.inode? ⟨s, hs⟩) hstarted hstarts.2.2

end Ran

end vscsi
