import Vscsi.Target.Client

open lib

namespace vscsi

open api scsi scsi_target

/-- The LUNs of two targets hold the same. -/
def SameImages (td : TargetData) (w : World) (td' : TargetData) (w' : World) : Prop :=
  ∀ (p : Nat) (ld ld' : LunData), td.luns[p]? = some ld → td'.luns[p]? = some ld' →
    ∀ f, Backed ld w f ↔ Backed ld' w' f

/-- Two file systems are the same but for what streams have yet to pass on. -/
structure SameFiles (td : TargetData) (w : World) (td' : TargetData) (w' : World) : Prop where
  names : SameNames w w'
  inodes : ∀ (p : Nat) (ld ld' : LunData) (fh fh' : Nat), td.luns[p]? = some ld → td'.luns[p]? = some ld' →
    ld.lun_fh = some fh → ld'.lun_fh = some fh' → w'.inode? fh' = w.inode? fh
  files : ∀ inode, (∀ ld ∈ td.luns, ∀ fh, ld.lun_fh = some fh → w.inode? fh ≠ some inode) →
    w'.fs.files inode = w.fs.files inode

/-- What two commands that are the same come to on targets whose LUNs hold the same. -/
structure SameOutcome (td : TargetData) (w w' : World) (ranges : Option (List (Nat × Nat))) (code : UInt8)
    (td₁ : TargetData) (x : Space) (code' : UInt8) (td₁' : TargetData) (x' : Space) : Prop where
  status : code' = code
  images : SameImages td₁ x.world td₁' x'.world
  data : code = 0 → ∀ rs, ranges = some rs → ∀ i, Covered rs i → x'.data i = x.data i
  files : SameFiles td w td w' → SameFiles td₁ x.world td₁' x'.world

section Same

variable {td : TargetData} {w w' w₁ w₁' : World} {ld : LunData} {f : File} {p : Nat}

/-- A change to the streams of one LUN that leaves the same contents. -/
theorem SameImages.local (h : SameImages td w td w') (hown : Owned td w) (hown' : Owned td w')
    (hp : td.luns[p]? = some ld) (hlocal : World.Local ld.lun_fh w w₁) (hlocal' : World.Local ld.lun_fh w' w₁')
    (hbacked : Backed ld w₁ f) (hbacked' : Backed ld w₁' f) : SameImages td w₁ td w₁' := by
  intro q ld₁ ld₁' hq hq' g
  obtain rfl := Option.some.inj (hq.symm.trans hq')
  by_cases hsame : q = p
  · subst hsame
    obtain rfl := Option.some.inj (hp.symm.trans hq)
    constructor
    · intro hg
      rw [hg.unique hbacked]
      exact hbacked'
    · intro hg
      rw [hg.unique hbacked']
      exact hbacked
  · obtain ⟨g₀, hold⟩ := hown.backed ld₁ (List.mem_of_getElem? hq)
    have hold' := (h q ld₁ ld₁ hq hq g₀).mp hold
    have hnew := hown.keeps_others hp hlocal hsame hq hold
    have hnew' := hown'.keeps_others hp hlocal' hsame hq hold'
    constructor
    · intro hg
      rw [hg.unique hnew]
      exact hnew'
    · intro hg
      rw [hg.unique hnew']
      exact hnew

theorem SameFiles.local (h : SameFiles td w td w') (hld : ld ∈ td.luns) (hlocal : World.Local ld.lun_fh w w₁)
    (hlocal' : World.Local ld.lun_fh w' w₁') : SameFiles td w₁ td w₁' := by
  constructor
  · exact ⟨by rw [hlocal'.directory, hlocal.directory, h.names.directory],
      by rw [hlocal'.fresh, hlocal.fresh, h.names.fresh]⟩
  · intro q ld₁ ld₁' fh fh' hq hq' hfh hfh'
    rw [hlocal'.inode?_eq, hlocal.inode?_eq]
    exact h.inodes q ld₁ ld₁' fh fh' hq hq' hfh hfh'
  · intro inode hnone
    obtain ⟨p, hp⟩ := List.mem_iff_getElem?.mp hld
    have hfree : ∀ ld ∈ td.luns, ∀ fh, ld.lun_fh = some fh → w.inode? fh ≠ some inode := by
      intro ld hld fh hfh
      rw [← hlocal.inode?_eq]
      exact hnone ld hld fh hfh
    have hold : w₁.fs.files inode = w.fs.files inode := by
      refine hlocal.files inode fun n s hn hs hinode => hfree ld hld n hn ?_
      rw [World.inode?, hs, Option.map_some, hinode]
    have hold' : w₁'.fs.files inode = w'.fs.files inode := by
      refine hlocal'.files inode fun n s hn hs hinode => hfree ld hld n hn ?_
      rw [← h.inodes p ld ld n n hp hp hn hn, World.inode?, hs, Option.map_some, hinode]
    rw [hold', hold]
    exact h.files inode hfree

section Started

variable {fh inode inode' j j' : Nat} {archive : FileName}

variable (hp : td.luns[p]? = some ld) (hfh : ld.lun_fh = some fh) (hown : Owned td w) (hown' : Owned td w')
  (hinode : w.inode? fh = some inode) (hinode' : w'.inode? fh = some inode')
  (hstarted : Started w fh inode f ld.filename archive w₁ j) (hstarted' : Started w' fh inode' f ld.filename archive w₁' j')

include hp hfh hown hown' hinode hinode' hstarted hstarted'

/-- Two new images are empty, and the other LUNs are left alone. -/
theorem SameImages.started (h : SameImages td w td w') (hprofile : ld.current_profile = 0x0011) :
    SameImages { td with luns := td.luns.set p { ld with lun_fh := some w.next } } w₁
      { td with luns := td.luns.set p { ld with lun_fh := some w'.next } } w₁' := by
  intro q ld₁ ld₁' hq hq' g
  rcases getElem?_restarted hp hq with ⟨rfl, rfl⟩ | ⟨hne, hold⟩
  · rcases getElem?_restarted hp hq' with ⟨-, rfl⟩ | ⟨hne, -⟩
    · have hnew := started_backed hstarted hprofile
      have hnew' := started_backed hstarted' hprofile
      constructor
      · intro hg
        rw [hg.unique hnew]
        exact hnew'
      · intro hg
        rw [hg.unique hnew']
        exact hnew
    · exact absurd rfl hne
  · rcases getElem?_restarted hp hq' with ⟨rfl, -⟩ | ⟨-, hold'⟩
    · exact absurd rfl hne
    · obtain rfl := Option.some.inj (hold.symm.trans hold')
      obtain ⟨g₀, hg₀⟩ := hown.backed ld₁ (List.mem_of_getElem? hold)
      have hnew := hown.started_others hp hfh hinode hstarted hne hold hg₀
      have hnew' := hown'.started_others hp hfh hinode' hstarted' hne hold ((h q ld₁ ld₁ hold hold g₀).mp hg₀)
      constructor
      · intro hg
        rw [hg.unique hnew]
        exact hnew'
      · intro hg
        rw [hg.unique hnew']
        exact hnew

theorem SameFiles.started (h : SameFiles td w td w') (hnames : SameNames w₁ w₁') :
    SameFiles { td with luns := td.luns.set p { ld with lun_fh := some w.next } } w₁
      { td with luns := td.luns.set p { ld with lun_fh := some w'.next } } w₁' := by
  obtain rfl : j' = j := by
    have hname := hstarted'.name
    rw [hnames.directory, hstarted.name] at hname
    exact (Option.some.inj hname).symm
  obtain rfl : inode' = inode := by
    have hsame := h.inodes p ld ld fh fh hp hp hfh hfh
    rw [hinode, hinode'] at hsame
    exact Option.some.inj hsame
  have hlt := hown.fh_lt hinode
  have hlt' := hown'.fh_lt hinode'
  have hother : ∀ {q : Nat} {ld₁ : LunData} {n : Nat}, q ≠ p → td.luns[q]? = some ld₁ → ld₁.lun_fh = some n →
      w₁.inode? n = w.inode? n ∧ w₁'.inode? n = w'.inode? n := by
    intro q ld₁ n hne hold hn
    obtain ⟨g, n', k, hn', hcontent⟩ := hown.backed ld₁ (List.mem_of_getElem? hold)
    obtain rfl : n' = n := Option.some.inj (hn'.symm.trans hn)
    obtain ⟨g', n'', k', hn'', hcontent'⟩ := hown'.backed ld₁ (List.mem_of_getElem? hold)
    obtain rfl : n'' = n' := Option.some.inj (hn''.symm.trans hn)
    have hfirst := hown.fh_lt hcontent.inode?
    have hsecond := hown'.fh_lt hcontent'.inode?
    have hne' : n'' ≠ fh := by
      intro heq
      exact (hown.others hne hp hold hn hcontent.inode?).1 (by rw [heq, hfh])
    rw [hstarted.inode?, hstarted'.inode?, if_neg (by omega), if_neg hne', if_neg (by omega), if_neg hne']
    exact ⟨rfl, rfl⟩
  constructor
  · exact hnames
  · intro q ld₁ ld₁' n n' hq hq' hn hn'
    rcases getElem?_restarted hp hq with ⟨rfl, rfl⟩ | ⟨hne, hold⟩
    · rcases getElem?_restarted hp hq' with ⟨-, rfl⟩ | ⟨hne, -⟩
      · obtain rfl := Option.some.inj hn
        obtain rfl := Option.some.inj hn'
        rw [hstarted.inode?, hstarted'.inode?, if_pos rfl, if_pos rfl]
      · exact absurd rfl hne
    · rcases getElem?_restarted hp hq' with ⟨rfl, -⟩ | ⟨-, hold'⟩
      · exact absurd rfl hne
      · obtain rfl := Option.some.inj (hold.symm.trans hold')
        obtain rfl := Option.some.inj (hn.symm.trans hn')
        rw [(hother hne hold hn).1, (hother hne hold hn).2]
        exact h.inodes q ld₁ ld₁ n n hold hold hn hn
  · intro i hnone
    have hlen : p < td.luns.length := (List.getElem?_eq_some_iff.mp hp).1
    have hj : i ≠ j' := by
      rintro rfl
      refine hnone _ (List.mem_of_getElem? (List.getElem?_set_self hlen)) w.next rfl ?_
      rw [hstarted.inode?, if_pos rfl]
    rw [hstarted.files, hstarted'.files, Function.update_of_ne hj, Function.update_of_ne hj]
    by_cases hi : i = inode'
    · subst hi
      rw [Function.update_self, Function.update_self]
    · rw [Function.update_of_ne hi, Function.update_of_ne hi]
      refine h.files i fun ld₁ hld₁ n hn hsame => ?_
      obtain ⟨q, hold⟩ := List.mem_iff_getElem?.mp hld₁
      by_cases hq : q = p
      · subst hq
        obtain rfl := Option.some.inj (hp.symm.trans hold)
        obtain rfl := Option.some.inj (hfh.symm.trans hn)
        exact hi (Option.some.inj (hsame.symm.trans hinode))
      · refine hnone ld₁ (List.mem_of_getElem? (l := td.luns.set p _) (i := q) ?_) n hn ?_
        · rw [List.getElem?_set_ne (Ne.symm hq)]
          exact hold
        · rw [(hother hq hold hn).1, hsame]

end Started

end Same

/-- A command for a LUN is sent as far as its handler takes part of it, brings the
data it takes and, if it succeeds, has all of its reply stored. -/
structure Sound (td : TargetData) (ld : LunData) (cmds : CommandTable) (sent : Cdb) (cdblen direction : UInt8)
    (request_bufflen : Int) : Prop where
  complete : needs (sent.get 0) ≤ cdblen.toNat
  supplied : Supplied cmds ld sent (if direction = 79 then request_bufflen.toNat else 0)
  stored : direction = 73 → ∀ rs, written td ld sent request_bufflen = some rs →
    ∀ i : Nat, i < request_bufflen.toNat → Covered rs i

/-- The same of a command for any LUN, if the LUN has a handler for it. -/
structure AllSound (td : TargetData) (lun : UInt8) (sent : Cdb) (cdblen direction : UInt8) (request_bufflen : Int) :
    Prop where
  opcode : 1 ≤ cdblen.toNat
  sound : ∀ ld cmds, td.luns.find? (·.lun = lun) = some ld → ld.cmds = some cmds → (cmds.func (sent.get 0)).isSome →
    Sound td ld cmds sent cdblen direction request_bufflen

section Runs

variable {td td₁ td₂ : TargetData} {lun s₁ s₂ : UInt8} {sent cdb₁ cdb₂ : Cdb} {fuel₁ fuel₂ : Nat} {data_size : Int}
  {m₁ m₂ m₁' m₂' : Machine Choice Space} {payload : List UInt8}

theorem same_outcome (hown₁ : Owned td m₁.state.world) (hown₂ : Owned td m₂.state.world)
    (himages : SameImages td m₁.state.world td m₂.state.world)
    (hclock : ∀ i, (m₂.choices i).answer = (m₁.choices i).answer) {n : Nat} (hopcode : 1 ≤ n)
    (hfaces₁ : Faces sent n payload cdb₁ m₁.state) (hfaces₂ : Faces sent n payload cdb₂ m₂.state)
    (hsent : ∀ ld cmds, td.luns.find? (·.lun = lun) = some ld → ld.cmds = some cmds → (cmds.func (sent.get 0)).isSome →
      needs (sent.get 0) ≤ n ∧ Supplied cmds ld sent payload.length)
    (hexec₁ : (run_scsi_command fuel₁ td lun cdb₁ data_size).exec libc m₁ = .ok ((s₁, td₁), m₁'))
    (hexec₂ : (run_scsi_command fuel₂ td lun cdb₂ data_size).exec libc m₂ = .ok ((s₂, td₂), m₂')) :
    ∃ ld cmds, td.luns.find? (·.lun = lun) = some ld ∧ ld.cmds = some cmds ∧
      (s₁ = 0 → (cmds.func (sent.get 0)).isSome ∧ (written td ld sent data_size).isSome) ∧
      SameOutcome td m₁.state.world m₂.state.world (written td ld sent data_size) s₁ td₁ m₁'.state s₂ td₂ m₂'.state := by
  obtain ⟨p, ld, cmds, hfind, hp, hcmds, hran₁⟩ := hown₁.ran hexec₁
  obtain ⟨p', ld', cmds', hfind', hp', hcmds', hran₂⟩ := hown₂.ran hexec₂
  obtain rfl := Option.some.inj (hfind.symm.trans hfind')
  obtain rfl := Option.some.inj (hcmds.symm.trans hcmds')
  have hld := List.mem_of_getElem? hp
  have hprofile : cmds = .mmc → Profiled ld := fun hmmc => (hown₁.added ld hld).profiled (by rw [hcmds, hmmc])
  have hop₁ : cdb₁.get 0 = sent.get 0 := hfaces₁.agree 0 hopcode
  have hop₂ : cdb₂.get 0 = sent.get 0 := hfaces₂.agree 0 hopcode
  obtain ⟨f, hbacked₁⟩ := hown₁.backed ld hld
  have hbacked₂ := (himages p ld ld hp hp f).mp hbacked₁
  obtain rfl : p = p' := by
    by_contra hne
    obtain ⟨fh, inode, hfh, hcontent⟩ := hbacked₁
    have huses := Uses.stream hfh hcontent.inode?
    exact hown₁.apart p p' ld ld hne hp hp' inode huses huses
  have hfunc : ∀ {func : Handler}, cmds.func (cdb₁.get 0) = some func → cmds.func (sent.get 0) = some func := fun h => by rwa [← hop₁]
  refine ⟨ld, cmds, hfind, hcmds, ?_⟩
  cases hran₁ with
  | unknown hfunc₁ =>
    cases hran₂ with
    | unknown hfunc₂ => exact ⟨fun hzero => absurd hzero (by decide), rfl, himages, fun hzero => absurd hzero (by decide), fun h => h⟩
    | answered func hfunc₂ => cases hfunc₁.symm.trans ((by rw [hop₁, hop₂] : cmds.func (cdb₁.get 0) = _).trans hfunc₂)
    | started hstarts =>
      obtain ⟨rfl, hop, -⟩ := hstarts
      rw [hop₁, ← hop₂, hop] at hfunc₁
      cases hfunc₁
  | answered func hfunc₁ hstarts o₁ m₁' hrun₁ =>
    have hsome : (cmds.func (sent.get 0)).isSome := by rw [hfunc hfunc₁]; rfl
    obtain ⟨hneeds, hsupplied⟩ := hsent ld cmds hfind hcmds hsome
    have hstarts' : ¬ StartsImage cmds ld sent := fun ⟨hmmc, hop, h11⟩ => hstarts ⟨hmmc, hop₁.trans hop, h11⟩
    cases hran₂ with
    | unknown hfunc₂ => cases hfunc₂.symm.trans ((by rw [hop₁, hop₂] : cmds.func (cdb₂.get 0) = _).trans hfunc₁)
    | started hstarts₂ =>
      obtain ⟨hmmc, hop, h11⟩ := hstarts₂
      exact absurd ⟨hmmc, hop₂.symm.trans hop, h11⟩ hstarts'
    | answered func₂ hfunc₂ _ o₂ m₂' hrun₂ =>
      obtain rfl : func₂ = func := by
        rw [hop₂, hfunc hfunc₁] at hfunc₂
        exact (Option.some.inj hfunc₂).symm
      have hanswered : Answers func₂ td ld sent data_size payload f :=
        func_answers (hfunc hfunc₁) hprofile hsupplied hstarts'
      obtain ⟨f', d, hanswers⟩ := Answers.exec hanswered
      obtain ⟨hlocal₁, hreplied₁⟩ := hanswers (fun i hi => hfaces₁.agree i (by omega)) hbacked₁ hfaces₁.data hrun₁
      obtain ⟨hlocal₂, hreplied₂⟩ := hanswers (fun i hi => hfaces₂.agree i (by omega)) hbacked₂ hfaces₂.data hrun₂
      refine ⟨fun hzero => ⟨hsome, ?_⟩, ?_⟩
      · by_contra hnone
        rw [hreplied₁.status, if_neg hnone] at hzero
        cases hzero
      rw [hreplied₁.lun, hreplied₂.lun, putLun_self hfind]
      constructor
      · rw [hreplied₁.status, hreplied₂.status]
      · exact himages.local hown₁ hown₂ hp hlocal₁ hlocal₂ hreplied₁.backed hreplied₂.backed
      · exact fun _ rs hrs i hi => (hreplied₂.data rs hrs i hi).trans (hreplied₁.data rs hrs i hi).symm
      · exact fun h => h.local hld hlocal₁ hlocal₂
  | started hstarts ld₁ m₁' hrun₁ =>
    obtain ⟨rfl, hop, h11⟩ := hstarts
    have hsent0 : sent.get 0 = 0x1b := hop₁.symm.trans hop
    cases hran₂ with
    | unknown hfunc₂ =>
      rw [hop₂, hsent0] at hfunc₂
      cases hfunc₂
    | answered func hfunc₂ hstarts₂ => exact absurd ⟨rfl, hop₂.trans hsent0, h11⟩ hstarts₂
    | started _ ld₂ m₂' hrun₂ =>
      obtain ⟨fh, inode, hfh, z₁, hz₁⟩ := hbacked₁
      obtain ⟨fh', inode', hfh', z₂, hz₂⟩ := hbacked₂
      obtain rfl := Option.some.inj (hfh.symm.trans hfh')
      obtain ⟨rfl, hworld₁⟩ := insert_new_dvd_r_exec hfh hz₁ hrun₁
      obtain ⟨rfl, hworld₂⟩ := insert_new_dvd_r_exec hfh hz₂ hrun₂
      have harchive : archiveName m₂.choices = archiveName m₁.choices := by simp only [archiveName, hclock]
      rw [harchive] at hworld₂
      obtain ⟨j₁, hstarted₁⟩ := newImage_started m₁.state.world fh inode f ld.filename (archiveName m₁.choices) hown₁.names
      obtain ⟨j₂, hstarted₂⟩ := newImage_started m₂.state.world fh inode' f ld.filename (archiveName m₁.choices) hown₂.names
      have hinode₁ := World.Content.inode? ⟨z₁, hz₁⟩
      have hinode₂ := World.Content.inode? ⟨z₂, hz₂⟩
      rw [← hworld₁] at hstarted₁
      rw [← hworld₂] at hstarted₂
      refine ⟨fun _ => ⟨by rw [hsent0]; rfl, by simp [written, hsent0]⟩, rfl, ?_, ?_, fun hfiles => ?_⟩
      · exact himages.started hp hfh hown₁ hown₂ hinode₁ hinode₂ hstarted₁ hstarted₂ h11
      · intro _ rs hrs i hi
        obtain rfl : rs = [] := by simpa [written, hsent0] using hrs.symm
        exact absurd hi (not_covered_nil i)
      · refine hfiles.started hp hfh hown₁ hown₂ hinode₁ hinode₂ hstarted₁ hstarted₂ ?_
        rw [hworld₁, hworld₂]
        exact hfiles.names.newImage fh fh inode inode' f ld.filename (archiveName m₁.choices)

end Runs

theorem Exchange.Same.fields {e e' : Exchange} (h : e.Same e') : e'.direction = e.direction ∧ e'.lun = e.lun ∧ e'.cdblen = e.cdblen ∧
    e'.cdb = e.cdb ∧ e'.request_bufflen = e.request_bufflen := by
  have hslice : ∀ start count, 6 ≤ start → start + count ≤ 31 → slice e'.task_buffer start count = slice e.task_buffer start count :=
    fun start count hlo hhi => slice_congr fun i hi hi' => h.header i (.inr (by omega))
  refine ⟨h.header 1 (.inl rfl), ?_, h.header 10 (.inr (by omega)), ?_, ?_⟩
  · rw [Exchange.lun, Exchange.lun, hslice 6 4 (by omega) (by omega)]
  · have hbytes : ∀ i : Fin 16, e'.task_buffer (11 + i.val) = e.task_buffer (11 + i.val) :=
      fun i => h.header _ (.inr (by omega))
    simp only [Exchange.cdb, hbytes]
  · rw [Exchange.request_bufflen, Exchange.request_bufflen, hslice 27 4 (by omega) (by omega)]

/-- A round has the same outcome for two targets whose LUNs hold the same: the
status and, with status 0, all bytes of an inbound command, and what the LUNs
hold afterwards; and if the file systems were the same, they still are. -/
structure SameAnswer (c d c' d' : Client) : Prop where
  status : d.task.direction = 73 ∨ d.task.direction = 79 → d'.task.status = d.task.status
  delivered : d.task.direction = 73 → d.task.status = 0 → d'.task.reply = d.task.reply
  images : SameImages d.td d.world d'.td d'.world
  files : SameFiles c.td c.world c'.td c'.world → SameFiles d.td d.world d'.td d'.world

/-- Whatever commands they have run before, two targets that have come to have the
same LUNs give the same answer to the same command. -/
def HistoryIndependent : Prop :=
  ∀ (start start' : Client) (trace trace' : List (Client × Exchange)) (c c' d d' : Client) (e e' : Exchange),
    Owned start.td start.world → Owned start'.td start'.world →
    Run Client.Step start trace c → Run Client.Step start' trace' c' →
    c'.td = c.td → SameImages c.td c.world c'.td c'.world → e.Same e' →
    c.Step e d → c'.Step e' d' → SameAnswer c d c' d'

/-- A command with nothing missing: it is dropped or sound. -/
def Whole (td : TargetData) (e : Exchange) : Prop :=
  e.direction = 73 ∨ e.direction = 79 → AllSound td e.lun e.cdb e.cdblen e.direction e.request_bufflen

/-- Two runs that come to the same LUNs give the same answer to a whole command. -/
theorem history_independent {start start' : Client} {trace trace' : List (Client × Exchange)} {c c' d d' : Client}
    {e e' : Exchange} (hstart : Owned start.td start.world) (hstart' : Owned start'.td start'.world)
    (hrun : Run Client.Step start trace c) (hrun' : Run Client.Step start' trace' c') (htd : c'.td = c.td)
    (himages : SameImages c.td c.world c'.td c'.world) (hsame : e.Same e') (hwhole : Whole c.td e)
    (hstep : c.Step e d) (hstep' : c'.Step e' d') : SameAnswer c d c' d' := by
  have hown := owned_run hstart hrun
  have hown' := owned_run hstart' hrun'
  rw [htd] at hown' himages
  obtain ⟨hdirection, hlun, hcdblen, hcdb, hsize⟩ := hsame.fields
  rcases hstep.cases with ⟨hin, hout, hd, hw, hdir⟩ | ⟨hio, cdb, m, m', s, hcompleted⟩
  · rcases hstep'.cases with ⟨-, -, hd', hw', -⟩ | ⟨hio', -⟩
    · constructor
      · rintro (h | h)
        · exact absurd (hdir ▸ h) hin
        · exact absurd (hdir ▸ h) hout
      · exact fun h => absurd (hdir ▸ h) hin
      · rw [hd, hw, hd', hw', htd]
        exact himages
      · rw [hd, hw, hd', hw', htd]
        exact fun h => h
    · rw [hdirection] at hio'
      exact absurd hio' (not_or.mpr ⟨hin, hout⟩)
  · rcases hstep'.cases with ⟨hin, hout, -⟩ | ⟨-, cdb', m₁, m₁', s', hcompleted'⟩
    · rw [← hdirection] at hio
      exact absurd hio (not_or.mpr ⟨hin, hout⟩)
    · have hsound := hwhole hio
      have hexec' := hcompleted'.exec
      have hfaces' := hcompleted'.faces
      rw [htd, hlun, hsize] at hexec'
      rw [hcdb, hcdblen, hsame.payload] at hfaces'
      rw [← hcompleted.before] at hown himages
      rw [← hcompleted'.before] at hown' himages
      have hclock : ∀ i, (m₁.choices i).answer = (m.choices i).answer := by
        rw [hcompleted.choices, hcompleted'.choices]
        exact hsame.clock
      obtain ⟨ld, cmds, hfind, hcmds, hfunc, houtcome⟩ := same_outcome hown hown' himages hclock hsound.opcode
        hcompleted.faces hfaces' (fun ld cmds hfind hcmds hsome =>
          ⟨(hsound.sound ld cmds hfind hcmds hsome).complete, hcompleted.payload ▸ (hsound.sound ld cmds hfind hcmds hsome).supplied⟩)
        hcompleted.exec hexec'
      constructor
      · intro _
        rw [hcompleted.status, hcompleted'.status, houtcome.status]
      · intro hin hzero
        rw [hcompleted.direction] at hin
        have hs : s = 0 := by
          rw [hcompleted.status] at hzero
          exact UInt8.toNat_inj.mp (by simpa using hzero)
        obtain ⟨hsome, hwritten⟩ := hfunc hs
        obtain ⟨rs, hrs⟩ := Option.isSome_iff_exists.mp hwritten
        rw [hcompleted.reply hin, hcompleted'.reply (hdirection.trans hin), hsize]
        refine slice_congr fun i _ hi => ?_
        exact houtcome.data hs rs hrs i ((hsound.sound ld cmds hfind hcmds hsome).stored hin rs hrs i (by omega))
      · have hsame := houtcome.images
        rwa [hcompleted.after, hcompleted'.after] at hsame
      · have hfiles := houtcome.files
        rw [hcompleted.before, hcompleted'.before, hcompleted.after, hcompleted'.after] at hfiles
        rw [htd]
        exact hfiles

theorem run_stores {cdb : Cdb} {func : Handler} (hfunc : scsi_sbc_commands (cdb.get 0) = some func) {n : Int}
    {stores : List (Nat × List UInt8)}
    (h : Handles (func 0 (diskTarget 1) (newLun 0 "disk".toList .hd 1 0 (some 0)) cdb n) stores
      (newLun 0 "disk".toList .hd 1 0 (some 0)) 0) :
    Stores (run_scsi_command 0 (diskTarget 1) 0 cdb n) (stores ++ []) (0, diskTarget 1) := by
  have hserves : Serves (diskTarget 1) 0 (newLun 0 "disk".toList .hd 1 0 (some 0)) := (disk_made 1).serves
  have hcmds : (newLun 0 "disk".toList .hd 1 0 (some 0)).cmds = some .sbc := rfl
  obtain ⟨data_size, hstores⟩ := h
  rw [run_scsi_command_eq hserves.type (findLun_eq hserves.find) hcmds hfunc]
  refine hstores.bind ?_
  simp only [putLun_self hserves.find]
  exact .pure _

/-- REQUEST SENSE stores 26 bytes. -/
theorem request_sense_stores {cdb : Cdb} (h0 : cdb.get 0 = 0x03) (h1 : cdb.get 1 = 0x00) (n : Int) :
    Stores (run_scsi_command 0 (diskTarget 1) 0 cdb n) [(0, sense_is_ok)] (0, diskTarget 1) := by
  have hfunc : scsi_sbc_commands (cdb.get 0) = some spc_request_sense := by rw [h0]; rfl
  have hdesc : ¬ (0x00 &&& 0x01 : UInt8) ≠ 0 := by decide
  have hhandles : Handles (spc_request_sense 0 (diskTarget 1) (newLun 0 "disk".toList .hd 1 0 (some 0)) cdb n)
      ([(0, sense_is_ok)] ++ []) (newLun 0 "disk".toList .hd 1 0 (some 0)) 0 := by
    simp only [spc_request_sense, h1, if_neg hdesc]
    exact .bind (.store _ _) (.pure _ _ _)
  exact run_stores hfunc hhandles

/-- MODE SENSE(6) for all pages has a byte that is not zero at place 34. -/
theorem mode_sense_stores {cdb : Cdb} (h0 : cdb.get 0 = 0x1a) (h1 : cdb.get 1 = 0x00) (h2 : cdb.get 2 = 0x3f) (n : Int) :
    Stores (run_scsi_command 0 (diskTarget 1) 0 cdb n) [(4, modePages), (0, [105, 0x00, 0x00, 8])] (0, diskTarget 1) := by
  have hfunc : scsi_sbc_commands (cdb.get 0) = some spc_mode_sense6 := by rw [h0]; rfl
  have hall : (0x00 : UInt8) >>> 3 &&& 0x01 = 0 ∧ (0x3f : UInt8) >>> 6 &&& 0x03 = 0 ∧ (0x3f : UInt8) &&& 0x3f = 0x3f := by
    decide
  have hhandles : Handles (spc_mode_sense6 0 (diskTarget 1) (newLun 0 "disk".toList .hd 1 0 (some 0)) cdb n)
      ([(4, modePages)] ++ ([(0, [105, 0x00, 0x00, 8])] ++ [])) (newLun 0 "disk".toList .hd 1 0 (some 0)) 0 := by
    simp only [spc_mode_sense6, h1, h2, if_pos hall]
    exact .bind (.store _ _) (.bind (.store _ _) (.pure _ _ _))
  exact run_stores hfunc hhandles

/-- REQUEST SENSE with a buffer of 18 bytes, which it fills. -/
def requestSense : Exchange := inbound [0x03, 0x00, 0x00, 0x00, 0x12, 0x00] 18

/-- REQUEST SENSE with a buffer of 36 bytes, which it does not fill. -/
def longRequestSense : Exchange := inbound [0x03, 0x00, 0x00, 0x00, 0x24, 0x00] 36

def modeSense : Exchange := inbound [0x1a, 0x00, 0x3f, 0x00, 0x6a, 0x00] 106

theorem requestSense_step (e : Exchange) (h : e = requestSense ∨ e = longRequestSense) (c : Client)
    (hc : c.td = diskTarget 1) : ∃ d, c.Step e d ∧ d.task.direction = 73 ∧ d.task.status = 0 ∧
      d.task.reply = slice (blit (fromPointer c.task.request_buffer 6) 0 sense_is_ok) 0 e.request_bufflen.toNat := by
  have hstores : ∀ cdb : Cdb, (∀ i : Fin 16, i.val < e.cdblen.toNat → cdb.get i = e.cdb.get i) →
      Stores (run_scsi_command e.fuel c.td e.lun cdb e.request_bufflen) [(0, sense_is_ok)] (0, c.td) := by
    intro cdb hagree
    rw [hc]
    rcases h with rfl | rfl <;> exact request_sense_stores (hagree 0 (by decide)) (hagree 1 (by decide)) _
  have hin : e.direction = 73 ∧ e.cdblen.toNat ≤ 16 ∧ e.payload = [] := by
    rcases h with rfl | rfl <;> exact ⟨rfl, by decide, rfl⟩
  obtain ⟨d, hstep, -, -, hdirection, hstatus, hreply, -⟩ := inbound_step c e hin.1 hin.2.1 hin.2.2 hstores
  exact ⟨d, hstep, hdirection, hstatus, hreply⟩

theorem Exchange.Same.refl (e : Exchange) : e.Same e := ⟨fun _ _ => rfl, rfl, fun _ => rfl⟩

theorem SameImages.refl (td : TargetData) (w : World) : SameImages td w td w := by
  intro p ld ld' h h' f
  rw [Option.some.inj (h.symm.trans h')]

theorem requestSense_whole : Whole diskClient.td requestSense := by
  refine fun _ => ⟨by decide, ?_⟩
  intro ld cmds hfind hcmds _
  obtain rfl : newLun 0 "disk".toList .hd 1 0 (some 0) = ld := Option.some.inj hfind
  obtain rfl : CommandTable.sbc = cmds := Option.some.inj hcmds
  constructor
  · decide
  · intro _ lba n hblocks
    cases hblocks
  · intro _ rs hrs i hi
    obtain rfl : [(0, 26)] = rs := Option.some.inj hrs
    have hsize : requestSense.request_bufflen.toNat = 18 := by decide
    rw [hsize] at hi
    exact (covered_cons _ _ _).mpr (.inl ⟨Nat.zero_le _, by omega⟩)

/-- REQUEST SENSE with a buffer that it fills, on a new target and on one whose request
buffer has the mode pages of a MODE SENSE(6) in it. -/
theorem history_independent_request_sense : ∃ c d d', diskClient.Step modeSense c ∧ c.task.request_buffer 40 = 0x08 ∧
    diskClient.Step requestSense d ∧ c.Step requestSense d' ∧ d.task.status = 0 ∧ d'.task.status = 0 ∧
    d'.task.reply = d.task.reply ∧ SameImages d.td d.world d'.td d'.world := by
  obtain ⟨c, hfirst, htd, hworld, -, -, -, hbuffer⟩ := inbound_step diskClient modeSense rfl (by decide) rfl
    fun cdb hagree => mode_sense_stores (hagree 0 (by decide)) (hagree 1 (by decide)) (hagree 2 (by decide)) _
  obtain ⟨d, hstep, hdirection, hstatus, -⟩ := requestSense_step requestSense (.inl rfl) diskClient rfl
  obtain ⟨d', hstep', -⟩ := requestSense_step requestSense (.inl rfl) c htd
  have himages : SameImages diskClient.td diskClient.world c.td c.world := by
    rw [htd, hworld]
    exact .refl _ _
  have hsame := history_independent diskClient_owned diskClient_owned .nil (Run.nil.snoc hfirst) htd
    himages (.refl _) requestSense_whole hstep hstep'
  exact ⟨c, d, d', hfirst, hbuffer 34, hstep, hstep', hstatus, (hsame.status (.inl hdirection)).trans hstatus,
    hsame.delivered hdirection hstatus, hsame.images⟩

/-- After MODE SENSE(6) the reply to a REQUEST SENSE with a buffer of 36 bytes has
a byte of its mode pages, where it has a zero on a new target. -/
theorem leftovers_delivered : ¬ HistoryIndependent := by
  intro hindependent
  obtain ⟨c, hfirst, htd, hworld, -, -, -, hbuffer⟩ := inbound_step diskClient modeSense rfl (by decide) rfl
    fun cdb hagree => mode_sense_stores (hagree 0 (by decide)) (hagree 1 (by decide)) (hagree 2 (by decide)) _
  obtain ⟨d, hstep, hdirection, hstatus, hreply⟩ := requestSense_step longRequestSense (.inr rfl) diskClient rfl
  obtain ⟨d', hstep', -, -, hreply'⟩ := requestSense_step longRequestSense (.inr rfl) c htd
  have hsame := hindependent diskClient diskClient [] [(diskClient, modeSense)] diskClient c d d' longRequestSense
    longRequestSense diskClient_owned diskClient_owned .nil (Run.nil.snoc hfirst) htd
    (by rw [htd, hworld]; exact .refl _ _) (.refl _) hstep hstep'
  have hbytes := congrArg (·[34]?) (hsame.delivered hdirection hstatus)
  have hlt : 34 < longRequestSense.request_bufflen.toNat := by decide
  rw [hreply, hreply'] at hbytes
  simp only [slice_getElem? _ _ hlt, Nat.zero_add, Option.some.injEq] at hbytes
  rw [blit_of_ge _ (by decide), blit_of_ge _ (by decide)] at hbytes
  have hleft : c.task.request_buffer (6 + 34) = 0x08 := hbuffer 34
  rw [fromPointer, fromPointer, hleft] at hbytes
  exact absurd hbytes (by decide)

end vscsi
