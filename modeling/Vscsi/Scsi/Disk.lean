import Vscsi.Scsi.WriteForms
import Vscsi.Lib.Journal
import Vscsi.Lib.Run

open lib lib.Code

namespace vscsi.scsi_target

open scsi

/-- A command on blocks, with a buffer of the length it asks for. -/
structure Command where
  kind : MediaCommand
  lun : UInt8
  cdb : Cdb
  opcode : cdb.get 0 = kind.opcode
  data : Mem

/-- What the initiator gets back. -/
structure Answer where
  status : UInt8
  data : Mem

namespace Command

/-- The first byte. -/
def start (c : Command) : Nat := MediaCommand.lba c.cdb * 512

/-- The number of bytes. -/
def size (c : Command) : Nat := c.kind.length c.cdb * 512

/-- What an answered command has stored on a LUN. -/
def store? (c : Command) (a : Answer) (ld : LunData) : Option Store :=
  if c.lun = ld.lun ∧ c.kind ≠ .read10 ∧ a.status = 0 then some { start := c.start, bytes := slice c.data 0 c.size }
  else none

end Command

/-- A target process with the machine it runs on. -/
abbrev Server := TargetData × Machine Choice Space

/-- The process runs a command and answers it. -/
def Serve (fuel : Nat) (s : Server) (e : Command × Answer) (s' : Server) : Prop :=
  (run_scsi_command fuel s.1 e.1.lun e.1.cdb e.1.size).exec libc
      { s.2 with state := { s.2.state with data := e.1.data } } = .ok ((e.2.status, s'.1), s'.2) ∧
    e.2.data = s'.2.state.data

/-- The stores that the commands of a run have made on a LUN. -/
def stores (ld : LunData) (trace : List (Server × (Command × Answer))) : List Store :=
  trace.filterMap fun e => e.2.1.store? e.2.2 ld

/-- A target whose LUNs have numbers and files of their own. -/
structure Disks (td : TargetData) (w : World) : Prop where
  type : td.type = TARGET_TYPE_EMULATION
  numbers : ∀ ld ∈ td.luns, ∀ ld' ∈ td.luns, ld.lun = ld'.lun → ld = ld'
  streams : ∀ ld ∈ td.luns, ∀ ld' ∈ td.luns, ld ≠ ld' → ld.lun_fh ≠ ld'.lun_fh
  files : ∀ ld ∈ td.luns, ∀ ld' ∈ td.luns, ld ≠ ld' → ∀ fh fh' inode, ld.lun_fh = some fh → ld'.lun_fh = some fh' →
    w.inode? fh = some inode → w.inode? fh' ≠ some inode
  mounted : ∀ ld ∈ td.luns, ld.cmds = some .sbc → ∃ fh inode f, Mounted ld w fh inode f

variable {td : TargetData} {ld : LunData} {fuel : Nat} {m m' : Machine Choice Space} {w : World}

theorem Disks.serves (h : Disks td w) (hld : ld ∈ td.luns) : Serves td ld.lun ld := by
  refine ⟨h.type, ?_⟩
  cases hfind : td.luns.find? (·.lun = ld.lun) with
  | none =>
    have hnone := List.find?_eq_none.mp hfind ld hld
    simp at hnone
  | some ld' =>
    have hnumber : ld'.lun = ld.lun := by simpa using List.find?_some hfind
    rw [h.numbers ld' (List.mem_of_find?_eq_some hfind) ld hld hnumber]

/-- A transfer works on one stream. -/
theorem transfer_only {move : Nat → Nat → Code Nat} {fh : Option Nat} (hmove : ∀ i count, (move i count).Only (Call.On fh))
    (lba len : Int) (fuel : Nat) (count : Int) : (transfer move fh lba len fuel count).Only (Call.On fh) := by
  induction fuel generalizing count with
  | zero =>
    unfold transfer
    split <;> trivial
  | succ fuel ih =>
    unfold transfer
    split
    · exact Prog.Only.bind ⟨rfl, fun _ => trivial⟩ fun _ => Prog.Only.bind (hmove _ _) fun _ => ih _
    · trivial

/-- An access keeps the LUN and everything but its stream and its file, and does
nothing when its status is not zero. -/
theorem access_exec {move : Nat → Nat → Code Nat} (hmove : ∀ i count, (move i count).Only (Call.On ld.lun_fh))
    {data_size lba n : Int} {o : Outcome} (h : (access move fuel ld data_size lba n).exec libc m = .ok (o, m')) :
    o.ld = ld ∧ World.Elsewhere ld.lun_fh m.state.world m'.state.world ∧ (o.status ≠ 0 → m' = m) := by
  unfold access at h
  simp only at h
  split at h
  · cases h
    exact ⟨rfl, .refl _ _, fun _ => rfl⟩
  · rw [Prog.exec_bind] at h
    cases htransfer : (transfer move ld.lun_fh (lba * ld.block_size.toNat) (n * ld.block_size.toNat) fuel 0).exec libc m with
    | error e => simp [htransfer] at h
    | ok result =>
      rw [htransfer] at h
      cases h
      exact ⟨rfl, Code.elsewhere (transfer_only hmove _ _ _ _) htransfer, fun hstatus => absurd rfl hstatus⟩

theorem move_only (c : MediaCommand) (fh : Option Nat) (i count : Nat) : (c.move fh i count).Only (Call.On fh) := by
  cases c <;> exact ⟨rfl, fun _ => trivial⟩

/-- The tables have a command on blocks run its handler, if they have it. -/
theorem func_media (cmds : CommandTable) (c : MediaCommand) :
    cmds.func c.opcode = some c.handler ∨ cmds.func c.opcode = none := by
  cases cmds with
  | sbc => exact .inl c.func_sbc
  | mmc =>
    cases c with
    | read10 => exact .inl rfl
    | write10 => exact .inl rfl
    | write12 => exact .inr rfl

/-- What a command on blocks can do on a LUN of any kind. -/
theorem run_media_frame {c : MediaCommand} {lun : UInt8} {cdb : Cdb} (htype : td.type = TARGET_TYPE_EMULATION)
    (hopcode : cdb.get 0 = c.opcode) {data_size : Int} {status : UInt8} {td' : TargetData}
    (h : (run_scsi_command fuel td lun cdb data_size).exec libc m = .ok ((status, td'), m')) :
    ∃ ld, td.luns.find? (·.lun = lun) = some ld ∧ td' = td ∧
      World.Elsewhere ld.lun_fh m.state.world m'.state.world ∧ (status ≠ 0 → m' = m) := by
  unfold run_scsi_command at h
  simp only [htype, if_true] at h
  cases hfind : td.luns.find? (·.lun = lun) with
  | none =>
    have hfound : findLun td lun = some DUMMY_LUN_0 ∨ findLun td lun = none := by
      rw [findLun, hfind, Option.none_or]
      split
      · exact .inl rfl
      · exact .inr rfl
    rcases hfound with hfound | hfound <;> simp [hfound, DUMMY_LUN_0, Prog.exec] at h
  | some ld =>
    refine ⟨ld, rfl, ?_⟩
    rw [findLun_eq hfind] at h
    cases hcmds : ld.cmds with
    | none => simp [hcmds, Prog.exec] at h
    | some cmds =>
      rcases func_media cmds c with hfunc | hfunc
      · simp only [hcmds, hopcode, hfunc, Prog.exec_bind, c.handler_eq] at h
        cases haccess : (access (c.move ld.lun_fh) fuel ld data_size (MediaCommand.lba cdb) (c.length cdb)).exec libc m with
        | error e => simp [haccess] at h
        | ok result =>
          obtain ⟨o, m₁⟩ := result
          obtain ⟨hld, helsewhere, hnothing⟩ := access_exec (move_only c ld.lun_fh) haccess
          rw [haccess] at h
          cases h
          exact ⟨by rw [hld, putLun_self hfind], helsewhere, hnothing⟩
      · simp only [hcmds, hopcode, hfunc] at h
        cases h
        exact ⟨rfl, .refl _ _, fun _ => rfl⟩

/-- A step of the process that a command on another LUN takes leaves a disk alone. -/
theorem Disks.other (h : Disks td w) {ld ld' : LunData} (hld : ld ∈ td.luns) (hld' : ld' ∈ td.luns) (hne : ld ≠ ld')
    {w' : World} (helsewhere : World.Elsewhere ld'.lun_fh w w') {fh inode : Nat} {f : File}
    (hmounted : Mounted ld w fh inode f) : Mounted ld w' fh inode f := by
  refine { hmounted with volume := helsewhere.volume ?_ ?_ hmounted.volume }
  · rw [← hmounted.lun_fh]
    exact h.streams ld hld ld' hld' hne
  · intro n hn
    obtain ⟨s, hs⟩ := hmounted.volume
    refine h.files ld hld ld' hld' hne fh n inode hmounted.lun_fh hn ?_
    rw [World.inode?, hs.opened, Option.map_some, hs.on]

/-- What a command does to the contents of a disk. -/
def Command.effect (c : Command) (a : Answer) (ld : LunData) (f : File) : File :=
  match c.store? a ld with
  | some s => f.pwrite s.start s.bytes
  | none => f

theorem Command.effect_none {c : Command} {a : Answer} (h : c.lun ≠ ld.lun ∨ c.kind = .read10 ∨ a.status ≠ 0)
    (f : File) : c.effect a ld f = f := by
  have hnot : ¬ (c.lun = ld.lun ∧ c.kind ≠ .read10 ∧ a.status = 0) := by
    rintro ⟨hlun, hkind, hstatus⟩
    rcases h with h | h | h
    · exact h hlun
    · exact hkind h
    · exact h hstatus
  rw [effect, store?, if_neg hnot]

theorem Command.effect_write {c : Command} {a : Answer} (hlun : c.lun = ld.lun) (hkind : c.kind ≠ .read10)
    (hstatus : a.status = 0) (f : File) : c.effect a ld f = f.pwrite c.start (slice c.data 0 c.size) := by
  rw [effect, store?, if_pos ⟨hlun, hkind, hstatus⟩]

/-- What a step does to the disk it is for, and what a read returns from it. -/
structure Performed (c : Command) (a : Answer) (ld : LunData) (fh inode : Nat) (f : File) (w' : World) : Prop where
  volume : w'.Volume fh inode (c.effect a ld f)
  status : a.status = 0 ↔ ((c.start + c.size : Nat) : Int) ≤ bound ld
  inside : a.status = 0 → c.start + c.size ≤ f.size
  read : a.status = 0 → c.kind = .read10 → slice a.data 0 c.size = slice f.bytes c.start c.size

theorem serve_performs {c : Command} {a : Answer} {s' : Server} (hserves : Serves td ld.lun ld)
    (hfair : m.Fair Choice.Progress) (hstep : Serve fuel (td, m) (c, a) s') (hlun : c.lun = ld.lun)
    {fh inode : Nat} {f : File} (hmounted : Mounted ld m.state.world fh inode f) :
    Performed c a ld fh inode f s'.2.state.world := by
  obtain ⟨hexec, hdata⟩ := hstep
  rw [← hlun] at hserves
  have hsize := bound_le_size hmounted
  have hlength : c.start + c.size = (MediaCommand.lba c.cdb + c.kind.length c.cdb) * 512 := (Nat.add_mul _ _ _).symm
  have hfair' : Machine.Fair Choice.Progress { m with state := { m.state with data := c.data } } := hfair
  by_cases hbeyond : bound ld < ((MediaCommand.lba c.cdb + c.kind.length c.cdb) * 512 : Nat)
  · have hrejected := run_media_rejected (x := { m.state with data := c.data }) hserves hmounted c.opcode fuel c.size hbeyond
    rw [hrejected, Prog.exec_ret, Except.ok.injEq, Prod.mk.injEq, Prod.mk.injEq] at hexec
    obtain ⟨⟨hstatus, -⟩, hm⟩ := hexec
    have hfailed : a.status ≠ 0 := by
      rw [← hstatus]
      decide
    refine ⟨?_, iff_of_false hfailed (by rw [hlength]; exact Int.not_le.mpr hbeyond), fun h => absurd h hfailed,
      fun h => absurd h hfailed⟩
    rw [c.effect_none (.inr (.inr hfailed)), ← hm]
    exact hmounted.volume
  · have hbound := Int.not_lt.mp hbeyond
    have hwithin : ((c.start + c.size : Nat) : Int) ≤ bound ld := by rwa [hlength]
    have hinside : c.start + c.size ≤ f.size := by omega
    by_cases hread : c.kind = .read10
    · have hopcode := c.opcode
      rw [hread] at hopcode hbound
      rcases (run_read_ends (x := { m.state with data := c.data }) hserves hmounted hopcode fuel c.size hbound).exec hfair' with
        ⟨r, m₁, hrun, -, hreturn, hvolume, hfilled⟩ | ⟨e, hrun, -⟩
      · obtain ⟨hstatus, rfl⟩ := Prod.mk.inj (Except.ok.inj (hexec.symm.trans hrun))
        have hzero : a.status = 0 := (Prod.mk.inj (hstatus.trans hreturn)).1
        refine ⟨by rwa [c.effect_none (.inr (.inl hread))], iff_of_true hzero hwithin, fun _ => hinside, fun _ _ => ?_⟩
        have hslice := slice_blit c.data 0 (slice f.bytes c.start c.size)
        rw [slice_length] at hslice
        rw [hdata, hfilled, ← hread]
        exact hslice
      · cases hexec.symm.trans hrun
    · rcases (run_write_ends (x := { m.state with data := c.data }) hserves hmounted c.opcode hread fuel c.size
        hbound).exec hfair' with ⟨r, m₁, hrun, -, hreturn, hvolume, -⟩ | ⟨e, hrun, -⟩
      · obtain ⟨hstatus, rfl⟩ := Prod.mk.inj (Except.ok.inj (hexec.symm.trans hrun))
        have hzero : a.status = 0 := (Prod.mk.inj (hstatus.trans hreturn)).1
        refine ⟨?_, iff_of_true hzero hwithin, fun _ => hinside, fun _ h => absurd h hread⟩
        rw [c.effect_write hlun hread hzero]
        exact hvolume
      · cases hexec.symm.trans hrun

/-- A command for a disk is answered, given the rounds it may need. -/
theorem serve_answers (c : Command) (hserves : Serves td ld.lun ld) (hfair : m.Fair Choice.Progress)
    (hlun : c.lun = ld.lun) {fh inode : Nat} {f : File} (hmounted : Mounted ld m.state.world fh inode f)
    (hfuel : c.size ≤ fuel) : ∃ a s', Serve fuel (td, m) (c, a) s' := by
  rw [← hlun] at hserves
  by_cases hbeyond : bound ld < ((MediaCommand.lba c.cdb + c.kind.length c.cdb) * 512 : Nat)
  · have hrejected := run_media_rejected (x := { m.state with data := c.data }) hserves hmounted c.opcode fuel c.size hbeyond
    refine ⟨{ status := 2, data := c.data }, (td, { m with state := { m.state with data := c.data } }), ?_, rfl⟩
    simp only [hrejected, Prog.exec_ret]
  · obtain ⟨m', hexec⟩ := (run_media_accepted (m := { m with state := { m.state with data := c.data } }) hserves hmounted
      hfair c.opcode fuel c.size (Int.not_lt.mp hbeyond)).2 hfuel
    exact ⟨{ status := 0, data := m'.state.data }, (td, m'), hexec, rfl⟩

/-- What a step keeps: the target, and that its disks are disks. -/
structure Kept (td : TargetData) (m : Machine Choice Space) (c : Command) (a : Answer) (s' : Server) : Prop where
  target : s'.1 = td
  fair : s'.2.Fair Choice.Progress
  disks : Disks td s'.2.state.world
  elsewhere : ∃ ld ∈ td.luns, ld.lun = c.lun ∧ World.Elsewhere ld.lun_fh m.state.world s'.2.state.world
  failed : a.status ≠ 0 → s'.2.state.world = m.state.world
  mounted : ∀ ld ∈ td.luns, ∀ fh inode f, Mounted ld m.state.world fh inode f →
    Mounted ld s'.2.state.world fh inode (c.effect a ld f)

theorem serve_keeps {c : Command} {a : Answer} {s' : Server} (h : Disks td m.state.world)
    (hfair : m.Fair Choice.Progress) (hstep : Serve fuel (td, m) (c, a) s') : Kept td m c a s' := by
  obtain ⟨ld, hfind, htarget, helsewhere, hnothing⟩ := run_media_frame h.type c.opcode hstep.1
  have hld := List.mem_of_find?_eq_some hfind
  have hlun : ld.lun = c.lun := by simpa using List.find?_some hfind
  have hmounted : ∀ ld' ∈ td.luns, ∀ fh inode f, Mounted ld' m.state.world fh inode f →
      Mounted ld' s'.2.state.world fh inode (c.effect a ld' f) := by
    intro ld' hld' fh inode f hm
    by_cases heq : ld' = ld
    · subst heq
      have hperformed := serve_performs (h.serves hld) hfair hstep hlun.symm hm
      refine { hm with volume := hperformed.volume, size := ?_ }
      rw [← hm.size]
      unfold Command.effect Command.store?
      split
      · rename_i s hs
        split at hs
        · rename_i hwrite
          obtain rfl := Option.some.inj hs
          rw [File.pwrite_size]
          simpa using hperformed.inside hwrite.2.2
        · cases hs
      · rfl
    · have hne : c.lun ≠ ld'.lun := fun hsame => heq (h.numbers ld' hld' ld hld (hsame.symm.trans hlun.symm))
      rw [c.effect_none (.inl hne)]
      exact h.other hld' hld heq helsewhere hm
  refine ⟨htarget, Prog.exec_fair hstep.1 hfair, ?_, ⟨ld, hld, hlun, helsewhere⟩, fun hstatus => ?_, hmounted⟩
  · refine ⟨h.type, h.numbers, h.streams, fun ld₁ h₁ ld₂ h₂ hne fh fh' inode hfh hfh' => ?_, fun ld' hld' hsbc => ?_⟩
    · rw [helsewhere.inode?_eq, helsewhere.inode?_eq]
      exact h.files ld₁ h₁ ld₂ h₂ hne fh fh' inode hfh hfh'
    · obtain ⟨fh, inode, f, hm⟩ := h.mounted ld' hld' hsbc
      exact ⟨fh, inode, _, hmounted ld' hld' fh inode f hm⟩
  · rw [hnothing hstatus]

/-- A run keeps the target, and its disks hold what the answered writes have put there. -/
theorem run_keeps {start s : Server} {trace : List (Server × (Command × Answer))}
    (h : Disks start.1 start.2.state.world) (hfair : start.2.Fair Choice.Progress)
    (hrun : Run (Serve fuel) start trace s) :
    s.1 = start.1 ∧ s.2.Fair Choice.Progress ∧ Disks start.1 s.2.state.world ∧
      ∀ ld ∈ start.1.luns, ∀ fh inode f, Mounted ld start.2.state.world fh inode f →
        ∃ g, Mounted ld s.2.state.world fh inode g ∧ g.bytes = replay (stores ld trace) f.bytes := by
  induction hrun with
  | nil => exact ⟨rfl, hfair, h, fun ld hld fh inode f hm => ⟨f, hm, rfl⟩⟩
  | @snoc trace s next e run hstep ih =>
    obtain ⟨htarget, hfair', hdisks, hmounted⟩ := ih
    obtain ⟨c, a⟩ := e
    obtain ⟨td, m⟩ := s
    obtain rfl : td = start.1 := htarget
    have hkept := serve_keeps hdisks hfair' hstep
    refine ⟨hkept.target, hkept.fair, hkept.disks, fun ld hld fh inode f hm => ?_⟩
    obtain ⟨g, hg, hbytes⟩ := hmounted ld hld fh inode f hm
    refine ⟨_, hkept.mounted ld hld fh inode g hg, ?_⟩
    rw [stores, List.filterMap_append, ← stores, Command.effect]
    simp only [List.filterMap_cons, List.filterMap_nil]
    cases c.store? a ld with
    | none => rw [List.append_nil, hbytes]
    | some st => rw [replay_append, File.pwrite_bytes, hbytes]

/-- What a step does, seen from a disk whose contents before it are `g`, where
`last` is the last byte stored at each address. -/
structure Refines (ld : LunData) (fh inode : Nat) (g : File) (last : Nat → UInt8) (s : Server) (c : Command) (a : Answer)
    (s' : Server) : Prop where
  status : c.lun = ld.lun → (a.status = 0 ↔ ((c.start + c.size : Nat) : Int) ≤ bound ld)
  read : c.lun = ld.lun → c.kind = .read10 → a.status = 0 → ∀ k < c.size, a.data k = last (c.start + k)
  write : c.lun = ld.lun → c.kind ≠ .read10 → a.status = 0 → c.start + c.size ≤ g.size ∧
    Mounted ld s'.2.state.world fh inode (g.pwrite c.start (slice c.data 0 c.size))
  same : c.lun ≠ ld.lun ∨ c.kind = .read10 → Mounted ld s'.2.state.world fh inode g
  elsewhere : ∃ ld' ∈ s.1.luns, ld'.lun = c.lun ∧ World.Elsewhere ld'.lun_fh s.2.state.world s'.2.state.world
  failed : a.status ≠ 0 → s'.2.state.world = s.2.state.world

/-- The disks of a target refine byte arrays. After any run of reads and writes,
each disk holds at every address the byte of the latest write answered with
status 0 that covers it, or the byte it held at first; every command for a disk
is answered after at most as many rounds as it has bytes, with status 0 exactly
when its bytes are within the bound; a read answered with status 0 returns the
bytes the disk holds; a write answered with status 0 changes the bytes of its
blocks and nothing else; and any other command changes no file. -/
theorem disk_refines_byte_array {start s : Server} {trace : List (Server × (Command × Answer))}
    (h : Disks start.1 start.2.state.world) (hfair : start.2.Fair Choice.Progress)
    (hrun : Run (Serve fuel) start trace s) {ld : LunData} (hld : ld ∈ start.1.luns) {fh inode : Nat} {f : File}
    (hmounted : Mounted ld start.2.state.world fh inode f) :
    ∃ g, Mounted ld s.2.state.world fh inode g ∧
      (∀ i, g.bytes i = (latest (stores ld trace) i).getD (f.bytes i)) ∧
      (∀ c a s', Serve fuel s (c, a) s' →
        Refines ld fh inode g (fun i => (latest (stores ld trace) i).getD (f.bytes i)) s c a s') ∧
      ∀ c : Command, c.lun = ld.lun → c.size ≤ fuel → ∃ a s', Serve fuel s (c, a) s' := by
  obtain ⟨htarget, hfair', hdisks, hkept⟩ := run_keeps h hfair hrun
  obtain ⟨g, hg, hbytes⟩ := hkept ld hld fh inode f hmounted
  obtain ⟨td, m⟩ := s
  obtain rfl : td = start.1 := htarget
  have hlast : ∀ i, g.bytes i = (latest (stores ld trace) i).getD (f.bytes i) := by
    intro i
    rw [hbytes, replay_apply]
  refine ⟨g, hg, hlast, fun c a s' hstep => ?_, fun c hlun hfuel => ?_⟩
  · have hkeeps := serve_keeps hdisks hfair' hstep
    have hmounted' := hkeeps.mounted ld hld fh inode g hg
    refine ⟨fun hlun => (serve_performs (hdisks.serves hld) hfair' hstep hlun hg).status,
      fun hlun hkind hstatus k hk => ?_, fun hlun hkind hstatus => ?_, fun hother => ?_, hkeeps.elsewhere, hkeeps.failed⟩
    · have hread := (serve_performs (hdisks.serves hld) hfair' hstep hlun hg).read hstatus hkind
      have hbyte := congrArg (·[k]?) hread
      simp only [slice_getElem? _ _ hk, Nat.zero_add, Option.some.injEq] at hbyte
      rw [hbyte, hlast]
    · have hinside := (serve_performs (hdisks.serves hld) hfair' hstep hlun hg).inside hstatus
      rw [c.effect_write hlun hkind hstatus] at hmounted'
      exact ⟨hinside, hmounted'⟩
    · rwa [c.effect_none (hother.imp_right .inl)] at hmounted'
  · exact serve_answers c (hdisks.serves hld) hfair' hlun hg hfuel

theorem diskTarget_disks (mb : Nat) : Disks (diskTarget mb) (diskWorld mb) := by
  obtain ⟨-, fh, inode, f, hmounted⟩ := (disk_made mb).mounted
  have honly : ∀ ld ∈ (diskTarget mb).luns, ld = newLun 0 "disk".toList .hd mb 0 (some 0) :=
    fun ld hld => List.mem_singleton.mp hld
  refine ⟨rfl, fun ld hld ld' hld' _ => ?_, fun ld hld ld' hld' hne => ?_, fun ld hld ld' hld' hne => ?_,
    fun ld hld _ => ?_⟩
  · rw [honly ld hld, honly ld' hld']
  · exact absurd ((honly ld hld).trans (honly ld' hld').symm) hne
  · exact absurd ((honly ld hld).trans (honly ld' hld').symm) hne
  · rw [honly ld hld]
    exact ⟨fh, inode, f, hmounted⟩

/-- A process with a new disk of one MiB. -/
def newDisk : Server :=
  (diskTarget 1, { state := { world := diskWorld 1, data := fun _ => 0 }, choices := fun _ => .whole })

/-- WRITE(10) of ones to the first two blocks. -/
def writeOnes : Command where
  kind := .write10
  lun := 0
  cdb := cdb10 0x2a 0 2
  opcode := rfl
  data := fun _ => 1

/-- WRITE(10) of twos to the second block. -/
def writeTwos : Command where
  kind := .write10
  lun := 0
  cdb := cdb10 0x2a 1 1
  opcode := rfl
  data := fun _ => 2

/-- READ(10) of the first two blocks. -/
def readBoth : Command where
  kind := .read10
  lun := 0
  cdb := cdb10 0x28 0 2
  opcode := rfl
  data := fun _ => 0

/-- A new disk takes a write of ones to two blocks and then one of twos to the
second of them, and a read returns ones and then twos. -/
theorem disk_refines_one_mib : ∃ a₁ a₂ a₃ s₁ s₂ s₃, Serve 1024 newDisk (writeOnes, a₁) s₁ ∧
    Serve 1024 s₁ (writeTwos, a₂) s₂ ∧ Serve 1024 s₂ (readBoth, a₃) s₃ ∧
    a₁.status = 0 ∧ a₂.status = 0 ∧ a₃.status = 0 ∧ ∀ k < 1024, a₃.data k = if k < 512 then 1 else 2 := by
  obtain ⟨-, fh, inode, f, hmounted⟩ := (disk_made 1).mounted
  have hfair : newDisk.2.Fair Choice.Progress := fun _ => Choice.whole_progress
  have hld : newLun 0 "disk".toList .hd 1 0 (some 0) ∈ newDisk.1.luns := List.mem_singleton.mpr rfl
  -- the write of ones
  have hrun₀ : Run (Serve 1024) newDisk [] newDisk := .nil
  obtain ⟨g₁, -, -, hrefines₁, hanswers₁⟩ := disk_refines_byte_array (diskTarget_disks 1) hfair hrun₀ hld hmounted
  obtain ⟨a₁, s₁, hstep₁⟩ := hanswers₁ writeOnes rfl (by decide)
  have hstatus₁ := ((hrefines₁ _ _ _ hstep₁).status rfl).mpr (by decide)
  have hrun₁ := hrun₀.snoc hstep₁
  -- the write of twos
  obtain ⟨g₂, -, -, hrefines₂, hanswers₂⟩ := disk_refines_byte_array (diskTarget_disks 1) hfair hrun₁ hld hmounted
  obtain ⟨a₂, s₂, hstep₂⟩ := hanswers₂ writeTwos rfl (by decide)
  have hstatus₂ := ((hrefines₂ _ _ _ hstep₂).status rfl).mpr (by decide)
  have hrun₂ := hrun₁.snoc hstep₂
  -- the read
  obtain ⟨g₃, -, -, hrefines₃, hanswers₃⟩ := disk_refines_byte_array (diskTarget_disks 1) hfair hrun₂ hld hmounted
  obtain ⟨a₃, s₃, hstep₃⟩ := hanswers₃ readBoth rfl (by decide)
  have hstatus₃ := ((hrefines₃ _ _ _ hstep₃).status rfl).mpr (by decide)
  refine ⟨a₁, a₂, a₃, s₁, s₂, s₃, hstep₁, hstep₂, hstep₃, hstatus₁, hstatus₂, hstatus₃, fun k hk => ?_⟩
  have hones : writeOnes.store? a₁ (newLun 0 "disk".toList .hd 1 0 (some 0)) =
      some { start := 0, bytes := slice (fun _ => 1) 0 1024 } := if_pos ⟨rfl, by decide, hstatus₁⟩
  have htwos : writeTwos.store? a₂ (newLun 0 "disk".toList .hd 1 0 (some 0)) =
      some { start := 512, bytes := slice (fun _ => 2) 0 512 } := if_pos ⟨rfl, by decide, hstatus₂⟩
  have hstart : readBoth.start + k = k := by
    rw [show readBoth.start = 0 from by decide, Nat.zero_add]
  rw [(hrefines₃ _ _ _ hstep₃).read rfl rfl hstatus₃ k hk, hstart]
  simp only [stores, List.nil_append, List.singleton_append, List.filterMap_cons, List.filterMap_nil, hones, htwos]
  -- the second write is the latest one that covers the second block
  split
  · rename_i hblock
    have hfirst : ({ start := 0, bytes := slice (fun _ => 1) 0 1024 } : Store).byte? k = some 1 :=
      (Store.byte?_slice _ _ _ _ _ _).mpr ⟨k, hk, (Nat.zero_add k).symm, rfl⟩
    have hsecond : ({ start := 512, bytes := slice (fun _ => 2) 0 512 } : Store).byte? k = none :=
      if_neg (Nat.not_le.mpr hblock)
    have hlatest : latest ([] ++ { start := 0, bytes := slice (fun _ => 1) 0 1024 } ::
        [{ start := 512, bytes := slice (fun _ => 2) 0 512 }]) k = some 1 :=
      latest_covered hfirst (by simpa using hsecond)
    exact congrArg (Option.getD · _) hlatest
  · rename_i hblock
    have hsecond : ({ start := 512, bytes := slice (fun _ => 2) 0 512 } : Store).byte? k = some 2 :=
      (Store.byte?_slice _ _ _ _ _ _).mpr ⟨k - 512, by omega, by omega, rfl⟩
    have hlatest : latest ([{ start := 0, bytes := slice (fun _ => 1) 0 1024 }] ++
        { start := 512, bytes := slice (fun _ => 2) 0 512 } :: []) k = some 2 := latest_covered hsecond (by simp)
    exact congrArg (Option.getD · _) hlatest

end vscsi.scsi_target
