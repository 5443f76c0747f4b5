import Vscsi.Lib.Admitted
import Vscsi.Scsi.Interleaved

open lib lib.Code

namespace vscsi.scsi

/-- The calls that find every byte of the files where it may be. -/
def Finding (may : Nat → Nat → UInt8 → Prop) (_ : Call) (_ : Choice) (x : Space) : Prop := x.world.FilesAdmitted may

section Calls

variable {may : Nat → Nat → UInt8 → Prop} {x x' : Space} {fh : Option Nat} {n inode lba len count pos : Nat} {data : Mem}

theorem SameOwn.streams_admitted (h : SameOwn x x') (hstreams : x.world.StreamsAdmitted may) :
    x'.world.StreamsAdmitted may := by
  intro m s hs
  rw [h.streams] at hs
  exact hstreams m s hs

theorem SameOwn.inode? (h : SameOwn x x') (hinode : x.world.inode? n = some inode) : x'.world.inode? n = some inode := by
  rw [World.inode?, h.streams]
  exact hinode

/-- A call on such streams passes on such bytes and leaves such streams. -/
theorem puts_admitted {c : Call} {choice : Choice} {r : Reply c} (hon : c.On fh) (hfiles : x.world.FilesAdmitted may)
    (hstreams : x.world.StreamsAdmitted may) (hwrite : c.WriteAdmitted may x) (hcall : libc c choice x = .ok (r, x')) :
    Puts fh may c choice x ∧ x'.world.StreamsAdmitted may ∧ x'.world.inode? = x.world.inode? := by
  refine ⟨⟨hon, fun p hp a byte hbyte => ?_⟩, libc_streams_admitted hon hfiles hstreams hwrite hcall, funext fun m => ?_⟩
  · exact (Call.passes_admitted hstreams hwrite hp).byte? hbyte
  · exact (libc_elsewhere hon hcall).inode?_eq m

theorem Call.Reads.write_admitted {c : Call} (h : c.Reads fh) : c.WriteAdmitted may x := by
  rintro i count m s rfl
  exact h.elim

/-- A computation of reads. -/
theorem ReadsOnly.admitted {α : Type} {R : α → Prop} {p : Code α} (h : ReadsOnly fh R p)
    (hstreams : x.world.StreamsAdmitted may) :
    Interleaved (Finding may) fh may p x fun a x' => R a ∧ x'.world.StreamsAdmitted may := by
  refine Prog.Within.among_allowed h hstreams (fun x x' hx hsame => hsame.streams_admitted hx) ?_
  intro c choice x r x' hreads hfiles hx hcall
  obtain ⟨hputs, hx', -⟩ := puts_admitted hreads.on hfiles hx (Call.Reads.write_admitted hreads) hcall
  exact ⟨hputs, hx'⟩

/-- A stream that a transfer has been positioned on. -/
structure Positioned (may : Nat → Nat → UInt8 → Prop) (n inode pos : Nat) (x : Space) : Prop where
  streams : x.world.StreamsAdmitted may
  stream : ∃ s, x.world.streams n = some s ∧ s.inode = inode ∧ s.pos = pos

theorem Positioned.stable (h : Positioned may n inode pos x) (hsame : SameOwn x x') : Positioned may n inode pos x' where
  streams := hsame.streams_admitted h.streams
  stream := by
    rw [hsame.streams]
    exact h.stream

theorem fseeko_admitted (hstreams : x.world.StreamsAdmitted may) (hinode : x.world.inode? n = some inode) (pos : Nat) :
    Interleaved (Finding may) (some n) may (fseeko (some n) pos .set) x fun _ x' =>
      x'.data = x.data ∧ Positioned may n inode pos x' := by
  refine Interleaved.call (fun y hy choice r y' hfiles hcall => ?_) fun _ y y' hy hsame =>
    ⟨hsame.data.trans hy.1, hy.2.stable hsame⟩
  have hreads : (Call.fseeko (some n) pos .set).Reads (some n) := rfl
  obtain ⟨hputs, hy', -⟩ := puts_admitted hreads.on hfiles (hy.streams_admitted hstreams)
    (Call.Reads.write_admitted hreads) hcall
  obtain ⟨s, hs, hon⟩ := Option.map_eq_some_iff.mp (hy.inode? hinode)
  simp only [libc, Space.onStream, hs] at hcall
  cases hcall
  refine ⟨hputs, hy.data, hy', s.seek pos, ?_, hon, s.pos_seek _⟩
  simp only [World.fseeko, World.setStream, Function.update_self]
  rfl

/-- A write that has come so far: its data is as it was. -/
structure Writing (may : Nat → Nat → UInt8 → Prop) (n inode : Nat) (data : Mem) (x : Space) : Prop where
  streams : x.world.StreamsAdmitted may
  on : x.world.inode? n = some inode
  data : x.data = data

theorem Writing.stable (h : Writing may n inode data x) (hsame : SameOwn x x') : Writing may n inode data x' :=
  ⟨hsame.streams_admitted h.streams, hsame.inode? h.on, hsame.data.trans h.data⟩

theorem fwrite_admitted (hput : ∀ k < len, may inode (lba + k) (data k)) (hcount : count < len)
    (h : Positioned may n inode (lba + count) x) (hdata : x.data = data) :
    Interleaved (Finding may) (some n) may (fwrite count (len - count) (some n)) x fun res x' =>
      res ≤ len - count ∧ Writing may n inode data x' := by
  refine Interleaved.call (fun y hy choice r y' hfiles hcall => ?_) fun _ y y' hy hsame => ⟨hy.1, hy.2.stable hsame⟩
  have hplaced := h.stable hy
  obtain ⟨s, hs, hinode, hpos⟩ := hplaced.stream
  have hwrite : (Call.fwrite count (len - count) (some n)).WriteAdmitted may y := by
    rintro i size m s' ⟨rfl, rfl, rfl⟩ hs'
    obtain rfl : s' = s := Option.some.inj (hs'.symm.trans hs)
    rw [hpos, hinode, hy.data, hdata]
    refine .slice fun i hi => ?_
    rw [Nat.add_assoc]
    exact hput (count + i) (by omega)
  have hcalled : (Call.fwrite count (len - count) (some n)).On (some n) := rfl
  obtain ⟨hputs, hy', hsame⟩ := puts_admitted hcalled hfiles hplaced.streams hwrite hcall
  have hon : y'.world.inode? n = some inode := by
    rw [hsame, World.inode?, hs, Option.map_some, hinode]
  rw [libc_fwrite hs] at hcall
  cases hcall
  refine ⟨hputs, ?_, hy', hon, hy.data.trans hdata⟩
  have hle := s.write_le (y.world.file s) (slice y.data count (len - count)) choice
  rwa [slice_length] at hle

/-- The writes of a transfer put its data where it belongs. -/
theorem transfer_fwrite_admitted (hlen : len < 2 ^ 31) (hput : ∀ k < len, may inode (lba + k) (data k)) (fuel : Nat)
    (h : Writing may n inode data x) :
    Interleaved (Finding may) (some n) may (transfer (fwrite · · (some n)) (some n) lba len fuel 0) x
      fun _ x' => Writing may n inode data x' := by
  refine transfer_interleaved (fun _ x' => Writing may n inode data x') hlen (fun _ x x' hx hsame => hx.stable hsame) ?_
    fuel (Nat.zero_le len) h
  intro count x hcount hx
  refine (fseeko_admitted hx.streams hx.on (lba + count)).mono ?_
  rintro _ x' ⟨hsame, hplaced⟩
  exact fwrite_admitted hput hcount hplaced (hsame.trans hx.data)

/-- A read that has got its first bytes, which may be where it has read them. -/
structure Got (may : Nat → Nat → UInt8 → Prop) (n inode lba count : Nat) (x : Space) : Prop where
  streams : x.world.StreamsAdmitted may
  on : x.world.inode? n = some inode
  got : ∀ k < count, may inode (lba + k) (x.data k)

theorem Got.stable (h : Got may n inode lba count x) (hsame : SameOwn x x') : Got may n inode lba count x' where
  streams := hsame.streams_admitted h.streams
  on := hsame.inode? h.on
  got k hk := by
    rw [hsame.data]
    exact h.got k hk

theorem fread_admitted (hgot : ∀ k < count, may inode (lba + k) (x.data k)) (h : Positioned may n inode (lba + count) x) :
    Interleaved (Finding may) (some n) may (fread count (len - count) (some n)) x fun res x' =>
      res ≤ len - count ∧ Got may n inode lba (count + res) x' := by
  refine Interleaved.call (fun y hy choice r y' hfiles hcall => ?_) fun _ y y' hy hsame => ⟨hy.1, hy.2.stable hsame⟩
  have hplaced := h.stable hy
  obtain ⟨s, hs, hinode, hpos⟩ := hplaced.stream
  have hreads : (Call.fread count (len - count) (some n)).Reads (some n) := rfl
  obtain ⟨hputs, hy', hsame⟩ := puts_admitted hreads.on hfiles hplaced.streams (Call.Reads.write_admitted hreads) hcall
  have hon : y'.world.inode? n = some inode := by
    rw [hsame, World.inode?, hs, Option.map_some, hinode]
  have hadmitted := hplaced.streams n s hs
  have hfound : Admitted (may inode) (lba + count) (s.found (s.contents (y.world.file s)) (len - count) choice) := by
    rw [← hinode, ← hpos]
    exact hadmitted.found (hadmitted.contents (hfiles s.inode)) _ _
  have hle : (s.found (s.contents (y.world.file s)) (len - count) choice).length ≤ len - count := by
    have hread := s.read_length_le (y.world.file s) (len - count) choice
    unfold Stream.read at hread
    cases hrefill : choice.refill <;> simpa [hrefill] using hread
  rw [libc_fread hs] at hcall
  cases hcall
  refine ⟨hputs, hle, hy', hon, fun k hk => ?_⟩
  by_cases hold : k < count
  · simp only
    rw [blit_of_lt _ _ hold, hy.data]
    exact hgot k hold
  · obtain ⟨j, rfl⟩ := Nat.exists_eq_add_of_le (Nat.not_lt.mp hold)
    have hj : j < (s.found (s.contents (y.world.file s)) (len - count) choice).length := by omega
    simp only
    rw [blit_add _ _ hj, ← Nat.add_assoc]
    exact hfound j _ (List.getElem?_eq_getElem hj)

theorem transfer_fread_admitted (hlen : len < 2 ^ 31) (fuel : Nat) (h : Got may n inode lba 0 x) :
    Interleaved (Finding may) (some n) may (transfer (fread · · (some n)) (some n) lba len fuel 0) x
      fun _ x' => Got may n inode lba len x' := by
  refine transfer_interleaved (fun count x' => Got may n inode lba count x') hlen (fun _ x x' hx hsame => hx.stable hsame) ?_
    fuel (Nat.zero_le len) h
  intro count x hcount hx
  refine (fseeko_admitted hx.streams hx.on (lba + count)).mono ?_
  rintro _ x' ⟨hsame, hplaced⟩
  exact fread_admitted (fun k hk => by rw [hsame]; exact hx.got k hk) hplaced

end Calls

end vscsi.scsi

namespace vscsi.scsi_target

open scsi

variable {may : Nat → Nat → UInt8 → Prop} {td : TargetData} {start : World} {lun : UInt8} {cdb : Cdb} {x x' : Space}
  {ld : LunData} {lba n fh inode : Nat} {data : Mem}

/-- The bytes of a command, if it is a write, may be where it puts them. -/
def Vouched (may : Nat → Nat → UInt8 → Prop) (td : TargetData) (w : World) (lun : UInt8) (cdb : Cdb) (data : Mem) : Prop :=
  PutsBlocks td lun cdb → ∀ inode a k, Carries td w lun cdb inode a k → may inode a (data k)

/-- What a command leaves: streams with such bytes and, if it was a read, data
that may be where it was read. -/
structure Settled (may : Nat → Nat → UInt8 → Prop) (td : TargetData) (w : World) (lun : UInt8) (cdb : Cdb) (status : UInt8)
    (x : Space) : Prop where
  streams : x.world.StreamsAdmitted may
  read : status = 0 → cdb.get 0 = 0x28 → ∀ inode a k, Carries td w lun cdb inode a k → may inode a (x.data k)

theorem Settled.stable {status : UInt8} (h : Settled may td start lun cdb status x) (hsame : SameOwn x x') :
    Settled may td start lun cdb status x' where
  streams := hsame.streams_admitted h.streams
  read hstatus hread inode a k hcarries := by
    rw [hsame.data]
    exact h.read hstatus hread inode a k hcarries

/-- A command that moves blocks. -/
theorem access_admitted (hblocks : OnBlocks td lun cdb ld lba n) (hfh : ld.lun_fh = some fh)
    (hinode : x.world.inode? fh = some inode) (hstreams : x.world.StreamsAdmitted may)
    (hvouched : Vouched may td x.world lun cdb x.data) (fuel : Nat) (data_size : Int) :
    Interleaved (Finding may) (lunStream td lun) may (access (mover cdb ld.lun_fh) fuel ld data_size lba n) x
      fun o x' => o.ld = ld ∧ Settled may td x.world lun cdb o.status x' := by
  have hstream : lunStream td lun = some fh := by rw [lunStream, hblocks.find, Option.bind_some, hfh]
  have hfile : lunFile td x.world lun = some inode := by rw [lunFile, hstream, Option.bind_some, hinode]
  have hcarries {i a k : Nat} (h : Carries td x.world lun cdb i a k) :
      i = inode ∧ a = lba * ld.block_size.toNat + k ∧ k < n * ld.block_size.toNat := by
    obtain ⟨ld', lba', n', hblocks', ha, hk⟩ := h.blocks
    obtain ⟨rfl, rfl, rfl⟩ := hblocks.unique hblocks'
    exact ⟨Option.some.inj (h.file.symm.trans hfile), ha, hk⟩
  rw [access_eq]
  by_cases hbeyond : bound ld < ((lba + n) * ld.block_size.toNat : Nat)
  · have hrefused : (2 : UInt8) ≠ 0 := by decide
    rw [if_pos hbeyond]
    exact fun x' hsame => ⟨rfl, hsame.streams_admitted hstreams, fun hstatus => absurd hstatus hrefused⟩
  · have hlen := access_len hbeyond
    rw [if_neg hbeyond, hfh, hstream]
    by_cases hread : cdb.get 0 = 0x28
    · rw [mover_read hread]
      have hgot : Got may fh inode (lba * ld.block_size.toNat) 0 x := ⟨hstreams, hinode, fun k hk => absurd hk (Nat.not_lt_zero k)⟩
      refine Prog.Among.bind (transfer_fread_admitted hlen fuel hgot) .refl fun _ y hy => ?_
      refine fun y' hsame => ⟨rfl, Settled.stable ⟨hy.streams, fun _ _ i a k hk => ?_⟩ hsame⟩
      obtain ⟨rfl, rfl, hlt⟩ := hcarries hk
      exact hy.got k hlt
    · rw [mover_write hread]
      have hput : ∀ k < n * ld.block_size.toNat, may inode (lba * ld.block_size.toNat + k) (x.data k) := fun k hk =>
        hvouched ⟨hread, ld, lba, n, hblocks⟩ inode _ k ⟨hfile, ld, lba, n, hblocks, rfl, hk⟩
      have hwriting : Writing may fh inode x.data x := ⟨hstreams, hinode, rfl⟩
      refine Prog.Among.bind (transfer_fwrite_admitted hlen hput fuel hwriting) .refl fun _ y hy => ?_
      exact fun y' hsame => ⟨rfl, Settled.stable ⟨hy.streams, fun _ h => absurd h hread⟩ hsame⟩

/-- What any command does to the bytes of files while others run, but one that starts a
new image. -/
theorem run_admitted (hemulates : Emulates td x.world) (hrestarts : ¬ Restarts td lun cdb)
    (hstreams : x.world.StreamsAdmitted may) (hvouched : Vouched may td x.world lun cdb x.data) (fuel : Nat)
    (data_size : Int) :
    Interleaved (Finding may) (lunStream td lun) may (run_scsi_command fuel td lun cdb data_size) x
      fun r x' => r.2 = td ∧ Settled may td x.world lun cdb r.1 x' := by
  cases hfind : newest td lun with
  | none =>
    rw [run_scsi_command_crashes hemulates.type hfind]
    trivial
  | some ld =>
    obtain ⟨number, lunfile, luntype, lunsizeinmb, time, fh, inode, hld, hinode⟩ :=
      hemulates.luns ld (List.mem_of_find?_eq_some hfind)
    have hfh : ld.lun_fh = some fh := by rw [hld]; cases luntype <;> rfl
    obtain ⟨cmds, hcmds⟩ : ∃ cmds, ld.cmds = some cmds := by rw [hld]; cases luntype <;> exact ⟨_, rfl⟩
    have hstream : ld.lun_fh = lunStream td lun := by rw [lunStream, hfind, Option.bind_some]
    cases hfunc : cmds.func (cdb.get 0) with
    | none =>
      have hrefused : (2 : UInt8) ≠ 0 := by decide
      simp only [run_scsi_command, hemulates.type, findLun_eq hfind, hcmds, hfunc, if_true]
      exact fun x' hsame => ⟨rfl, hsame.streams_admitted hstreams, fun hstatus => absurd hstatus hrefused⟩
    | some func =>
      rw [run_scsi_command_eq hemulates.type (findLun_eq hfind) hcmds hfunc]
      have hhandler : Interleaved (Finding may) (lunStream td lun) may (func fuel td ld cdb data_size) x
          fun o x' => o.ld = ld ∧ Settled may td x.world lun cdb o.status x' := by
        cases hblocks : blocks cmds cdb with
        | none =>
          have hreads : ReadsOnly ld.lun_fh (·.ld = ld) (func fuel td ld cdb data_size) :=
            func_reads hfunc (.inl hblocks) fun hstarts => hrestarts ⟨ld, cmds, hfind, hcmds, hstarts⟩
          rw [hstream] at hreads
          refine (hreads.admitted hstreams).mono fun o x' ho => ⟨ho.1, ho.2, fun _ _ i a k hcarries => ?_⟩
          -- a command that carries bytes is for blocks
          obtain ⟨ld', lba, n, ⟨hfind', cmds', hcmds', hblocks'⟩, -⟩ := hcarries.blocks
          obtain rfl := Option.some.inj (hfind.symm.trans hfind')
          obtain rfl := Option.some.inj (hcmds.symm.trans hcmds')
          cases hblocks.symm.trans hblocks'
        | some b =>
          obtain ⟨func', hfunc', haccess⟩ := blocks_access (show blocks cmds cdb = some (b.1, b.2) from hblocks)
          obtain rfl : func = func' := Option.some.inj (hfunc.symm.trans hfunc')
          rw [haccess]
          exact access_admitted ⟨hfind, cmds, hcmds, hblocks⟩ hfh hinode hstreams hvouched fuel data_size
      refine Prog.Among.bind hhandler .refl fun o y ho => ?_
      rw [ho.1, putLun_self hfind]
      exact fun y' hsame => ⟨rfl, ho.2.stable hsame⟩

end vscsi.scsi_target
