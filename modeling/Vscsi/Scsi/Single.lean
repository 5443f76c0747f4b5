import Vscsi.Lib.Once
import Vscsi.Scsi.Interleaved

open lib lib.Code

namespace vscsi.scsi

/-- The call passes on a byte at an address of a file. -/
def Marks (inode a : Nat) (c : Call) (choice : Choice) (x : Space) : Prop :=
  ∃ p, c.passes choice x = some p ∧ p.1 = inode ∧ p.2.byte? a ≠ none

/-- What a computation on streams does to one byte of a file while other processes run:
it passes it on once at most. -/
abbrev Single {α : Type} (inode a : Nat) (p : Code α) (seen : Prop) (x : Space) (Q : α → Space → Prop → Prop) : Prop :=
  p.Once libc SameOwn (Marks inode a) seen x Q

/-- A write that has put its first bytes into its stream. Once the byte has been passed
on it is not pending, and no later byte of the write has its address. -/
structure Passing (inode a fh lba count : Nat) (x : Space) (seen : Prop) (s : Stream) : Prop where
  opened : x.world.streams fh = some s
  pending : ∀ b, s.held.byte? b ≠ none → b < lba + count
  passed : seen → s.held.byte? a = none ∧ a < lba + count

variable {inode a fh lba len count : Nat} {x x' : Space} {seen : Prop} {s : Stream}

theorem Passing.stable (h : Passing inode a fh lba count x seen s) (hsame : SameOwn x x') :
    Passing inode a fh lba count x' seen s where
  opened := by rw [hsame.streams]; exact h.opened
  pending := h.pending
  passed := h.passed

/-- A seek passes on all that is pending. -/
theorem fseeko_single (h : Passing inode a fh lba count x seen s) :
    Single inode a (fseeko (some fh) (lba + count : Nat) .set) seen x fun _ x' seen' =>
      ∃ s', Passing inode a fh lba count x' seen' s' ∧ s'.pending = [] ∧ s'.base = lba + count := by
  refine Prog.Once.perform (fun y hy choice r y' hcall => ?_) fun _ y y' seen' hy hsame => ?_
  · have hpassing := h.stable hy
    have hpasses : (Call.fseeko (some fh) (lba + count : Nat) .set).passes choice y = some (s.inode, s.held) := by
      simp only [Call.passes, World.held, Option.bind_some, hpassing.opened, Option.map_some]
    have hmarks : Marks inode a (.fseeko (some fh) (lba + count : Nat) .set) choice y → s.held.byte? a ≠ none := by
      rintro ⟨p, hp, -, hbyte⟩
      obtain rfl := Option.some.inj (hpasses.symm.trans hp)
      exact hbyte
    refine ⟨fun hseen hmark => hmarks hmark (h.passed hseen).1, s.seek (lba + count), ⟨?_, ?_, fun hseen => ⟨?_, ?_⟩⟩, rfl, rfl⟩
    · simp only [libc, Space.onStream, hpassing.opened] at hcall
      cases hcall
      simp only [World.fseeko, World.setStream, Function.update_self]
      rfl
    · intro b hb
      exact absurd (Store.byte?_nil (lba + count) b) hb
    · exact Store.byte?_nil (lba + count) a
    · rcases hseen with hseen | hmark
      · exact (h.passed hseen).2
      · exact h.pending a (hmarks hmark)
  · obtain ⟨s', hs', hempty, hbase⟩ := hy
    exact ⟨s', hs'.stable hsame, hempty, hbase⟩

/-- A store covers addresses from its start on only. -/
theorem byte?_start {s : Store} {b : Nat} (h : s.byte? b ≠ none) : s.start ≤ b ∧ b < s.start + s.bytes.length := by
  unfold Store.byte? at h
  split at h
  · rename_i hstart
    have hlt := (List.getElem?_eq_some_iff.mp (Option.ne_none_iff_exists'.mp h).choose_spec).1
    omega
  · exact absurd rfl h

/-- What a write passes on at once comes after what has been written. -/
theorem marks_fwrite {n : Nat} {choice : Choice} (hs : x.world.streams fh = some s) (hwritable : s.writable = true)
    (hempty : s.pending = []) (h : Marks inode a (.fwrite count n (some fh)) choice x) :
    s.base ≤ a ∧ a < s.base + (((slice x.data count n).take choice.amount).take choice.flushed).length := by
  obtain ⟨p, hp, -, hbyte⟩ := h
  simp only [Call.passes, Option.bind_some, hs, hwritable, if_true, hempty, List.nil_append] at hp
  obtain rfl := Option.some.inj hp
  exact byte?_start hbyte

theorem not_marks_fwrite {n : Nat} {choice : Choice} (hs : x.world.streams fh = some s) (hreadonly : s.writable = false) :
    ¬ Marks inode a (.fwrite count n (some fh)) choice x := by
  rintro ⟨p, hp, -⟩
  simp [Call.passes, hs, hreadonly] at hp

/-- A write passes on some of the next bytes, and keeps later ones. -/
theorem fwrite_single (h : Passing inode a fh lba count x seen s) (hempty : s.pending = []) (hbase : s.base = lba + count) :
    Single inode a (fwrite count (len - count) (some fh)) seen x fun res x' seen' =>
      res ≤ len - count ∧ ∃ s', Passing inode a fh lba (count + res) x' seen' s' := by
  refine Prog.Once.perform (fun y hy choice r y' hcall => ?_) fun _ y y' seen' hy hsame => ?_
  · have hpassing := h.stable hy
    rw [libc_fwrite hpassing.opened] at hcall
    by_cases hwritable : s.writable = true
    · -- the first of the bytes that are taken are passed on, and the others are pending
      let taken := (slice y.data count (len - count)).take choice.amount
      let s' : Stream := { s with
        base := lba + count + (taken.take choice.flushed).length, pending := taken.drop choice.flushed
        cacheStart := 0, cache := [] }
      have hwrite : s.write (y.world.file s) (slice y.data count (len - count)) choice =
          (taken.length, s', (y.world.file s).pwrite s.base (taken.take choice.flushed)) := by
        rw [Stream.write, if_pos hwritable]
        simp only [hempty, List.nil_append, hbase, taken, s']
      rw [hwrite] at hcall
      cases hcall
      have hmarks (hmark : Marks inode a (.fwrite count (len - count) (some fh)) choice y) :
          lba + count ≤ a ∧ a < lba + count + (taken.take choice.flushed).length :=
        hbase ▸ marks_fwrite hpassing.opened hwritable hempty hmark
      have hlen : taken.length ≤ len - count := by
        simp only [taken, List.length_take, slice_length]
        omega
      have hsplit : (taken.take choice.flushed).length + (taken.drop choice.flushed).length = taken.length := by
        rw [← List.length_append, List.take_append_drop]
      have hheld {b : Nat} (hb : s'.held.byte? b ≠ none) :
          lba + count + (taken.take choice.flushed).length ≤ b ∧ b < lba + count + taken.length := by
        obtain ⟨hlow, hhigh⟩ := byte?_start hb
        refine ⟨hlow, ?_⟩
        change b < lba + count + (taken.take choice.flushed).length + (taken.drop choice.flushed).length at hhigh
        omega
      refine ⟨fun hseen hmark => ?_, hlen, s', ⟨?_, fun b hb => ?_, fun hseen => ?_⟩⟩
      · have hbefore := (h.passed hseen).2
        have hmark' := hmarks hmark
        omega
      · simp only [World.setStream, Function.update_self]
      · have hb' := hheld hb
        omega
      · have hpassed : a < lba + count + (taken.take choice.flushed).length := by
          rcases hseen with hseen | hmark
          · have hbefore := (h.passed hseen).2
            omega
          · exact (hmarks hmark).2
        refine ⟨?_, by omega⟩
        by_contra hb
        have hb' := hheld hb
        omega
    · have hreadonly : s.writable = false := by simpa using hwritable
      have hnot : ¬ Marks inode a (.fwrite count (len - count) (some fh)) choice y :=
        not_marks_fwrite hpassing.opened hreadonly
      rw [s.write_readonly hreadonly] at hcall
      cases hcall
      refine ⟨fun _ => hnot, Nat.zero_le _, s, ⟨?_, h.pending, fun hseen => h.passed (hseen.resolve_right hnot)⟩⟩
      simp only [World.setStream, Function.update_self]
  · obtain ⟨hle, s', hs'⟩ := hy
    exact ⟨hle, s', hs'.stable hsame⟩

theorem transfer_fwrite_single (hlen : len < 2 ^ 31) (fuel : Nat) (h : Passing inode a fh lba 0 x seen s) :
    Single inode a (transfer (fwrite · · (some fh)) (some fh) lba len fuel 0) seen x fun _ _ _ => True := by
  refine (transfer_among (fun count (x : Space × Prop) => ∃ s, Passing inode a fh lba count x.1 x.2 s) hlen
    (fun x => ⟨.refl x.1, rfl⟩) ?_ ?_ fuel (Nat.zero_le len) ⟨s, h⟩).mono fun _ _ _ => trivial
  · rintro count x x' ⟨s, hs⟩ ⟨hsame, hseen⟩
    exact ⟨s, hseen ▸ hs.stable hsame⟩
  · rintro count x - ⟨s, hs⟩
    refine (fseeko_single hs).mono ?_
    rintro _ x' ⟨s', hs', hempty, hbase⟩
    exact fwrite_single hs' hempty hbase

end vscsi.scsi

namespace vscsi.scsi_target

open scsi

variable {td : TargetData} {lun : UInt8} {cdb : Cdb} {x : Space} {ld : LunData} {lba n inode a : Nat}

/-- A write passes on the byte at an address of a file once at most. -/
theorem run_write_single (hemulates : Emulates td x.world) (hflushed : x.world.Flushed) (hwrite : cdb.get 0 ≠ 0x28)
    (hblocks : OnBlocks td lun cdb ld lba n) (fuel : Nat) (data_size : Int) :
    Single inode a (run_scsi_command fuel td lun cdb data_size) False x fun _ _ _ => True := by
  obtain ⟨number, lunfile, luntype, lunsizeinmb, time, fh, inode', hld, hinode⟩ :=
    hemulates.luns ld (List.mem_of_find?_eq_some hblocks.find)
  have hfh : ld.lun_fh = some fh := by rw [hld]; cases luntype <;> rfl
  obtain ⟨cmds, hcmds, hon⟩ := hblocks.blocks
  obtain ⟨func, hfunc, haccess⟩ := blocks_access hon
  rw [run_scsi_command_eq hemulates.type (findLun_eq hblocks.find) hcmds hfunc, haccess, access_eq, mover_write hwrite, hfh]
  refine Prog.Among.bind (Q := fun _ _ => True) ?_ (fun x => ⟨.refl x.1, rfl⟩) fun _ _ _ _ _ => trivial
  by_cases hbeyond : bound ld < ((lba + n) * ld.block_size.toNat : Nat)
  · rw [if_pos hbeyond]
    exact fun _ _ => trivial
  · obtain ⟨s, hs, -⟩ := Option.map_eq_some_iff.mp hinode
    have hpassing : Passing inode a fh (lba * ld.block_size.toNat) 0 x False s := by
      refine ⟨hs, fun b hb => absurd ?_ hb, fun hseen => hseen.elim⟩
      rw [Stream.held, hflushed fh s hs, Store.byte?_nil]
    rw [if_neg hbeyond]
    refine Prog.Among.bind (transfer_fwrite_single (access_len hbeyond) fuel hpassing) (fun x => ⟨.refl x.1, rfl⟩) ?_
    exact fun _ _ _ _ _ => trivial

end vscsi.scsi_target
