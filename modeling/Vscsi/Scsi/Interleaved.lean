import Vscsi.Scsi.Dispatch
import Vscsi.Scsi.Reading

open lib lib.Code

namespace vscsi.scsi

variable {td : TargetData} {ld : LunData} {cdb : Cdb} {fuel : Nat} {data_size : Int} {fh : Option Nat}

/-- Between the calls of a process others change files, but neither its streams
nor its data. -/
structure SameOwn (x x' : Space) : Prop where
  streams : x'.world.streams = x.world.streams
  data : x'.data = x.data

theorem SameOwn.refl (x : Space) : SameOwn x x := ⟨rfl, rfl⟩

theorem SameOwn.trans (x x' x'' : Space) (h : SameOwn x x') (h' : SameOwn x' x'') : SameOwn x x'' :=
  ⟨h'.streams.trans h.streams, h'.data.trans h.data⟩

theorem SameOwn.flushed {x x' : Space} (h : SameOwn x x') (hflushed : x.world.Flushed) : x'.world.Flushed := by
  intro n s hs
  rw [h.streams] at hs
  exact hflushed n s hs

/-- A call on a stream that passes on no bytes but such. -/
structure Puts (fh : Option Nat) (may : Nat → Nat → UInt8 → Prop) (c : Call) (choice : Choice) (x : Space) : Prop where
  on : c.On fh
  bytes : ∀ p, c.passes choice x = some p → ∀ a byte, p.2.byte? a = some byte → may p.1 a byte

/-- What a computation on one stream does while other processes run. -/
abbrev Interleaved {α : Type} (allowed : Call → Choice → Space → Prop) (fh : Option Nat)
    (may : Nat → Nat → UInt8 → Prop) (p : Code α) (x : Space) (Q : α → Space → Prop) : Prop :=
  p.Among libc allowed SameOwn (fun c choice x _ => Puts fh may c choice x) x Q

section Interleaved

variable {allowed : Call → Choice → Space → Prop} {may : Nat → Nat → UInt8 → Prop} {x : Space}

/-- The rule for a single call. -/
theorem Interleaved.call {c : Call} {Q : Reply c → Space → Prop}
    (h : ∀ y, SameOwn x y → ∀ choice r y', allowed c choice y → libc c choice y = .ok (r, y') →
      Puts fh may c choice y ∧ Q r y')
    (hstable : ∀ r y y', Q r y → SameOwn y y' → Q r y') : Interleaved allowed fh may (Prog.perform c) x Q := by
  refine Prog.Among.perform fun y hy choice r y' hallowed hcall => ?_
  obtain ⟨hputs, hpost⟩ := h y hy choice r y' hallowed hcall
  exact ⟨hputs, fun z hz => hstable r y' z hpost hz⟩

/-- With nothing pending a call that reads passes on nothing. -/
theorem libc_reads_puts {c : Call} {choice : Choice} {r : Reply c} {x' : Space} (hreads : c.Reads fh)
    (hflushed : x.world.Flushed) (hcall : libc c choice x = .ok (r, x')) : Puts fh may c choice x ∧ x'.world.Flushed := by
  obtain ⟨hnothing, hflushed'⟩ := libc_reads hreads hflushed hcall
  refine ⟨⟨hreads.on, fun p hp a byte hbyte => ?_⟩, hflushed'⟩
  have hempty : p.2 = { start := p.2.start, bytes := [] } := by rw [← hnothing p hp]
  rw [hempty, Store.byte?_nil] at hbyte
  cases hbyte

/-- A computation of reads passes on nothing. -/
theorem ReadsOnly.interleaved {α : Type} {R : α → Prop} {p : Code α} (h : ReadsOnly fh R p) (hflushed : x.world.Flushed) :
    Interleaved allowed fh may p x fun a x' => R a ∧ x'.world.Flushed := by
  exact Prog.Within.among h hflushed (fun x x' hx hrely => hrely.flushed hx)
    fun c choice x r x' hreads hx hcall => libc_reads_puts hreads hx hcall

/-- The loop rule, whatever is kept of the calls. -/
theorem transfer_among {σ Pick : Type} {sem : Sem Reply Pick σ Fault} {allowed : Call → Pick → σ → Prop} {rely : σ → σ → Prop}
    {guar : Call → Pick → σ → σ → Prop} {x : σ} {move : Nat → Nat → Code Nat} {lba len : Nat} (Inv : Nat → σ → Prop)
    (hlen : len < 2 ^ 31) (hrefl : ∀ x, rely x x) (hstable : ∀ count x x', Inv count x → rely x x' → Inv count x')
    (hround : ∀ count x, count < len → Inv count x →
      (fseeko fh (lba + count : Nat) .set).Among sem allowed rely guar x fun _ x' =>
        (move count (len - count)).Among sem allowed rely guar x' fun res x'' =>
          res ≤ len - count ∧ Inv (count + res) x'')
    (fuel : Nat) {count : Nat} (hcount : count ≤ len) (hinv : Inv count x) :
    (transfer move fh lba len fuel count).Among sem allowed rely guar x fun _ x' => Inv len x' := by
  induction fuel generalizing count x with
  | zero =>
    unfold transfer
    by_cases hmore : (count : Int) < len
    · rw [if_pos hmore]
      trivial
    · rw [if_neg hmore]
      obtain rfl : count = len := by omega
      exact fun x' hrely => hstable _ _ _ hinv hrely
  | succ fuel ih =>
    unfold transfer
    by_cases hmore : (count : Int) < len
    · rw [if_pos hmore]
      have hleft : size_t (len - count) = len - count := by
        have hsize := size_t_of_range (x := len - count) (by omega) (by omega)
        omega
      rw [← Int.natCast_add, hleft, Int.toNat_natCast]
      refine Prog.Among.bind (hround count x (by omega) hinv) hrefl ?_
      intro _ x' hmoved
      refine Prog.Among.bind hmoved hrefl ?_
      rintro res x'' ⟨hle, hinv'⟩
      have hint : int32 (count + res) = ((count + res : Nat) : Int) := by
        rw [Int.natCast_add]
        exact int32_of_range (by omega) (by omega)
      rw [hint]
      exact ih (by omega) hinv'
    · rw [if_neg hmore]
      obtain rfl : count = len := by omega
      exact fun x' hrely => hstable _ _ _ hinv hrely

/-- The loop rule. -/
theorem transfer_interleaved {move : Nat → Nat → Code Nat} {lba len : Nat} (Inv : Nat → Space → Prop)
    (hlen : len < 2 ^ 31) (hstable : ∀ count x x', Inv count x → SameOwn x x' → Inv count x')
    (hround : ∀ count x, count < len → Inv count x →
      Interleaved allowed fh may (fseeko fh (lba + count : Nat) .set) x fun _ x' =>
        Interleaved allowed fh may (move count (len - count)) x' fun res x'' =>
          res ≤ len - count ∧ Inv (count + res) x'')
    (fuel : Nat) {count : Nat} (hcount : count ≤ len) (hinv : Inv count x) :
    Interleaved allowed fh may (transfer move fh lba len fuel count) x fun _ x' => Inv len x' :=
  transfer_among Inv hlen .refl hstable hround fuel hcount hinv

end Interleaved

section Write

/-- The bytes of a write, at their places. -/
def BytesOf (inode lba len : Nat) (data : Mem) (inode' a : Nat) (byte : UInt8) : Prop :=
  inode' = inode ∧ ∃ k < len, a = lba + k ∧ byte = data k

/-- The calls that pass on no byte at an address of a file in `T`. -/
def Sparing (T : Nat → Nat → Prop) (c : Call) (choice : Choice) (x : Space) : Prop :=
  ∀ p, c.passes choice x = some p → ∀ a, T p.1 a → p.2.byte? a = none

/-- A write that has put its first bytes into its stream. Only these are pending
and, as far as their addresses are in `T`, all of these. -/
structure Staged (T : Nat → Nat → Prop) (fh inode lba : Nat) (bytes : Mem) (count : Nat) (x : Space) (s : Stream) : Prop where
  opened : x.world.streams fh = some s
  on : s.inode = inode
  others : ∀ n s', n ≠ fh → x.world.streams n = some s' → s'.pending = []
  data : x.data = bytes
  pending : ∀ a byte, s.held.byte? a = some byte → ∃ k < count, a = lba + k ∧ byte = bytes k
  kept : ∀ k < count, T inode (lba + k) → s.held.byte? (lba + k) ≠ none

variable {T : Nat → Nat → Prop} {n inode lba len count : Nat} {data : Mem} {x x' : Space} {s : Stream}

theorem Staged.stable (h : Staged T n inode lba data count x s) (hsame : SameOwn x x') :
    Staged T n inode lba data count x' s where
  opened := by rw [hsame.streams]; exact h.opened
  on := h.on
  others m s' hm hs' := h.others m s' hm (by rw [← hsame.streams]; exact hs')
  data := hsame.data.trans h.data
  pending := h.pending
  kept := h.kept

/-- Another stream is left alone when this one is stored. -/
theorem Staged.others_stored (h : Staged T n inode lba data count x s) (inode' : Nat) (f : File) (s' : Stream) {m : Nat}
    {s'' : Stream} (hm : m ≠ n) (hs : ((x.world.setFile inode' f).setStream n (some s')).streams m = some s'') :
    s''.pending = [] := by
  simp only [World.setStream, Function.update_of_ne hm, World.setFile] at hs
  exact h.others m s'' hm hs

/-- A seek passes on all that is pending. -/
theorem fseeko_staged (h : Staged T n inode lba data count x s) (hcount : count ≤ len) :
    Interleaved (Sparing T) (some n) (BytesOf inode lba len data) (fseeko (some n) (lba + count : Nat) .set) x
      fun _ x' => ∃ s', Staged T n inode lba data count x' s' ∧ s'.pending = [] ∧ s'.base = lba + count := by
  refine Interleaved.call (fun y hy choice r y' hallowed hcall => ?_) fun _ y y' hy hsame => ?_
  · have hstaged := h.stable hy
    have hpasses : (Call.fseeko (some n) (lba + count : Nat) .set).passes choice y = some (inode, s.held) := by
      simp only [Call.passes, World.held, Option.bind_some, hstaged.opened, Option.map_some, hstaged.on]
    have hspared : ∀ a, T inode a → s.held.byte? a = none := hallowed _ hpasses
    refine ⟨⟨rfl, fun p hp a byte hbyte => ?_⟩, ?_⟩
    · obtain rfl := Option.some.inj (hpasses.symm.trans hp)
      obtain ⟨k, hk, ha, hb⟩ := hstaged.pending a byte hbyte
      exact ⟨rfl, k, Nat.lt_of_lt_of_le hk hcount, ha, hb⟩
    · simp only [libc, Space.onStream, hstaged.opened] at hcall
      cases hcall
      refine ⟨s.seek (lba + count), ⟨?_, hstaged.on, ?_, hstaged.data, ?_, ?_⟩, rfl, rfl⟩
      · simp only [World.fseeko, World.setStream, Function.update_self]
        rfl
      · exact fun m s' hm hs' => hstaged.others_stored _ _ _ hm hs'
      · intro a byte hbyte
        rw [show (s.seek (lba + count)).held = { start := lba + count, bytes := [] } from rfl, Store.byte?_nil] at hbyte
        cases hbyte
      · exact fun k hk hT => absurd (hspared _ hT) (hstaged.kept k hk hT)
  · obtain ⟨s', hs', hempty, hbase⟩ := hy
    exact ⟨s', hs'.stable hsame, hempty, hbase⟩

theorem libc_fwrite (hs : x.world.streams n = some s) (i count : Nat) (choice : Choice) :
    let result := s.write (x.world.file s) (slice x.data i count) choice
    libc (.fwrite i count (some n)) choice x = .ok (result.1,
      { x with world := (x.world.setFile s.inode result.2.2).setStream n (some result.2.1) }) := by
  simp only [libc, Space.onStream, hs]
  rfl

/-- A write at the place of the next bytes puts some of them into the stream. -/
theorem fwrite_staged (h : Staged T n inode lba data count x s) (hempty : s.pending = []) (hbase : s.base = lba + count)
    (hcount : count < len) :
    Interleaved (Sparing T) (some n) (BytesOf inode lba len data) (fwrite count (len - count) (some n)) x
      fun res x' => res ≤ len - count ∧ ∃ s', Staged T n inode lba data (count + res) x' s' := by
  refine Interleaved.call (fun y hy choice r y' hallowed hcall => ?_) fun _ y y' hy hsame => ?_
  · have hstaged := h.stable hy
    rw [libc_fwrite hstaged.opened, hstaged.data] at hcall
    by_cases hwritable : s.writable = true
    · -- `res` bytes are taken, and the first `out` of them are passed on
      let res := min choice.amount (len - count)
      let out := min choice.flushed res
      let s' : Stream := { s with
        base := lba + count + out, pending := slice data (count + choice.flushed) (res - choice.flushed)
        cacheStart := 0, cache := [] }
      have hheld : s'.held =
        { start := lba + count + out, bytes := slice data (count + choice.flushed) (res - choice.flushed) } := rfl
      have htaken : (slice data count (len - count)).take choice.amount = slice data count res := take_slice _ _ _ _
      have hout : (s.pending ++ (slice data count (len - count)).take choice.amount).take choice.flushed =
          slice data count out := by
        rw [hempty, List.nil_append, htaken, take_slice]
      have hrest : (s.pending ++ (slice data count (len - count)).take choice.amount).drop choice.flushed =
          slice data (count + choice.flushed) (res - choice.flushed) := by
        rw [hempty, List.nil_append, htaken, drop_slice]
      have hpasses : (Call.fwrite count (len - count) (some n)).passes choice y =
          some (inode, { start := lba + count, bytes := slice data count out }) := by
        simp only [Call.passes, Option.bind_some, hstaged.opened, hwritable, if_true, hstaged.data, hout, hstaged.on, hbase]
      have hwrite : s.write (y.world.file s) (slice data count (len - count)) choice =
          (res, s', (y.world.file s).pwrite s.base (slice data count out)) := by
        rw [Stream.write, if_pos hwritable]
        simp only [hout, hrest, slice_length, hbase]
        rw [htaken, slice_length]
      have hspared : ∀ a, T inode a → ({ start := lba + count, bytes := slice data count out } : Store).byte? a = none :=
        hallowed _ hpasses
      rw [hwrite] at hcall
      cases hcall
      refine ⟨⟨rfl, fun p hp a byte hbyte => ?_⟩, Nat.min_le_right _ _, s', ?_, hstaged.on, ?_, rfl, ?_, ?_⟩
      · obtain rfl := Option.some.inj (hpasses.symm.trans hp)
        obtain ⟨k, hk, ha, hb⟩ := (Store.byte?_slice _ _ _ _ _ _).mp hbyte
        exact ⟨rfl, count + k, by omega, by omega, hb⟩
      · simp only [World.setStream, Function.update_self]
      · exact fun m s'' hm hs'' => hstaged.others_stored _ _ _ hm hs''
      · intro a byte hbyte
        rw [hheld] at hbyte
        obtain ⟨k, hk, ha, hb⟩ := (Store.byte?_slice _ _ _ _ _ _).mp hbyte
        exact ⟨count + choice.flushed + k, by omega, by omega, hb⟩
      · intro k hk hT hnone
        by_cases hold : k < count
        · refine hstaged.kept k hold hT ?_
          rw [Stream.held, hempty, Store.byte?_nil]
        · obtain ⟨j, rfl⟩ := Nat.exists_eq_add_of_le (Nat.not_lt.mp hold)
          by_cases hpassed : j < out
          · have hbyte := (Store.byte?_slice data (lba + count) count out (lba + (count + j)) _).mpr
              ⟨j, hpassed, by omega, rfl⟩
            rw [hspared _ hT] at hbyte
            cases hbyte
          · have hbyte := (Store.byte?_slice data (lba + count + out) (count + choice.flushed) (res - choice.flushed)
              (lba + (count + j)) _).mpr ⟨j - choice.flushed, by omega, by omega, rfl⟩
            rw [hheld, hbyte] at hnone
            cases hnone
    · have hreadonly : s.writable = false := by simpa using hwritable
      have hpasses : (Call.fwrite count (len - count) (some n)).passes choice y = none := by
        simp [Call.passes, hstaged.opened, hreadonly]
      rw [s.write_readonly hreadonly] at hcall
      cases hcall
      refine ⟨⟨rfl, fun p hp => ?_⟩, Nat.zero_le _, s, ?_, hstaged.on, ?_, rfl, hstaged.pending, hstaged.kept⟩
      · rw [hpasses] at hp
        cases hp
      · simp only [World.setStream, Function.update_self]
      · exact fun m s' hm hs' => hstaged.others_stored _ _ _ hm hs'
  · obtain ⟨hle, s', hs'⟩ := hy
    exact ⟨hle, s', hs'.stable hsame⟩

theorem transfer_fwrite_interleaved (hlen : len < 2 ^ 31) (fuel : Nat) (h : Staged T n inode lba data 0 x s) :
    Interleaved (Sparing T) (some n) (BytesOf inode lba len data)
      (transfer (fwrite · · (some n)) (some n) lba len fuel 0) x fun _ x' => ∃ s', Staged T n inode lba data len x' s' := by
  refine transfer_interleaved (fun count x' => ∃ s', Staged T n inode lba data count x' s') hlen ?_ ?_ fuel
    (Nat.zero_le len) ⟨s, h⟩
  · rintro count x x' ⟨s', hs'⟩ hsame
    exact ⟨s', hs'.stable hsame⟩
  · rintro count x hcount ⟨s', hs'⟩
    refine (fseeko_staged hs' (Nat.le_of_lt hcount)).mono ?_
    rintro _ x' ⟨s'', hs'', hempty, hbase⟩
    exact fwrite_staged hs'' hempty hbase hcount

end Write

section Read

/-- The calls that find the byte in the file, and nothing stale in the buffer. -/
def Seeing (inode a : Nat) (byte : UInt8) (c : Call) (_ : Choice) (x : Space) : Prop :=
  (x.world.fs.files inode).bytes a = byte ∧
    ∀ i count n s, c = .fread i count (some n) → x.world.streams n = some s → s.Current (x.world.file s) count

/-- The calls that find only such bytes in the file, and nothing stale in the buffer. -/
def Meeting (may : Nat → UInt8 → Prop) (inode : Nat) (c : Call) (_ : Choice) (x : Space) : Prop :=
  (∀ a, may a ((x.world.fs.files inode).bytes a)) ∧
    ∀ i count n s, c = .fread i count (some n) → x.world.streams n = some s → s.Current (x.world.file s) count

/-- A read that has got its first bytes, which may be where they were read. -/
structure Filled (may : Nat → UInt8 → Prop) (n inode lba count : Nat) (x : Space) : Prop where
  flushed : x.world.Flushed
  on : x.world.inode? n = some inode
  got : ∀ k < count, may (lba + k) (x.data k)

variable {n inode lba len count : Nat} {found : Nat → UInt8 → Prop} {may : Nat → Nat → UInt8 → Prop} {x x' : Space}

theorem Filled.stable (h : Filled found n inode lba count x) (hsame : SameOwn x x') : Filled found n inode lba count x' where
  flushed := hsame.flushed h.flushed
  on := by rw [World.inode?, hsame.streams]; exact h.on
  got k hk := by rw [hsame.data]; exact h.got k hk

theorem Filled.stream (h : Filled found n inode lba count x) :
    ∃ s, x.world.streams n = some s ∧ s.inode = inode ∧ s.pending = [] := by
  obtain ⟨s, hs, hinode⟩ := Option.map_eq_some_iff.mp h.on
  exact ⟨s, hs, hinode, h.flushed n s hs⟩

theorem fseeko_filled (h : Filled found n inode lba count x) :
    Interleaved (Meeting found inode) (some n) may (fseeko (some n) (lba + count : Nat) .set) x fun _ x' =>
      Filled found n inode lba count x' ∧ ∃ s, x'.world.streams n = some s ∧ s.pos = lba + count := by
  refine Interleaved.call (fun y hy choice r y' _ hcall => ?_) fun _ y y' hy hsame => ?_
  · have hfilled := h.stable hy
    obtain ⟨s, hs, -, -⟩ := hfilled.stream
    have hreads : (Call.fseeko (some n) (lba + count : Nat) .set).Reads (some n) := rfl
    obtain ⟨hputs, hflushed⟩ := libc_reads_puts hreads hfilled.flushed hcall
    have hon := (libc_elsewhere hreads.on hcall).inode?_eq n
    simp only [libc, Space.onStream, hs] at hcall
    cases hcall
    refine ⟨hputs, ⟨hflushed, hon.trans hfilled.on, hfilled.got⟩, s.seek (lba + count), ?_, s.pos_seek _⟩
    simp only [World.fseeko, World.setStream, Function.update_self]
    rfl
  · obtain ⟨hfilled, s, hs, hpos⟩ := hy
    exact ⟨hfilled.stable hsame, s, by rw [hsame.streams]; exact hs, hpos⟩

theorem libc_fread {s : Stream} (hs : x.world.streams n = some s) (i count : Nat) (choice : Choice) :
    let bytes := s.found (s.contents (x.world.file s)) count choice
    libc (.fread i count (some n)) choice x =
      .ok (bytes.length, { world := (x.world.fread n s count choice).2, data := blit x.data i bytes }) := by
  have hread : (s.read (x.world.file s) count choice).1 = s.found (s.contents (x.world.file s)) count choice := by
    unfold Stream.read
    cases choice.refill <;> rfl
  simp only [libc, Space.onStream, hs, ← hread]
  rfl

/-- A read gets bytes that it finds in the file. -/
theorem fread_filled (h : Filled found n inode lba count x) {s : Stream} (hs : x.world.streams n = some s)
    (hpos : s.pos = lba + count) :
    Interleaved (Meeting found inode) (some n) may (fread count (len - count) (some n)) x fun res x' =>
      res ≤ len - count ∧ Filled found n inode lba (count + res) x' := by
  refine Interleaved.call (fun y hy choice r y' hmeeting hcall => ?_) fun _ y y' hy hsame => ⟨hy.1, hy.2.stable hsame⟩
  have hfilled := h.stable hy
  obtain ⟨s', hs', hinode, hempty⟩ := hfilled.stream
  obtain rfl : s' = s := Option.some.inj (hs'.symm.trans (by rw [hy.streams]; exact hs))
  have hreads : (Call.fread count (len - count) (some n)).Reads (some n) := rfl
  obtain ⟨hputs, hflushed⟩ : Puts (some n) may _ choice y ∧ y'.world.Flushed :=
    libc_reads_puts hreads hfilled.flushed hcall
  have hon := (libc_elsewhere hreads.on hcall).inode?_eq n
  obtain ⟨hbytes, hcurrent⟩ := hmeeting
  have hcontents : s'.contents (y.world.file s') = y.world.fs.files inode := by
    rw [Stream.contents, hempty, File.pwrite_nil, World.file, hinode]
  -- the bytes are the first `res` of those in the file at the place of the read
  have hfound := (hcurrent count (len - count) n s' rfl hs').found_eq choice
  rw [hcontents, hpos, File.pread, take_slice] at hfound
  rw [libc_fread hs', hcontents, hfound, slice_length] at hcall
  cases hcall
  refine ⟨hputs, by omega, hflushed, hon.trans hfilled.on, fun k hk => ?_⟩
  simp only
  by_cases hold : k < count
  · rw [blit_of_lt _ _ hold]
    exact hfilled.got k hold
  · obtain ⟨j, rfl⟩ := Nat.exists_eq_add_of_le (Nat.not_lt.mp hold)
    rw [blit_add _ _ (by rw [slice_length]; omega)]
    simpa [slice, Nat.add_assoc] using hbytes (lba + (count + j))

theorem transfer_fread_interleaved (hlen : len < 2 ^ 31) (fuel : Nat) (h : Filled found n inode lba 0 x) :
    Interleaved (Meeting found inode) (some n) may (transfer (fread · · (some n)) (some n) lba len fuel 0) x
      fun _ x' => Filled found n inode lba len x' := by
  refine transfer_interleaved (fun count x' => Filled found n inode lba count x') hlen
    (fun count x x' hx hsame => hx.stable hsame) ?_ fuel (Nat.zero_le len) h
  intro count x hcount hx
  refine (fseeko_filled hx).mono ?_
  rintro _ x' ⟨hx', s, hs, hpos⟩
  exact fread_filled hx' hs hpos

end Read

end vscsi.scsi

namespace vscsi.scsi_target

open scsi

/-- The stream of the LUN with a number. -/
def lunStream (td : TargetData) (lun : UInt8) : Option Nat := (newest td lun).bind (·.lun_fh)

/-- The file of the LUN with a number. -/
def lunFile (td : TargetData) (w : World) (lun : UInt8) : Option Nat := (lunStream td lun).bind w.inode?

/-- The command moves blocks between its data and the LUN with a number. -/
structure OnBlocks (td : TargetData) (lun : UInt8) (cdb : Cdb) (ld : LunData) (lba n : Nat) : Prop where
  find : newest td lun = some ld
  blocks : ∃ cmds, ld.cmds = some cmds ∧ blocks cmds cdb = some (lba, n)

/-- The command is a write. -/
def PutsBlocks (td : TargetData) (lun : UInt8) (cdb : Cdb) : Prop :=
  cdb.get 0 ≠ 0x28 ∧ ∃ ld lba n, OnBlocks td lun cdb ld lba n

/-- The place in the data of a command of a byte in the file of its LUN. -/
structure Carries (td : TargetData) (w : World) (lun : UInt8) (cdb : Cdb) (inode a k : Nat) : Prop where
  file : lunFile td w lun = some inode
  blocks : ∃ ld lba n, OnBlocks td lun cdb ld lba n ∧ a = lba * ld.block_size.toNat + k ∧ k < n * ld.block_size.toNat

/-- The command starts a new image on the LUN with a number. -/
def Restarts (td : TargetData) (lun : UInt8) (cdb : Cdb) : Prop :=
  ∃ ld cmds, newest td lun = some ld ∧ ld.cmds = some cmds ∧ StartsImage cmds ld cdb

/-- A target with LUNs as `add_lun` adds them, whose files are open. -/
structure Emulates (td : TargetData) (w : World) : Prop where
  type : td.type = TARGET_TYPE_EMULATION
  luns : ∀ ld ∈ td.luns, ∃ lun lunfile luntype lunsizeinmb time fh inode,
    ld = newLun lun lunfile luntype lunsizeinmb time (some fh) ∧ w.inode? fh = some inode

/-- The bytes that a command may put into files. -/
def PutBy (td : TargetData) (w : World) (lun : UInt8) (cdb : Cdb) (data : Mem) (inode a : Nat) (byte : UInt8) : Prop :=
  PutsBlocks td lun cdb ∧ ∃ k, Carries td w lun cdb inode a k ∧ byte = data k

/-- What a command leaves on the streams: nothing but the last bytes of a write,
among them all those at addresses in `T`. -/
structure Leaves (T : Nat → Nat → Prop) (td : TargetData) (start : World) (lun : UInt8) (cdb : Cdb) (status : UInt8)
    (w : World) : Prop where
  others : ∀ n s, some n ≠ lunStream td lun → w.streams n = some s → s.pending = []
  flushed : ¬ (status = 0 ∧ PutsBlocks td lun cdb) → w.Flushed
  kept : status = 0 → PutsBlocks td lun cdb → ∀ inode a k, Carries td start lun cdb inode a k → T inode a →
    ∃ n s, lunStream td lun = some n ∧ w.streams n = some s ∧ s.pending ≠ []

section Command

variable {T : Nat → Nat → Prop} {td : TargetData} {start : World} {lun : UInt8} {cdb : Cdb} {x : Space} {ld : LunData}
  {lba n fh inode : Nat}

/-- A command moves the blocks of one LUN. -/
theorem OnBlocks.unique {ld' : LunData} {lba' n' : Nat} (h : OnBlocks td lun cdb ld lba n)
    (h' : OnBlocks td lun cdb ld' lba' n') : ld' = ld ∧ lba' = lba ∧ n' = n := by
  obtain rfl := Option.some.inj (h'.find.symm.trans h.find)
  obtain ⟨cmds, hcmds, hblocks⟩ := h.blocks
  obtain ⟨cmds', hcmds', hblocks'⟩ := h'.blocks
  obtain rfl := Option.some.inj (hcmds'.symm.trans hcmds)
  obtain ⟨rfl, rfl⟩ := Prod.mk.inj (Option.some.inj (hblocks'.symm.trans hblocks))
  exact ⟨rfl, rfl, rfl⟩

theorem Leaves.stable {status : UInt8} {x x' : Space} (h : Leaves T td start lun cdb status x.world) (hsame : SameOwn x x') :
    Leaves T td start lun cdb status x'.world where
  others n s hn hs := h.others n s hn (by rw [← hsame.streams]; exact hs)
  flushed hnot := hsame.flushed (h.flushed hnot)
  kept hstatus hputs inode a k hcarries hT := by
    obtain ⟨n, s, hn, hs, hpending⟩ := h.kept hstatus hputs inode a k hcarries hT
    exact ⟨n, s, hn, by rw [hsame.streams]; exact hs, hpending⟩

theorem Leaves.of_flushed {status : UInt8} {w : World} (h : w.Flushed) (hnot : ¬ (status = 0 ∧ PutsBlocks td lun cdb)) :
    Leaves T td start lun cdb status w where
  others n s _ hs := h n s hs
  flushed _ := h
  kept hstatus hputs := absurd ⟨hstatus, hputs⟩ hnot

/-- Which file a stream is on decides which bytes a command carries. -/
theorem Carries.on {w w' : World} (h : w'.inode? = w.inode?) {a k : Nat} (hcarries : Carries td w lun cdb inode a k) :
    Carries td w' lun cdb inode a k where
  file := by
    rw [lunFile, h]
    exact hcarries.file
  blocks := hcarries.blocks

theorem PutBy.on {w w' : World} (h : w'.inode? = w.inode?) {data : Mem} {a : Nat} {byte : UInt8}
    (hput : PutBy td w lun cdb data inode a byte) : PutBy td w' lun cdb data inode a byte := by
  obtain ⟨hputs, k, hcarries, hbyte⟩ := hput
  exact ⟨hputs, k, hcarries.on h, hbyte⟩

theorem Leaves.on {w' : World} (h : w'.inode? = start.inode?) {status : UInt8} {w : World}
    (hleaves : Leaves T td start lun cdb status w) : Leaves T td w' lun cdb status w where
  others := hleaves.others
  flushed := hleaves.flushed
  kept hstatus hputs inode a k hcarries := hleaves.kept hstatus hputs inode a k (hcarries.on h.symm)

/-- A write puts its bytes into the file of its LUN. -/
theorem access_write_interleaved (hblocks : OnBlocks td lun cdb ld lba n) (hwrite : cdb.get 0 ≠ 0x28)
    (hflushed : x.world.Flushed) (hfh : ld.lun_fh = some fh) (hinode : x.world.inode? fh = some inode) (fuel : Nat)
    (data_size : Int) :
    Interleaved (Sparing T) (lunStream td lun) (PutBy td x.world lun cdb x.data)
      (access (mover cdb ld.lun_fh) fuel ld data_size lba n) x
      fun o x' => o.ld = ld ∧ Leaves T td x.world lun cdb o.status x'.world := by
  have hputs : PutsBlocks td lun cdb := ⟨hwrite, ld, lba, n, hblocks⟩
  rw [access_eq]
  by_cases hbeyond : bound ld < ((lba + n) * ld.block_size.toNat : Nat)
  · rw [if_pos hbeyond]
    have hstatus : ¬ ((2 : UInt8) = 0 ∧ PutsBlocks td lun cdb) := fun h => absurd h.1 (by decide)
    exact fun x' hsame => ⟨rfl, .of_flushed (hsame.flushed hflushed) hstatus⟩
  · have hlen := access_len hbeyond
    have hstream : lunStream td lun = some fh := by rw [lunStream, hblocks.find, Option.bind_some, hfh]
    have hfile : lunFile td x.world lun = some inode := by rw [lunFile, hstream, Option.bind_some, hinode]
    rw [if_neg hbeyond, mover_write hwrite, hfh]
    obtain ⟨s, hs, hon⟩ := Option.map_eq_some_iff.mp hinode
    have hstaged : Staged T fh inode (lba * ld.block_size.toNat) x.data 0 x s := by
      refine ⟨hs, hon, fun n s' _ hs' => hflushed n s' hs', rfl, fun a byte hbyte => ?_, fun k hk => absurd hk (Nat.not_lt_zero k)⟩
      rw [Stream.held, hflushed fh s hs, Store.byte?_nil] at hbyte
      cases hbyte
    have hbytes : ∀ c choice y, Puts (some fh) (BytesOf inode (lba * ld.block_size.toNat) (n * ld.block_size.toNat) x.data)
        c choice y → Puts (lunStream td lun) (PutBy td x.world lun cdb x.data) c choice y := by
      rintro c choice y ⟨hcall, hbytes⟩
      refine ⟨hstream ▸ hcall, fun p hp a byte hbyte => ⟨hputs, ?_⟩⟩
      obtain ⟨hinode', k, hk, ha, hb⟩ := hbytes p hp a byte hbyte
      exact ⟨k, ⟨by rw [hfile, hinode'], ld, lba, n, hblocks, ha, hk⟩, hb⟩
    refine Prog.Among.bind ((transfer_fwrite_interleaved hlen fuel hstaged).weaken fun c choice y _ => hbytes c choice y)
      .refl ?_
    rintro _ x' ⟨s', hs'⟩ x'' hsame
    refine ⟨rfl, Leaves.stable ⟨fun m s'' hm hs'' => ?_, fun hnot => absurd ⟨rfl, hputs⟩ hnot, ?_⟩ hsame⟩
    · exact hs'.others m s'' (fun heq => hm (by rw [heq, hstream])) hs''
    · intro _ _ i a k hcarries hT
      obtain rfl : inode = i := Option.some.inj (hfile.symm.trans hcarries.file)
      obtain ⟨ld', lba', n', hblocks', rfl, hk⟩ := hcarries.blocks
      obtain ⟨rfl, rfl, rfl⟩ := hblocks.unique hblocks'
      refine ⟨fh, s', hstream, hs'.opened, fun hempty => hs'.kept k hk hT ?_⟩
      rw [Stream.held, hempty, Store.byte?_nil]

/-- What a command does while other processes run. -/
theorem run_interleaved (hemulates : Emulates td x.world) (hflushed : x.world.Flushed)
    (hrestarts : ¬ Restarts td lun cdb) (fuel : Nat) (data_size : Int) :
    Interleaved (Sparing T) (lunStream td lun) (PutBy td x.world lun cdb x.data) (run_scsi_command fuel td lun cdb data_size)
      x fun r x' => r.2 = td ∧ Leaves T td x.world lun cdb r.1 x'.world := by
  cases hfind : newest td lun with
  | none =>
    rw [run_scsi_command_crashes hemulates.type hfind]
    trivial
  | some ld =>
    obtain ⟨number, lunfile, luntype, lunsizeinmb, time, fh, inode, hld, hinode⟩ :=
      hemulates.luns ld (List.mem_of_find?_eq_some hfind)
    have hfh : ld.lun_fh = some fh := by rw [hld]; cases luntype <;> rfl
    obtain ⟨cmds, hcmds⟩ : ∃ cmds, ld.cmds = some cmds := by rw [hld]; cases luntype <;> exact ⟨_, rfl⟩
    have hfound := findLun_eq hfind
    have hreturn (o : Outcome) (x' : Space) (ho : o.ld = ld ∧ Leaves T td x.world lun cdb o.status x'.world) :
        Interleaved (Sparing T) (lunStream td lun) (PutBy td x.world lun cdb x.data)
          (return (o.status, putLun td lun o.ld)) x' fun r x' => r.2 = td ∧ Leaves T td x.world lun cdb r.1 x'.world := by
      rw [ho.1, putLun_self hfind]
      exact fun x'' hsame => ⟨rfl, ho.2.stable hsame⟩
    cases hfunc : cmds.func (cdb.get 0) with
    | none =>
      have hnone : ¬ ((2 : UInt8) = 0 ∧ PutsBlocks td lun cdb) := fun h => absurd h.1 (by decide)
      simp only [run_scsi_command, hemulates.type, hfound, hcmds, hfunc, if_true]
      exact fun x' hsame => ⟨rfl, .of_flushed (hsame.flushed hflushed) hnone⟩
    | some func =>
      rw [run_scsi_command_eq hemulates.type hfound hcmds hfunc]
      by_cases hputs : PutsBlocks td lun cdb
      · obtain ⟨hwrite, ld', lba, n, hblocks⟩ := hputs
        obtain rfl := Option.some.inj (hfind.symm.trans hblocks.find)
        obtain ⟨cmds', hcmds', hon⟩ := hblocks.blocks
        obtain rfl := Option.some.inj (hcmds.symm.trans hcmds')
        obtain ⟨func', hfunc', haccess⟩ := blocks_access hon
        obtain rfl : func = func' := Option.some.inj (hfunc.symm.trans hfunc')
        rw [haccess]
        exact Prog.Among.bind (access_write_interleaved hblocks hwrite hflushed hfh hinode fuel data_size) .refl hreturn
      · have hnot : blocks cmds cdb = none ∨ cdb.get 0 = 0x28 := by
          by_contra hboth
          rw [not_or] at hboth
          obtain ⟨p, hp⟩ := Option.ne_none_iff_exists'.mp hboth.1
          exact hputs ⟨hboth.2, ld, p.1, p.2, hfind, cmds, hcmds, hp⟩
        have hreads : ReadsOnly ld.lun_fh (·.ld = ld) (func fuel td ld cdb data_size) :=
          func_reads hfunc hnot fun hstarts => hrestarts ⟨ld, cmds, hfind, hcmds, hstarts⟩
        rw [show ld.lun_fh = lunStream td lun by rw [lunStream, hfind, Option.bind_some]] at hreads
        refine Prog.Among.bind (hreads.interleaved hflushed) .refl fun o x' ho => hreturn o x' ⟨ho.1, ?_⟩
        exact .of_flushed ho.2 fun h => hputs h.2

/-- A read returns bytes that it finds in its file, if its status is 0. -/
theorem run_read_found (hemulates : Emulates td x.world) (hflushed : x.world.Flushed) (hread : cdb.get 0 = 0x28)
    (hblocks : OnBlocks td lun cdb ld lba n) (hlun : lunFile td x.world lun = some inode) (found : Nat → UInt8 → Prop)
    (fuel : Nat) (data_size : Int) :
    Interleaved (Meeting found inode) (lunStream td lun) (PutBy td x.world lun cdb x.data)
      (run_scsi_command fuel td lun cdb data_size) x
      fun r x' => r.1 = 0 → ∀ k < n * ld.block_size.toNat, found (lba * ld.block_size.toNat + k) (x'.data k) := by
  obtain ⟨fh, hstream, hinode⟩ := Option.bind_eq_some_iff.mp hlun
  obtain ⟨ld', hfind, hfh⟩ := Option.bind_eq_some_iff.mp hstream
  obtain rfl := Option.some.inj (hfind.symm.trans hblocks.find)
  obtain ⟨cmds, hcmds, hon⟩ := hblocks.blocks
  obtain ⟨func, hfunc, haccess⟩ := blocks_access hon
  have hreturn (o : Outcome) (x' : Space)
      (ho : o.status = 0 → ∀ k < n * ld'.block_size.toNat, found (lba * ld'.block_size.toNat + k) (x'.data k)) :
      Interleaved (Meeting found inode) (lunStream td lun) (PutBy td x.world lun cdb x.data)
        (return (o.status, putLun td lun o.ld)) x' fun r x' =>
          r.1 = 0 → ∀ k < n * ld'.block_size.toNat, found (lba * ld'.block_size.toNat + k) (x'.data k) := by
    intro x'' hsame hstatus
    rw [hsame.data]
    exact ho hstatus
  rw [run_scsi_command_eq hemulates.type (findLun_eq hfind) hcmds hfunc, haccess, access_eq, hstream]
  rw [hstream] at hreturn
  refine Prog.Among.bind ?_ .refl hreturn
  by_cases hbeyond : bound ld' < ((lba + n) * ld'.block_size.toNat : Nat)
  · have hrefused : (2 : UInt8) ≠ 0 := by decide
    rw [if_pos hbeyond]
    exact fun x' _ hstatus => absurd hstatus hrefused
  · have hlen := access_len hbeyond
    rw [if_neg hbeyond, mover_read hread, hfh]
    have hfilled : Filled found fh inode (lba * ld'.block_size.toNat) 0 x :=
      ⟨hflushed, hinode, fun k hk => absurd hk (Nat.not_lt_zero k)⟩
    refine Prog.Among.bind (transfer_fread_interleaved hlen fuel hfilled) .refl fun _ x' hx' => ?_
    intro x'' hsame _
    rw [hsame.data]
    exact hx'.got

/-- A read that finds a byte in its file returns it, if its status is 0. -/
theorem run_read_interleaved (hemulates : Emulates td x.world) (hflushed : x.world.Flushed) (hread : cdb.get 0 = 0x28)
    {a k : Nat} (hcarries : Carries td x.world lun cdb inode a k) (byte : UInt8) (fuel : Nat) (data_size : Int) :
    Interleaved (Seeing inode a byte) (lunStream td lun) (PutBy td x.world lun cdb x.data)
      (run_scsi_command fuel td lun cdb data_size) x fun r x' => r.1 = 0 → x'.data k = byte := by
  obtain ⟨ld, lba, n, hblocks, rfl, hk⟩ := hcarries.blocks
  have hfound := run_read_found hemulates hflushed hread hblocks hcarries.file
    (fun a found => a = lba * ld.block_size.toNat + k → found = byte) fuel data_size
  refine (hfound.restrict fun c choice x hseeing => ⟨fun a ha => ?_, hseeing.2⟩).mono fun r x' hr hstatus => ?_
  · rw [ha]
    exact hseeing.1
  · exact hr hstatus k hk rfl

end Command

end vscsi.scsi_target
