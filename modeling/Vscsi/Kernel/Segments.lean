import Vscsi.Kernel.ScatterGather
import Vscsi.Lib.Spread

open lib

namespace vscsi

/-- The addresses of a segment's bytes. A page without an address has none. -/
def Scatterlist.places (sg : Scatterlist) : List Addr :=
  match sg.page_address with
  | none => []
  | some kaddr => List.range' (kaddr + sg.offset) sg.length

/-- The addresses of the bytes of a table, its segments' concatenation. -/
def addresses (table : List Scatterlist) : List Addr := table.flatMap Scatterlist.places

/-- No byte belongs to two segments. -/
def NonOverlapping (table : List Scatterlist) : Prop :=
  table.Pairwise fun sg sg' => ∀ i ∈ sg.places, i ∉ sg'.places

instance NonOverlapping.decidable (table : List Scatterlist) : Decidable (NonOverlapping table) :=
  inferInstanceAs (Decidable (table.Pairwise fun sg sg' => ∀ i ∈ sg.places, i ∉ sg'.places))

/-- Every page has an address and every byte of the user's buffer can be
accessed. -/
structure NoFault (user : UserMem) (buffer : Nat) (table : List Scatterlist) : Prop where
  mapped : ∀ sg ∈ table, sg.page_address.isSome
  accessible : user.Accessible buffer (total table)

/-- The copy of segment `n` meets an unmapped page or a fault. -/
def FailsAt (user : UserMem) (buffer : Nat) (table : List Scatterlist) (n : Nat) : Prop :=
  ∃ sg, table[n]? = some sg ∧
    (sg.page_address = none ∨ ¬ user.Accessible (buffer + total (table.take n)) sg.length)

@[simp] theorem total_nil : total [] = 0 := rfl

@[simp] theorem addresses_nil : addresses [] = [] := rfl

@[simp] theorem addresses_cons (sg : Scatterlist) (table : List Scatterlist) :
    addresses (sg :: table) = sg.places ++ addresses table := List.flatMap_cons

@[simp] theorem addresses_append (front back : List Scatterlist) :
    addresses (front ++ back) = addresses front ++ addresses back := List.flatMap_append

theorem Scatterlist.places_of_some {sg : Scatterlist} {kaddr : Addr} (h : sg.page_address = some kaddr) :
    sg.places = List.range' (kaddr + sg.offset) sg.length := by rw [places, h]

theorem Scatterlist.places_nodup (sg : Scatterlist) : sg.places.Nodup := by
  unfold places
  cases sg.page_address with
  | none => exact List.nodup_nil
  | some kaddr => exact List.nodup_range'

theorem NonOverlapping.nodup {table : List Scatterlist} (h : NonOverlapping table) : (addresses table).Nodup := by
  induction table with
  | nil => exact List.nodup_nil
  | cons sg table ih =>
    obtain ⟨hfirst, hrest⟩ := List.pairwise_cons.mp h
    rw [addresses_cons, List.nodup_append]
    refine ⟨sg.places_nodup, ih hrest, fun i hi j hj heq => ?_⟩
    obtain ⟨sg', hsg', hplace⟩ := List.mem_flatMap.mp hj
    exact hfirst sg' hsg' i hi (heq ▸ hplace)

theorem addresses_length {table : List Scatterlist} (h : ∀ sg ∈ table, sg.page_address.isSome) :
    (addresses table).length = total table := by
  induction table with
  | nil => rfl
  | cons sg table ih =>
    obtain ⟨kaddr, hkaddr⟩ := Option.isSome_iff_exists.mp (h sg (.head _))
    rw [addresses_cons, List.length_append, Scatterlist.places_of_some hkaddr, List.length_range', total_cons,
      ih fun sg' hsg' => h sg' (.tail _ hsg')]

theorem NoFault.mono {user user' : UserMem} {buffer : Nat} {table : List Scatterlist} (h : NoFault user buffer table)
    (hsome : ∀ i, (user' i).isSome = (user i).isSome) : NoFault user' buffer table :=
  ⟨h.mapped, fun i hlo hhi => (hsome i).trans (h.accessible i hlo hhi)⟩

/-- A failing segment is one of a prefix that has a fault. -/
theorem FailsAt.fault {user : UserMem} {buffer : Nat} {table : List Scatterlist} {n : Nat}
    (h : FailsAt user buffer table n) : ¬ NoFault user buffer (table.take (n + 1)) := by
  obtain ⟨sg, hsg, hfails⟩ := h
  have htake : table.take (n + 1) = table.take n ++ [sg] := by
    rw [List.take_add_one, hsg, Option.toList_some]
  rintro ⟨hmapped, haccessible⟩
  rcases hfails with hnone | hfault
  · have hsome := hmapped sg (by rw [htake]; simp)
    rw [hnone] at hsome
    cases hsome
  · have htotal : total (table.take (n + 1)) = total (table.take n) + sg.length := by simp [htake, total]
    rw [htotal, UserMem.accessible_add] at haccessible
    exact hfault haccessible.2

namespace device

variable (mem : Mem) (user : UserMem) (buffer : Nat)

theorem copy_from_user_sg_append (front back : List Scatterlist) :
    copy_from_user_sg mem user buffer (front ++ back) =
      if (copy_from_user_sg mem user buffer front).1 = 0 then
        copy_from_user_sg (copy_from_user_sg mem user buffer front).2 user (buffer + total front) back
      else copy_from_user_sg mem user buffer front := by
  induction front generalizing mem buffer with
  | nil => rfl
  | cons sg front ih =>
    rw [List.cons_append, total_cons, ← Nat.add_assoc]
    cases hkaddr : sg.page_address with
    | none => simp [copy_from_user_sg, hkaddr]
    | some kaddr =>
      have hle := copy_from_user_length_le user buffer sg.length
      by_cases hall : (copy_from_user user buffer sg.length).length = sg.length
      · simp only [copy_from_user_sg, hkaddr, if_pos hall, ih]
      · have hleft : sg.length - (copy_from_user user buffer sg.length).length ≠ 0 := by omega
        simp only [copy_from_user_sg, hkaddr, if_neg hall, if_neg hleft]

theorem copy_to_user_sg_append (front back : List Scatterlist) :
    copy_to_user_sg user buffer mem (front ++ back) =
      if (copy_to_user_sg user buffer mem front).1 = 0 then
        copy_to_user_sg (copy_to_user_sg user buffer mem front).2 (buffer + total front) mem back
      else copy_to_user_sg user buffer mem front := by
  induction front generalizing user buffer with
  | nil => rfl
  | cons sg front ih =>
    rw [List.cons_append, total_cons, ← Nat.add_assoc]
    cases hkaddr : sg.page_address with
    | none => simp [copy_to_user_sg, hkaddr]
    | some kaddr =>
      rcases hcopied : copy_to_user user buffer (slice mem (kaddr + sg.offset) sg.length) with ⟨left, user'⟩
      cases left with
      | zero => simp only [copy_to_user_sg, hkaddr, hcopied, ih]
      | succ left => simp only [copy_to_user_sg, hkaddr, hcopied, Nat.succ_ne_zero, if_false]

/-- Over mapped pages the bytes that are there go to the table's addresses in
order, also when they end in a fault. -/
theorem copy_from_user_sg_snd {table : List Scatterlist} (h : ∀ sg ∈ table, sg.page_address.isSome) :
    (copy_from_user_sg mem user buffer table).2 =
      spread mem (addresses table) (copy_from_user user buffer (total table)) := by
  induction table generalizing mem buffer with
  | nil => rfl
  | cons sg table ih =>
    obtain ⟨kaddr, hkaddr⟩ := Option.isSome_iff_exists.mp (h sg (.head _))
    have hle := copy_from_user_length_le user buffer sg.length
    have hplaces : sg.places.length = sg.length := by
      rw [Scatterlist.places_of_some hkaddr, List.length_range']
    have hblit := blit_eq_spread mem (kaddr + sg.offset) hle
    rw [← Scatterlist.places_of_some hkaddr] at hblit
    rw [addresses_cons, total_cons, copy_from_user_add]
    by_cases hall : (copy_from_user user buffer sg.length).length = sg.length
    · simp only [copy_from_user_sg, hkaddr, if_pos hall]
      rw [ih _ _ fun sg' hsg' => h sg' (.tail _ hsg'), hblit, spread_append _ (hall.trans hplaces.symm)]
    · simp only [copy_from_user_sg, hkaddr, if_neg hall, List.append_nil]
      rw [hblit, spread_append_of_le _ (by rw [hplaces]; exact hle)]

/-- Over mapped pages the user gets what a flat copy of the table's bytes
gives, also up to a fault. -/
theorem copy_to_user_sg_snd {table : List Scatterlist} (h : ∀ sg ∈ table, sg.page_address.isSome) :
    (copy_to_user_sg user buffer mem table).2 = (copy_to_user user buffer ((addresses table).map mem)).2 := by
  induction table generalizing user buffer with
  | nil => rfl
  | cons sg table ih =>
    obtain ⟨kaddr, hkaddr⟩ := Option.isSome_iff_exists.mp (h sg (.head _))
    have hslice : slice mem (kaddr + sg.offset) sg.length = sg.places.map mem := by
      rw [slice_eq_map, Scatterlist.places_of_some hkaddr]
    have hlength : (sg.places.map mem).length = sg.length := by rw [← hslice, slice_length]
    rw [addresses_cons, List.map_append, copy_to_user_append, hlength]
    rcases hcopied : copy_to_user user buffer (sg.places.map mem) with ⟨left, user'⟩
    cases left with
    | zero =>
      simp only [copy_to_user_sg, hkaddr, hslice, hcopied, if_true]
      exact ih _ _ fun sg' hsg' => h sg' (.tail _ hsg')
    | succ left => simp only [copy_to_user_sg, hkaddr, hslice, hcopied, Nat.succ_ne_zero, if_false]

theorem copy_from_user_sg_noFault (table : List Scatterlist) :
    (copy_from_user_sg mem user buffer table).1 = 0 ↔ NoFault user buffer table :=
  (copy_from_user_sg_eq_zero mem user buffer table).trans ⟨fun h => ⟨h.1, h.2⟩, fun h => ⟨h.mapped, h.accessible⟩⟩

theorem copy_to_user_sg_noFault (table : List Scatterlist) :
    (copy_to_user_sg user buffer mem table).1 = 0 ↔ NoFault user buffer table := by
  induction table generalizing user buffer with
  | nil => exact iff_of_true rfl ⟨by simp, by simp⟩
  | cons sg table ih =>
    cases hkaddr : sg.page_address with
    | none =>
      have hnot : ¬ NoFault user buffer (sg :: table) := by
        intro hno
        have hsome := hno.mapped sg (.head _)
        rw [hkaddr] at hsome
        cases hsome
      simp [copy_to_user_sg, hkaddr, hnot]
    | some kaddr =>
      have hzero := copy_to_user_eq_zero user buffer (slice mem (kaddr + sg.offset) sg.length)
      have hkept := copy_to_user_accessible user buffer (slice mem (kaddr + sg.offset) sg.length)
      rw [slice_length] at hzero
      have hsplit : NoFault user buffer (sg :: table) ↔
          user.Accessible buffer sg.length ∧ NoFault user (buffer + sg.length) table := by
        constructor
        · intro hno
          have haccessible := hno.accessible
          rw [total_cons, UserMem.accessible_add] at haccessible
          exact ⟨haccessible.1, fun sg' hsg' => hno.mapped sg' (.tail _ hsg'), haccessible.2⟩
        · rintro ⟨hfirst, hmapped, hrest⟩
          refine ⟨fun sg' hsg' => ?_, by rw [total_cons, UserMem.accessible_add]; exact ⟨hfirst, hrest⟩⟩
          rcases List.mem_cons.mp hsg' with rfl | hsg'
          · rw [hkaddr]
            rfl
          · exact hmapped sg' hsg'
      rw [hsplit, ← hzero]
      rcases hcopied : copy_to_user user buffer (slice mem (kaddr + sg.offset) sg.length) with ⟨left, user'⟩
      rw [hcopied] at hkept
      cases left with
      | zero =>
        simp only [copy_to_user_sg, hkaddr, hcopied, ih, true_and]
        exact ⟨fun h => ⟨h.mapped, (hkept _ _).mp h.accessible⟩, fun h => ⟨h.mapped, (hkept _ _).mpr h.accessible⟩⟩
      | succ left => simp only [copy_to_user_sg, hkaddr, hcopied, Nat.succ_ne_zero, false_and]

/-- Bytes outside the segments never change. -/
theorem copy_from_user_sg_outside {table : List Scatterlist} {i : Nat} (h : i ∉ addresses table) :
    (copy_from_user_sg mem user buffer table).2 i = mem i := by
  induction table generalizing mem buffer with
  | nil => rfl
  | cons sg table ih =>
    rw [addresses_cons, List.mem_append, not_or] at h
    cases hkaddr : sg.page_address with
    | none => simp only [copy_from_user_sg, hkaddr]
    | some kaddr =>
      have hle := copy_from_user_length_le user buffer sg.length
      have hfirst : spread mem sg.places (copy_from_user user buffer sg.length) i = mem i :=
        spread_outside mem h.1 _
      rw [Scatterlist.places_of_some hkaddr, ← blit_eq_spread mem _ hle] at hfirst
      by_cases hall : (copy_from_user user buffer sg.length).length = sg.length
      · simp only [copy_from_user_sg, hkaddr, if_pos hall]
        rw [ih _ _ h.2, hfirst]
      · simp only [copy_from_user_sg, hkaddr, if_neg hall, hfirst]

theorem copy_to_user_sg_outside {table : List Scatterlist} {i : Nat}
    (h : i < buffer ∨ buffer + total table ≤ i) : (copy_to_user_sg user buffer mem table).2 i = user i := by
  induction table generalizing user buffer with
  | nil => rfl
  | cons sg table ih =>
    rw [total_cons] at h
    cases hkaddr : sg.page_address with
    | none => simp only [copy_to_user_sg, hkaddr]
    | some kaddr =>
      have hfirst : (copy_to_user user buffer (slice mem (kaddr + sg.offset) sg.length)).2 i = user i :=
        copy_to_user_outside user (by rw [slice_length]; omega)
      rcases hcopied : copy_to_user user buffer (slice mem (kaddr + sg.offset) sg.length) with ⟨left, user'⟩
      rw [hcopied] at hfirst
      cases left with
      | zero =>
        simp only [copy_to_user_sg, hkaddr, hcopied]
        rw [ih _ _ (by omega)]
        exact hfirst
      | succ left =>
        simp only [copy_to_user_sg, hkaddr, hcopied]
        exact hfirst

end device

namespace Hba

/-- The same command with its data in another buffer. -/
def withBuffer (k : Hba) (sc : Addr) (request_buffer : RequestBuffer) : Hba :=
  k.modifyCmnd sc fun c => { c with request_buffer }

variable (k : Hba) (sc : Addr) (b : RequestBuffer)

@[simp] theorem withBuffer_session : (k.withBuffer sc b).session = k.session := rfl
@[simp] theorem withBuffer_tasks : (k.withBuffer sc b).tasks = k.tasks := rfl
@[simp] theorem withBuffer_mem : (k.withBuffer sc b).mem = k.mem := rfl

theorem withBuffer_self : (k.withBuffer sc b).cmnds sc = { k.cmnds sc with request_buffer := b } := by
  simp [withBuffer]

theorem withBuffer_of_ne {c : Addr} (h : c ≠ sc) : (k.withBuffer sc b).cmnds c = k.cmnds c := by
  simp [withBuffer, h]

/-- A change that leaves the buffer alone does not see which it is. -/
theorem withBuffer_modifyCmnd (c : Addr) {f : ScsiCmnd → ScsiCmnd}
    (h : ∀ cmnd, f { cmnd with request_buffer := b } = { f cmnd with request_buffer := b }) :
    (k.withBuffer sc b).modifyCmnd c f = (k.modifyCmnd c f).withBuffer sc b := by
  unfold withBuffer modifyCmnd
  congr 1
  by_cases hc : c = sc
  · subst hc
    simp [h]
  · simp [hc, Ne.symm hc, Function.update_comm hc]

end Hba

namespace device

variable (k : Hba) (sc : Addr) (b : RequestBuffer)

theorem scsitap_task_to_user_withBuffer (task : Addr) (user : UserMem) (type : UInt8) :
    scsitap_task_to_user (k.withBuffer sc b) task user type = scsitap_task_to_user k task user type := by
  unfold scsitap_task_to_user
  by_cases h : (k.tasks task).sc = sc
  · simp only [Hba.withBuffer_tasks, h, Hba.withBuffer_self]
  · simp only [Hba.withBuffer_tasks, Hba.withBuffer_of_ne k sc b h]

theorem task_of_cmd_withBuffer (cmd_number : UInt32) :
    hba.task_of_cmd (k.withBuffer sc b) cmd_number = hba.task_of_cmd k cmd_number := rfl

theorem scsitap_complete_task_withBuffer (task : Addr) :
    hba.scsitap_complete_task (k.withBuffer sc b) task = (hba.scsitap_complete_task k task).withBuffer sc b := by
  let k' : Hba := { k with session := { k.session with
    cmd_numbers := k.session.cmd_numbers - 1
    scsitap_queue := k.session.scsitap_queue.erase task } }
  have hcleared : (k'.withBuffer sc b).modifyCmnd (k.tasks task).sc (fun c => { c with SCp_ptr := none }) =
      (k'.modifyCmnd (k.tasks task).sc fun c => { c with SCp_ptr := none }).withBuffer sc b :=
    k'.withBuffer_modifyCmnd sc b _ fun _ => rfl
  unfold hba.scsitap_complete_task
  by_cases haborted : (k.tasks task).flags = .aborted
  · simp only [Hba.modifyCmnd_tasks, Hba.withBuffer_tasks, haborted, ne_eq, not_true_eq_false, if_false]
    exact hcleared
  · simp only [Hba.modifyCmnd_tasks, Hba.withBuffer_tasks, haborted, ne_eq, not_false_eq_true, if_true]
    exact congrArg (Hba.scsi_done · (k.tasks task).sc) hcleared

/-- A table in the place of a flat buffer: the same bytes in the same order. -/
structure Splits (bufflen : Nat) (address : Addr) (table : List Scatterlist) : Prop where
  mapped : ∀ sg ∈ table, sg.page_address.isSome
  places : addresses table = List.range' address bufflen

namespace Splits

variable {bufflen : Nat} {address : Addr} {table : List Scatterlist} (h : Splits bufflen address table)

include h

theorem total_eq : total table = bufflen := by
  rw [← addresses_length h.mapped, h.places, List.length_range']

/-- Copying out over the table is the flat copy, faults included. -/
theorem copy_to_user_sg (mem : Mem) (user : UserMem) (buffer : Nat) :
    (copy_to_user_sg user buffer mem table).2 = (copy_to_user user buffer (slice mem address bufflen)).2 ∧
      ((device.copy_to_user_sg user buffer mem table).1 = 0 ↔
        (copy_to_user user buffer (slice mem address bufflen)).1 = 0) := by
  constructor
  · rw [copy_to_user_sg_snd mem user buffer h.mapped, h.places, ← slice_eq_map]
  · rw [copy_to_user_sg_noFault, copy_to_user_eq_zero, slice_length, ← h.total_eq]
    exact ⟨fun hno => hno.accessible, fun haccessible => ⟨h.mapped, haccessible⟩⟩

theorem copy_from_user_sg (mem : Mem) (user : UserMem) (buffer : Nat) :
    (copy_from_user_sg mem user buffer table).2 = blit mem address (copy_from_user user buffer bufflen) ∧
      ((device.copy_from_user_sg mem user buffer table).1 = 0 ↔
        (copy_from_user user buffer bufflen).length = bufflen) := by
  constructor
  · rw [copy_from_user_sg_snd mem user buffer h.mapped, h.places, h.total_eq,
      blit_eq_spread _ _ (copy_from_user_length_le user buffer bufflen)]
  · rw [copy_from_user_sg_noFault, copy_from_user_length_iff, ← h.total_eq]
    exact ⟨fun hno => hno.accessible, fun haccessible => ⟨h.mapped, haccessible⟩⟩

end Splits

section branches

variable {k : Hba} {sc : Addr} {table : List Scatterlist} {address : Addr}
  (hsg : (k.cmnds sc).request_buffer = .sg table)
  (h : Splits (k.cmnds sc).request_bufflen.toNat address table)

include hsg h

/-- A read cannot tell the scatter-gather branch from the flat one. -/
theorem scsitap_ctl_read_flat (f_pos : Nat) (user : UserMem) (count : Nat) :
    scsitap_ctl_read (k.withBuffer sc (.flat address)) f_pos user count = scsitap_ctl_read k f_pos user count := by
  unfold scsitap_ctl_read
  simp only [Hba.withBuffer_session, Hba.withBuffer_tasks, Hba.withBuffer_mem, scsitap_task_to_user_withBuffer,
    task_of_cmd_withBuffer]
  cases hba.task_of_cmd k (UInt32.ofNat f_pos) with
  | none => rfl
  | some task =>
    by_cases hsc : (k.tasks task).sc = sc
    · simp only [hsc, Hba.withBuffer_self, hsg]
      rcases scsitap_task_to_user k task user 68 with ⟨ret, user'⟩
      obtain ⟨hsnd, hfst⟩ := h.copy_to_user_sg k.mem user' ret.toNat
      rcases hflat : copy_to_user user' ret.toNat
        (slice k.mem address (k.cmnds sc).request_bufflen.toNat) with ⟨_ | left, after⟩
      · rcases hcopied : copy_to_user_sg user' ret.toNat k.mem table with ⟨_ | left, after'⟩
        · rw [hflat, hcopied] at hsnd
          rw [show after' = after from hsnd]
          rfl
        · rw [hflat, hcopied] at hfst
          exact absurd (hfst.mpr rfl) (Nat.succ_ne_zero left)
      · rcases hcopied : copy_to_user_sg user' ret.toNat k.mem table with ⟨_ | left', after'⟩
        · rw [hflat, hcopied] at hfst
          exact absurd (hfst.mp rfl) (Nat.succ_ne_zero left)
        · rw [hflat, hcopied] at hsnd
          rw [show after' = after from hsnd]
          rfl
    · simp only [Hba.withBuffer_of_ne k sc _ hsc]
      rfl

/-- Nor can a completion, up to the buffer's own description. -/
theorem receivePayload_flat (c : Addr) (user : UserMem) (count : Nat) (scsi_status : UInt8) :
    receivePayload (k.withBuffer sc (.flat address)) c user count scsi_status =
      ((receivePayload k c user count scsi_status).1,
        (receivePayload k c user count scsi_status).2.withBuffer sc (.flat address)) := by
  have hcleared := fun mem => ({ k with mem } : Hba).withBuffer_modifyCmnd sc (.flat address) c
    (f := hba.set_sensedata) fun _ => rfl
  have hillegal := k.withBuffer_modifyCmnd sc (.flat address) c (f := hba.set_sensedata_illegal) fun _ => rfl
  have hsense := k.withBuffer_modifyCmnd sc (.flat address) c
    (f := fun c => { c with sense_buffer := blit c.sense_buffer 0 (copy_from_user user 6 14) }) fun _ => rfl
  unfold receivePayload
  by_cases hzero : scsi_status = 0
  · by_cases hcount : count > 6
    · by_cases hsc : c = sc
      · subst hsc
        obtain ⟨hsnd, hfst⟩ := h.copy_from_user_sg k.mem user 6
        simp only [if_pos hzero, if_pos hcount, Hba.withBuffer_self, Hba.withBuffer_mem, hsg, ← hsnd]
        rcases hcopied : copy_from_user_sg k.mem user 6 table with ⟨_ | r, mem⟩
        · rw [hcopied] at hfst
          rw [if_pos (hfst.mp rfl)]
          exact congrArg (some 0, ·) (hcleared mem)
        · rw [hcopied] at hfst
          rw [if_neg (mt hfst.mpr (Nat.succ_ne_zero r))]
          rfl
      · simp only [if_pos hzero, if_pos hcount, Hba.withBuffer_of_ne k sc _ hsc, Hba.withBuffer_mem]
        cases (k.cmnds c).request_buffer with
        | flat start =>
          by_cases hall : (copy_from_user user 6 (k.cmnds c).request_bufflen.toNat).length =
              (k.cmnds c).request_bufflen.toNat
          · simp only [if_pos hall]
            exact congrArg (some 0, ·)
              (hcleared (blit k.mem start (copy_from_user user 6 (k.cmnds c).request_bufflen.toNat)))
          · simp only [if_neg hall]
            rfl
        | sg other =>
          rcases hcopied : copy_from_user_sg k.mem user 6 other with ⟨_ | r, mem⟩
          · simp only [hcopied]
            exact congrArg (some 0, ·) (hcleared mem)
          · simp only [hcopied]
            rfl
    · simp only [if_pos hzero, if_neg hcount]
      exact congrArg (some 0, ·) (hcleared k.mem)
  · by_cases htop : scsi_status >>> 7 = 0
    · simp only [if_neg hzero, if_pos htop, hillegal]
    · simp only [if_neg hzero, if_neg htop]
      split <;> rw [hsense]

theorem scsitap_ctl_write_flat (user : UserMem) (count : Nat) :
    scsitap_ctl_write (k.withBuffer sc (.flat address)) user count =
      ((scsitap_ctl_write k user count).1, (scsitap_ctl_write k user count).2.withBuffer sc (.flat address)) := by
  unfold scsitap_ctl_write
  by_cases hready : k.session.flags ≠ .ready
  · rw [if_pos (show (k.withBuffer sc (.flat address)).session.flags ≠ .ready from hready), if_pos hready]
  rw [if_neg (show ¬ (k.withBuffer sc (.flat address)).session.flags ≠ .ready from hready), if_neg hready]
  by_cases htype : get_user user 0 = 68
  · rw [if_pos htype, if_pos htype]
    by_cases hnumber : (copy_from_user user 1 4).length ≠ 4
    · simp only [if_pos hnumber]
    simp only [if_neg hnumber, task_of_cmd_withBuffer]
    rcases hba.task_of_cmd k (unle32 (copy_from_user user 1 4)) with _ | task
    · simp only
    · simp only [Hba.withBuffer_tasks, receivePayload_flat hsg h]
      rcases receivePayload k (k.tasks task).sc user count (get_user user 5) with ⟨_ | scsi_status, k'⟩
      · rfl
      · have hresult := k'.withBuffer_modifyCmnd sc (.flat address) (k.tasks task).sc
          (f := fun c => { c with result := scsi_status.toUInt32 }) fun _ => rfl
        simp only [hresult, scsitap_complete_task_withBuffer]
  · rw [if_neg htype, if_neg htype]

end branches

section table

variable {mem : Mem} {user : UserMem} {buffer : Nat} {table : List Scatterlist}

/-- Without a fault the first bytes of the buffer go to the table's addresses. -/
theorem copy_from_user_sg_eq (mem : Mem) (h : NoFault user buffer table) : copy_from_user_sg mem user buffer table =
    (0, spread mem (addresses table) (slice user.contents buffer (total table))) := by
  apply Prod.ext
  · exact (copy_from_user_sg_noFault mem user buffer table).mpr h
  · rw [copy_from_user_sg_snd mem user buffer h.mapped, copy_from_user_accessible h.accessible]

/-- Without a fault the user gets the bytes at the table's addresses. -/
theorem copy_to_user_sg_eq (mem : Mem) (h : NoFault user buffer table) :
    copy_to_user_sg user buffer mem table = copy_to_user user buffer ((addresses table).map mem) := by
  apply Prod.ext
  · have hflat : (copy_to_user user buffer ((addresses table).map mem)).1 = 0 := by
      rw [copy_to_user_eq_zero, List.length_map, addresses_length h.mapped]
      exact h.accessible
    rw [hflat, copy_to_user_sg_noFault]
    exact h
  · exact copy_to_user_sg_snd mem user buffer h.mapped

/-- What the buffer holds after the segments have been copied out. -/
theorem copy_to_user_sg_contents (mem : Mem) (h : NoFault user buffer table) :
    slice (copy_to_user_sg user buffer mem table).2.contents buffer (total table) = (addresses table).map mem := by
  have hlength : ((addresses table).map mem).length = total table := by
    rw [List.length_map, addresses_length h.mapped]
  have haccessible : user.Accessible buffer ((addresses table).map mem).length := by
    rw [hlength]
    exact h.accessible
  rw [copy_to_user_sg_eq mem h, ← hlength,
    ← copy_from_user_accessible ((copy_to_user_accessible user buffer _ buffer _).mpr haccessible)]
  exact copy_from_user_copy_to_user haccessible

/-- A segment that fails ends the copy there. -/
theorem copy_from_user_sg_stops {n : Nat} (mem : Mem) (h : FailsAt user buffer table n) :
    (copy_from_user_sg mem user buffer table).1 ≠ 0 ∧
      copy_from_user_sg mem user buffer table = copy_from_user_sg mem user buffer (table.take (n + 1)) := by
  have hfault := mt (copy_from_user_sg_noFault mem user buffer (table.take (n + 1))).mp h.fault
  have hstop := copy_from_user_sg_append mem user buffer (table.take (n + 1)) (table.drop (n + 1))
  rw [List.take_append_drop, if_neg hfault] at hstop
  rw [hstop]
  exact ⟨hfault, rfl⟩

theorem copy_to_user_sg_stops {n : Nat} (mem : Mem) (h : FailsAt user buffer table n) :
    (copy_to_user_sg user buffer mem table).1 ≠ 0 ∧
      copy_to_user_sg user buffer mem table = copy_to_user_sg user buffer mem (table.take (n + 1)) := by
  have hfault := mt (copy_to_user_sg_noFault mem user buffer (table.take (n + 1))).mp h.fault
  have hstop := copy_to_user_sg_append mem user buffer (table.take (n + 1)) (table.drop (n + 1))
  rw [List.take_append_drop, if_neg hfault] at hstop
  rw [hstop]
  exact ⟨hfault, rfl⟩

end table

/-- What the two copies over a table do: only the concatenation of its segments
matters. The kernel's memory is only read by the copy out. -/
structure SgCopies (table : List Scatterlist) : Prop where
  /-- The bytes that were copied in are those that are copied out. -/
  fills : ∀ mem user buffer, NoFault user buffer table →
    ∃ mem', copy_from_user_sg mem user buffer table = (0, mem') ∧
      ∀ user' buffer', NoFault user' buffer' table →
        ∃ user'', copy_to_user_sg user' buffer' mem' table = (0, user'') ∧
          slice user''.contents buffer' (total table) = slice user.contents buffer (total table)
  keeps : ∀ mem user buffer, NoFault user buffer table →
    ∃ user', copy_to_user_sg user buffer mem table = (0, user') ∧
      copy_from_user_sg mem user' buffer table = (0, mem)
  /-- Neither side changes elsewhere, with a fault or without. -/
  outside : ∀ mem user buffer,
    (∀ i ∉ addresses table, (copy_from_user_sg mem user buffer table).2 i = mem i) ∧
    (∀ i, i < buffer ∨ buffer + total table ≤ i → (copy_to_user_sg user buffer mem table).2 i = user i)
  concatenation : ∀ table', addresses table' = addresses table → ∀ mem user buffer,
    NoFault user buffer table → NoFault user buffer table' →
      copy_from_user_sg mem user buffer table' = copy_from_user_sg mem user buffer table ∧
      copy_to_user_sg user buffer mem table' = copy_to_user_sg user buffer mem table
  /-- Segments that follow each other in memory are the flat buffer. -/
  flat : ∀ address, addresses table = List.range' address (total table) → ∀ mem user buffer,
    NoFault user buffer table →
      copy_from_user_sg mem user buffer table = (0, blit mem address (slice user.contents buffer (total table))) ∧
      copy_to_user_sg user buffer mem table = copy_to_user user buffer (slice mem address (total table))
  /-- The system calls cannot tell them from it, with a fault or without. -/
  branches : ∀ (k : Hba) sc address, (k.cmnds sc).request_buffer = .sg table →
    Splits (k.cmnds sc).request_bufflen.toNat address table → ∀ user count,
      (∀ f_pos, scsitap_ctl_read (k.withBuffer sc (.flat address)) f_pos user count =
        scsitap_ctl_read k f_pos user count) ∧
      scsitap_ctl_write (k.withBuffer sc (.flat address)) user count =
        ((scsitap_ctl_write k user count).1, (scsitap_ctl_write k user count).2.withBuffer sc (.flat address))
  /-- A segment that fails is reported and what comes after it untouched. -/
  stops : ∀ mem user buffer n, FailsAt user buffer table n →
    ((copy_from_user_sg mem user buffer table).1 ≠ 0 ∧
      ∀ i ∈ addresses (table.drop (n + 1)), (copy_from_user_sg mem user buffer table).2 i = mem i) ∧
    ((copy_to_user_sg user buffer mem table).1 ≠ 0 ∧
      ∀ i, buffer + total (table.take (n + 1)) ≤ i → (copy_to_user_sg user buffer mem table).2 i = user i)

/-- Scatter-gather copies over segments that do not overlap are flat copies. -/
theorem nonOverlapping_copies (table : List Scatterlist) (h : NonOverlapping table) : SgCopies table where
  fills mem user buffer hno := by
    refine ⟨_, copy_from_user_sg_eq mem hno, fun user' buffer' hno' => ?_⟩
    refine ⟨_, Prod.ext ((copy_to_user_sg_noFault _ user' buffer' table).mpr hno') rfl, ?_⟩
    rw [copy_to_user_sg_contents _ hno', map_spread mem h.nodup]
    rw [slice_length, addresses_length hno.mapped]
  keeps mem user buffer hno := by
    refine ⟨_, Prod.ext ((copy_to_user_sg_noFault mem user buffer table).mpr hno) rfl, ?_⟩
    have hno' : NoFault (copy_to_user_sg user buffer mem table).2 buffer table := by
      rw [copy_to_user_sg_eq mem hno]
      exact hno.mono (copy_to_user_isSome user buffer _)
    rw [copy_from_user_sg_eq mem hno', copy_to_user_sg_contents mem hno, spread_map_self]
  outside mem user buffer :=
    ⟨fun _ hi => copy_from_user_sg_outside mem user buffer hi, fun _ hi => copy_to_user_sg_outside mem user buffer hi⟩
  concatenation table' hsame mem user buffer hno hno' := by
    have htotal : total table' = total table := by
      rw [← addresses_length hno.mapped, ← addresses_length hno'.mapped, hsame]
    rw [copy_from_user_sg_eq mem hno, copy_from_user_sg_eq mem hno', copy_to_user_sg_eq mem hno,
      copy_to_user_sg_eq mem hno', hsame, htotal]
    exact ⟨rfl, rfl⟩
  flat address hrange mem user buffer hno := by
    rw [copy_from_user_sg_eq mem hno, copy_to_user_sg_eq mem hno, hrange, ← slice_eq_map,
      ← blit_eq_spread mem address (Nat.le_of_eq (slice_length _ _ _))]
    exact ⟨rfl, rfl⟩
  branches k sc address hsg hsplits user count :=
    ⟨fun f_pos => scsitap_ctl_read_flat hsg hsplits f_pos user count, scsitap_ctl_write_flat hsg hsplits user count⟩
  stops mem user buffer n hfails := by
    obtain ⟨hin, hinto⟩ := copy_from_user_sg_stops mem hfails
    obtain ⟨hout, hout_of⟩ := copy_to_user_sg_stops mem hfails
    refine ⟨⟨hin, fun i hi => ?_⟩, hout, fun i hi => ?_⟩
    · rw [hinto]
      apply copy_from_user_sg_outside
      have hnodup := h.nodup
      rw [← List.take_append_drop (n + 1) table, addresses_append, List.nodup_append] at hnodup
      exact fun hi' => hnodup.2.2 i hi' i hi rfl
    · rw [hout_of]
      exact copy_to_user_sg_outside mem user buffer (.inr hi)

/-- Two neighbouring pieces of a page in the wrong order, with an empty one
between them. -/
theorem nonOverlapping_copies_pieces :
    NonOverlapping [⟨some 4096, 8, 3⟩, ⟨some 4096, 9, 0⟩, ⟨some 4096, 4, 4⟩] ∧
      SgCopies [⟨some 4096, 8, 3⟩, ⟨some 4096, 9, 0⟩, ⟨some 4096, 4, 4⟩] :=
  ⟨by decide, nonOverlapping_copies _ (by decide)⟩

end device

end vscsi
