import Vscsi.Scsi.Commands

open lib lib.Code

namespace vscsi.scsi

/-- Stores one after the other, and a result. -/
def storing {α : Type} : (stores : List (Nat × List UInt8)) → α → Code α
  | [], a => return a
  | (i, bytes) :: rest, a => do
    store i bytes
    storing rest a

/-- The memory after stores have been made. -/
def applied : (stores : List (Nat × List UInt8)) → Mem → Mem
  | [], data => data
  | (i, bytes) :: rest, data => applied rest (blit data i bytes)

/-- The range of a store. -/
def range (s : Nat × List UInt8) : Nat × Nat := (s.1, s.2.length)

/-- A place is in one of the ranges. -/
def Covered (ranges : List (Nat × Nat)) (i : Nat) : Prop := ∃ r ∈ ranges, r.1 ≤ i ∧ i < r.1 + r.2

@[simp] theorem not_covered_nil (i : Nat) : ¬ Covered [] i := by simp [Covered]

@[simp] theorem covered_cons (r : Nat × Nat) (ranges : List (Nat × Nat)) (i : Nat) :
    Covered (r :: ranges) i ↔ (r.1 ≤ i ∧ i < r.1 + r.2) ∨ Covered ranges i := by
  simp [Covered]

/-- Two CDBs have the same first bytes. -/
def Agree (n : Nat) (cdb cdb' : Cdb) : Prop := ∀ i : Fin 16, i.val < n → cdb.get i = cdb'.get i

theorem blit_congr {data data' : Mem} {i : Nat} (h : data i = data' i) (start : Nat) (bytes : List UInt8) :
    blit data start bytes i = blit data' start bytes i := by
  simp only [blit, h]

theorem blit_covered {i start : Nat} {bytes : List UInt8} (h : start ≤ i ∧ i < start + bytes.length) (data data' : Mem) :
    blit data start bytes i = blit data' start bytes i := by
  obtain ⟨k, rfl⟩ := Nat.exists_eq_add_of_le h.1
  rw [blit_add data start (by omega), blit_add data' start (by omega)]

theorem applied_congr (stores : List (Nat × List UInt8)) {data data' : Mem} {i : Nat} (h : data i = data' i) :
    applied stores data i = applied stores data' i := by
  induction stores generalizing data data' with
  | nil => exact h
  | cons s rest ih => exact ih (blit_congr h s.1 s.2)

/-- What is stored does not depend on what was there. -/
theorem applied_covered {stores : List (Nat × List UInt8)} {i : Nat} (h : Covered (stores.map range) i) (data data' : Mem) :
    applied stores data i = applied stores data' i := by
  induction stores generalizing data data' with
  | nil =>
    obtain ⟨r, hr, -⟩ := h
    cases hr
  | cons s rest ih =>
    obtain ⟨r, hr, hi⟩ := h
    rcases List.mem_cons.mp hr with rfl | hrest
    · exact applied_congr rest (blit_covered hi data data')
    · exact ih ⟨r, hrest, hi⟩ _ _

/-- The number of bytes of a CDB that take part in the answer to a command. -/
def needs (opcode : UInt8) : Nat :=
  match opcode with
  | 0x03 => 2
  | 0x0a => 5
  | 0x12 => 5
  | 0x1a => 3
  | 0x28 => 9
  | 0x2a => 9
  | 0x43 => 9
  | 0x46 => 9
  | 0x51 => 9
  | 0x52 => 9
  | 0x5c => 2
  | 0x5e => 9
  | 0x5f => 2
  | 0xa0 => 10
  | 0xa4 => 11
  | 0xaa => 10
  | 0xac => 11
  | 0xad => 10
  | _ => 1

theorem needs_le (opcode : UInt8) : needs opcode ≤ 16 := by
  unfold needs
  split <;> decide

section Agree

variable {cdb sent : Cdb} {opcode : UInt8}

theorem Agree.get (h : Agree (needs (sent.get 0)) cdb sent) (hop : sent.get 0 = opcode) (i : Fin 16)
    (hn : i.val < needs opcode) : cdb.get i = sent.get i :=
  h i (by rw [hop]; exact hn)

theorem Agree.field (h : Agree (needs (sent.get 0)) cdb sent) (hop : sent.get 0 = opcode) {i count : Nat}
    (hn : i + count ≤ needs opcode) : cdb.field i count = sent.field i count := by
  have hmax := needs_le opcode
  apply List.ext_getElem
  · simp [Cdb.field]
  · intro k hk hk'
    have hlt : k < count := by
      rw [Cdb.field_length _ (by omega)] at hk
      exact hk
    have hin : i + k < 16 := by omega
    have hget : cdb[i + k] = sent[i + k] := h.get hop ⟨i + k, hin⟩ (show i + k < needs opcode by omega)
    simpa [Cdb.field] using hget

theorem Agree.short (h : Agree (needs (sent.get 0)) cdb sent) (hop : sent.get 0 = opcode) {i : Nat} (hn : i + 2 ≤ needs opcode) :
    (ntohs (cdb.short i)).toNat = beNat (sent.field i 2) := by
  have hmax := needs_le opcode
  rw [cdb.ntohs_short (by omega), h.field hop hn]

theorem Agree.long (h : Agree (needs (sent.get 0)) cdb sent) (hop : sent.get 0 = opcode) {i : Nat} (hn : i + 4 ≤ needs opcode) :
    (ntohl (cdb.long i)).toNat = beNat (sent.field i 4) := by
  have hmax := needs_le opcode
  rw [cdb.ntohl_long (by omega), h.field hop hn]

end Agree

/-- The entries that fit into the answer to REPORT LUNS. -/
def reported (alloc_len : Nat) (luns : List LunData) : List Nat :=
  (List.range luns.length).filter fun numluns => 8 + 1 + numluns * 8 ≤ alloc_len

/-- The ranges that the handler for a command stores to with bytes that only the
LUN, the CDB and the files decide; `none` where it returns status 2. The track
size that READ TRACK INFORMATION has for a DVD-ROM depends on where its stream
happens to be. -/
def written (td : TargetData) (ld : LunData) (cdb : Cdb) (data_size : Int) : Option (List (Nat × Nat)) :=
  let moved (lba n : Nat) (ranges : List (Nat × Nat)) :=
    if bound ld < ((lba + n) * ld.block_size.toNat : Nat) then none else some ranges
  match cdb.get 0 with
  | 0x03 => if cdb.get 1 &&& 0x01 ≠ 0 then none else some [(0, 26)]
  | 0x0a => moved (beNat (cdb.field 2 2)) (cdb.get 4).toNat []
  | 0x12 =>
    let alloc_len := beNat [cdb.get 3, cdb.get 4]
    if cdb.get 1 &&& 0x01 ≠ 0 then
      if cdb.get 2 = 0x00 then some [(0, alloc_len), (0, 5)]
      else if cdb.get 2 = 0x83 then some [(0, alloc_len), (0, 2)]
      else none
    else some [(0, alloc_len), (0, 36)]
  | 0x1a =>
    if cdb.get 1 >>> 3 &&& 0x01 = 0 ∧ cdb.get 2 >>> 6 &&& 0x03 = 0 ∧ cdb.get 2 &&& 0x3f = 0x3f then some [(0, 106)]
    else some [(0, 18)]
  | 0x25 => some [(0, 12)]
  | 0x28 => moved (beNat (cdb.field 2 4)) (beNat (cdb.field 7 2)) [(0, beNat (cdb.field 7 2) * ld.block_size.toNat)]
  | 0x2a => moved (beNat (cdb.field 2 4)) (beNat (cdb.field 7 2)) []
  | 0x43 =>
    if ld.is_blank ∨ cdb.get 2 &&& 0x0f ≠ 0 then none else some [(0, beNat (cdb.field 7 2)), (0, 12)]
  | 0x46 =>
    let more := match feature ld (beNat (cdb.field 2 2)) with
      | some (flags, body) => flags.length + 1 + body.length
      | none => 0
    some [(0, beNat (cdb.field 7 2)), (0, 10 + more)]
  | 0x51 => some [(0, beNat (cdb.field 7 2)), (0, 12)]
  | 0x52 =>
    if cdb.get 1 &&& 0x03 ≠ 1 ∨ beNat (cdb.field 2 4) = 0 then none
    else if ld.current_profile = 0x0011 then some [(0, beNat (cdb.field 7 2)), (0, 34)]
    else some [(0, 24)]
  | 0x5c => if cdb.get 1 &&& 0x01 ≠ 0 then none else some [(0, 12)]
  | 0x5e => if (cdb.get 1 &&& 0x1f).toNat ≤ 0x03 then some [(0, beNat [cdb.get 7, cdb.get 8])] else none
  | 0x5f => if (cdb.get 1 &&& 0x1f).toNat ≤ 0x03 then some [] else none
  | 0xa0 =>
    let alloc_len := beNat (cdb.field 6 4)
    if (alloc_len : Int) > data_size then none
    else some ([(0, alloc_len), (0, 8)] ++ (reported alloc_len td.luns).map fun numluns => (8 + 1 + numluns * 8, 1))
  | 0xa4 =>
    if cdb.get 10 &&& 0x3f ≠ 8 then none else some [(0, beNat (cdb.field 8 2)), (0, 2), (4, 3)]
  | 0xaa => moved (beNat (cdb.field 2 4)) (beNat (cdb.field 6 4)) []
  | 0xac =>
    if ld.current_profile = 0x0011 then
      if cdb.get 10 = 0 then some [(0, 24)] else if cdb.get 10 = 3 then some [(0, 40)] else none
    else if cdb.get 10 = 0 then some [(0, 8)]
    else none
  | 0xad =>
    let alloc_len := beNat (cdb.field 8 2)
    if cdb.get 7 = 0x00 then
      if ld.current_profile = 0x0011 then some [(0, alloc_len), (0, 8), (9, 3)]
      else some [(0, alloc_len), (0, 8), (9, 3), (13, 3)]
    else if cdb.get 7 = 0x01 then some [(0, alloc_len), (0, 2)]
    else if ld.current_profile = 0x0011 ∧ cdb.get 7 = 0x0d then some [(0, alloc_len), (0, 2)]
    else if ld.current_profile = 0x0011 ∧ cdb.get 7 = 0x0e then some [(0, alloc_len), (0, 68)]
    else none
  | _ => some []

/-- What a LUN's stream makes of its file; that of a DVD-ROM is open for reading. -/
def Backed (ld : LunData) (w : World) (f : File) : Prop :=
  ∃ fh inode, ld.lun_fh = some fh ∧ w.Content fh inode (ld.current_profile ≠ 0x0010) f

theorem Backed.unique {ld : LunData} {w : World} {f g : File} (hf : Backed ld w f) (hg : Backed ld w g) : f = g := by
  obtain ⟨fh, inode, hfh, hcontent⟩ := hf
  obtain ⟨fh', inode', hfh', hcontent'⟩ := hg
  obtain rfl : fh = fh' := Option.some.inj (hfh.symm.trans hfh')
  exact hcontent.unique hcontent'

/-- What a computation that comes to an end leaves, whatever choices are made. -/
abbrev Settles {α : Type} (p : Code α) (x : Space) (Q : α → Space → Prop) : Prop :=
  p.Meets libc (fun _ => True) (fun _ => True) x Q

/-- What a command leaves behind: its status says whether it stored its ranges,
in which `data` then has the bytes of `d`. -/
structure Replied (ld : LunData) (f : File) (ranges : Option (List (Nat × Nat))) (d : Mem) (o : Outcome) (x : Space) :
    Prop where
  status : o.status = if ranges.isSome then 0 else 2
  lun : o.ld = ld
  backed : Backed ld x.world f
  data : ∀ rs, ranges = some rs → ∀ i, Covered rs i → x.data i = d i

/-- The answer of a handler is decided by the LUN, its contents, the bytes of the
CDB that take part and the data that comes with the command. -/
def Answers (func : Handler) (td : TargetData) (ld : LunData) (sent : Cdb) (data_size : Int) (payload : List UInt8)
    (f : File) : Prop :=
  ∃ f' d, ∀ fuel cdb, Agree (needs (sent.get 0)) cdb sent →
    (func fuel td ld cdb data_size).Only (Call.On ld.lun_fh) ∧
      ∀ x, Backed ld x.world f → slice x.data 0 payload.length = payload →
        Settles (func fuel td ld cdb data_size) x (Replied ld f' (written td ld sent data_size) d)

variable {func : Handler} {td : TargetData} {ld : LunData} {sent : Cdb} {data_size : Int} {payload : List UInt8} {f : File}

theorem storing_only {α : Type} (fh : Option Nat) (stores : List (Nat × List UInt8)) (a : α) :
    (storing stores a).Only (Call.On fh) := by
  induction stores with
  | nil => trivial
  | cons s rest ih => exact ⟨trivial, fun _ => ih⟩

theorem storing_settles {stores : List (Nat × List UInt8)} {o : Outcome} {x : Space} {Q : Outcome → Space → Prop}
    (h : Q o { x with data := applied stores x.data }) : Settles (storing stores o) x Q := by
  induction stores generalizing x with
  | nil => exact h
  | cons s rest ih => exact fun _ _ => ih h

theorem storing_exec {α : Type} (stores : List (Nat × List UInt8)) (a : α) (m : Machine Choice Space) :
    ∃ m', (storing stores a).exec libc m = .ok (a, m') ∧
      m'.state = { m.state with data := applied stores m.state.data } := by
  induction stores generalizing m with
  | nil => exact ⟨m, rfl, rfl⟩
  | cons s rest ih => exact ih (Code.next m { m.state with data := blit m.state.data s.1 s.2 })

/-- A computation does nothing but these stores. -/
def Stores {α : Type} (p : Code α) (stores : List (Nat × List UInt8)) (a : α) : Prop := p = storing stores a

namespace Stores

variable {α β : Type}

theorem pure (a : α) : Stores (Pure.pure a) [] a := rfl

theorem store (i : Nat) (bytes : List UInt8) : Stores (Code.store i bytes) [(i, bytes)] () := rfl

theorem clear (i n : Nat) : Stores (scsi.clear i n) [(i, List.replicate n 0)] () := by
  rw [scsi.clear, if_neg (by omega), Int.toNat_natCast]
  exact .store i _

theorem bind {p : Code α} {next : α → Code β} {first second : List (Nat × List UInt8)} {a : α} {b : β}
    (h : Stores p first a) (hrest : Stores (next a) second b) : Stores (p >>= next) (first ++ second) b := by
  obtain rfl := h
  induction first with
  | nil => exact hrest
  | cons s rest ih =>
    change (Code.store s.1 s.2 >>= fun _ => storing rest a >>= next) = _
    rw [ih]
    rfl

end Stores

/-- A handler comes back with a status after these stores. -/
def Handles (p : Code Outcome) (stores : List (Nat × List UInt8)) (ld : LunData) (status : UInt8) : Prop :=
  ∃ data_size, Stores p stores { ld, data_size, status }

theorem Handles.pure (ld : LunData) (data_size : Int) (status : UInt8) :
    Handles (Pure.pure { ld, data_size, status }) [] ld status := ⟨data_size, .pure _⟩

theorem Handles.bind {α : Type} {p : Code α} {next : α → Code Outcome} {first second : List (Nat × List UInt8)} {a : α}
    {status : UInt8} (h : Stores p first a) (hrest : Handles (next a) second ld status) :
    Handles (p >>= next) (first ++ second) ld status := by
  obtain ⟨data_size, hnext⟩ := hrest
  exact ⟨data_size, h.bind hnext⟩

theorem illegalRequest_handles (ld : LunData) : Handles (illegalRequest ld) [(0, illegal_request)] ld 2 := ⟨28, rfl⟩

/-- A handler that does nothing but stores, the same for all CDBs that agree. -/
theorem Answers.of_stores {stores : List (Nat × List UInt8)} {status : UInt8} (ranges : Option (List (Nat × Nat)))
    (hwritten : written td ld sent data_size = ranges) (hstatus : status = if ranges.isSome then 0 else 2)
    (hhandles : ∀ fuel cdb, Agree (needs (sent.get 0)) cdb sent → Handles (func fuel td ld cdb data_size) stores ld status)
    (hcovers : ∀ rs, ranges = some rs → ∀ i, Covered rs i → Covered (stores.map range) i) :
    Answers func td ld sent data_size payload f := by
  subst hwritten hstatus
  refine ⟨f, applied stores fun _ => 0, fun fuel cdb hagree => ?_⟩
  obtain ⟨size, heq⟩ := hhandles fuel cdb hagree
  rw [heq]
  refine ⟨storing_only _ _ _, fun x hbacked _ => storing_settles ⟨rfl, rfl, hbacked, fun rs hrs i hi => ?_⟩⟩
  exact applied_covered (hcovers rs hrs i hi) _ _

/-- One that succeeds. -/
theorem Answers.stored {stores : List (Nat × List UInt8)} {rs : List (Nat × Nat)}
    (hwritten : written td ld sent data_size = some rs)
    (hhandles : ∀ fuel cdb, Agree (needs (sent.get 0)) cdb sent → Handles (func fuel td ld cdb data_size) stores ld 0)
    (hcovers : ∀ i, Covered rs i → Covered (stores.map range) i) : Answers func td ld sent data_size payload f :=
  .of_stores _ hwritten rfl hhandles fun _ hrs => Option.some.inj hrs ▸ hcovers

/-- One that turns the command away, whatever it stores. -/
theorem Answers.refused {stores : List (Nat × List UInt8)} (hwritten : written td ld sent data_size = none)
    (hhandles : ∀ fuel cdb, Agree (needs (sent.get 0)) cdb sent → Handles (func fuel td ld cdb data_size) stores ld 2) :
    Answers func td ld sent data_size payload f :=
  .of_stores _ hwritten rfl hhandles nofun

/-- One that does nothing but return. -/
theorem Answers.nothing (hwritten : written td ld sent data_size = some [])
    (hhandles : ∀ fuel cdb, Handles (func fuel td ld cdb data_size) [] ld 0) :
    Answers func td ld sent data_size payload f :=
  .stored hwritten (fun fuel cdb _ => hhandles fuel cdb) fun _ hi => hi

end vscsi.scsi
