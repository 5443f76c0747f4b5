import Vscsi.Lib.Cursor
import Vscsi.Scsi.Answers

open lib lib.Code

namespace vscsi.scsi.Configuration

/-- The flag that depends on the profile. Without a case for it the cursor stays. -/
def profileFlag (ld : LunData) (dvd_r dvd_rom : UInt8) (c : Cursor) : Cursor :=
  match ld.current_profile with
  | 0x0011 => c.post dvd_r
  | 0x0010 => c.post dvd_rom
  | _ => c

/-- `*al = ptr - al` -/
def setLength (al : Nat) (c : Cursor) : Cursor := c.poke al (UInt8.ofNat (c.ptr - al))

/-- The loop behind the serial number. -/
def padSerial (i : Nat) (c : Cursor) : Cursor :=
  if i &&& 0x03 ≠ 0 then padSerial (i + 1) (c.pre 0x20) else c
termination_by (4 - i % 4) % 4
decreasing_by
  have hmask : i &&& 0x03 = i % 4 := Nat.and_two_pow_sub_one_eq_mod i 2
  omega

/-- The switch over the feature number, with the cursor behind the feature code. -/
def addFeature (ld : LunData) (starting_feature_number : Nat) (c : Cursor) : Cursor :=
  match starting_feature_number with
  | 0x0000 =>
    let c := c.post 0x03
    let al := c.ptr
    setLength al <| profile_list.foldl (fun c (profile : Nat) =>
      (((c.pre (byteAt profile 8)).pre (byteAt profile 0)).pre
        (if (profile : Int) = ld.current_profile then 0x01 else 0x00)).pre 0) c
  | 0x0001 =>
    let c := c.post 0x07
    let al := c.ptr
    let c := (((c.pre 0).pre 0).pre 0).pre 1
    setLength al <| (((c.pre 0).pre 0).pre 0).pre 0
  | 0x0002 =>
    let c := c.post 0x03
    let al := c.ptr
    setLength al <| (((c.pre 0).pre 0).pre 0).pre 0
  | 0x0003 =>
    let c := c.post 0x03
    let al := c.ptr
    setLength al <| (((c.pre 0x29).pre 0).pre 0).pre 0
  | 0x0010 =>
    let c := profileFlag ld 0x00 0x01 c
    let al := c.ptr
    let c := (((c.pre (byteAt ld.block_size.toNat 24)).pre (byteAt ld.block_size.toNat 16)).pre
      (byteAt ld.block_size.toNat 8)).pre (byteAt ld.block_size.toNat 0)
    setLength al <| (((c.pre 0).pre 0x10).pre 0).pre 0
  | 0x001f =>
    let c := profileFlag ld 0x00 0x01 c
    let al := c.ptr
    setLength al c
  | 0x0021 =>
    let c := profileFlag ld 0x05 0x04 c
    let al := c.ptr
    let c := (((c.pre 0x3f).pre 0x0b).pre 0x01).pre 0x01
    setLength al <| (((c.pre 0).pre 0).pre 0).pre 0
  | 0x002f =>
    let c := profileFlag ld 0x05 0x04 c
    let al := c.ptr
    setLength al <| (((c.pre 0x46).pre 0).pre 0).pre 0
  | 0x0100 =>
    let c := c.post 0x03
    let al := c.ptr
    setLength al c
  | 0x0105 =>
    let c := c.post 0x03
    let al := c.ptr
    setLength al <| (((c.pre 0x00).pre 0).pre 0).pre 0
  | 0x0107 =>
    let c := c.post 0x0d
    let al := c.ptr
    setLength al <| (((c.pre 0x1f).pre 0).pre 0).pre 0
  | 0x0108 =>
    let c := c.post 0x03
    let al := c.ptr
    let c := (chars ld.serial_number).foldl Cursor.pre c
    setLength al <| padSerial ld.serial_number.length c
  | _ => { c with ptr := 7 }

/-- The reply buffer that `mmc_get_configuration` leaves, computed with the
source's pointers. -/
def mmc_get_configuration (ld : LunData) (cdb : Cdb) (data : Mem) : Mem :=
  let starting_feature_number := (ntohs (cdb.short 2)).toNat
  let alloc_len := (ntohs (cdb.short 7)).toNat
  let c : Cursor := { mem := blit data 0 (List.replicate alloc_len 0), ptr := 8 }
  let c := (c.post (byteAt starting_feature_number 8)).post (byteAt starting_feature_number 0)
  let c := addFeature ld starting_feature_number c
  let i : Int := c.ptr
  let i := i - 3
  blit c.mem 0 [byteAt i 24, byteAt i 16, byteAt i 8, byteAt i 0, 0, 0, byteAt ld.current_profile 8,
    byteAt ld.current_profile 0]

theorem profileFlag_eq (ld : LunData) (dvd_r dvd_rom : UInt8) (c : Cursor) :
    profileFlag ld dvd_r dvd_rom c = (scsi.profileFlag ld dvd_r dvd_rom).foldl Cursor.post c := by
  unfold profileFlag scsi.profileFlag
  split <;> simp_all

theorem padSerial_eq (i : Nat) (c : Cursor) :
    padSerial i c = (List.replicate ((4 - i % 4) % 4) 0x20).foldl Cursor.pre c := by
  have hmask : ∀ i, i &&& 0x03 = i % 4 := fun i => Nat.and_two_pow_sub_one_eq_mod i 2
  fun_induction padSerial i c with
  | case1 i c hmore ih =>
    rw [hmask] at hmore
    have hone : (4 - i % 4) % 4 = (4 - (i + 1) % 4) % 4 + 1 := by omega
    rw [ih, hone, List.replicate_succ, List.foldl_cons]
  | case2 i c hdone =>
    rw [not_not, hmask] at hdone
    rw [hdone, List.replicate_zero, List.foldl_nil]

/-- Flags stored behind the pointer, a length, and a body stored before it is
moved lie one behind the other. -/
theorem describe (flags body : List UInt8) (c : Cursor) :
    setLength (flags.foldl Cursor.post c).ptr (body.foldl Cursor.pre (flags.foldl Cursor.post c)) =
      { mem := blit c.mem c.ptr (flags ++ UInt8.ofNat body.length :: body), ptr := c.ptr + flags.length + body.length } := by
  rw [setLength, Cursor.poke_length, Cursor.foldl_post, blit_append]

/-- Each case of the switch stores the flags and the body of its feature. -/
theorem addFeature_eq (ld : LunData) (number : Nat) (c : Cursor) : addFeature ld number c =
    match feature ld number with
    | some (flags, body) =>
      { mem := blit c.mem c.ptr (flags ++ UInt8.ofNat body.length :: body), ptr := c.ptr + flags.length + body.length }
    | none => { c with ptr := 7 } := by
  have hpost : ∀ flag, c.post flag = [flag].foldl Cursor.post c := fun _ => rfl
  unfold addFeature
  split
  · have hloop : ∀ (profiles : List Nat) (c : Cursor), profiles.foldl (fun c (profile : Nat) =>
        (((c.pre (byteAt profile 8)).pre (byteAt profile 0)).pre
          (if (profile : Int) = ld.current_profile then 0x01 else 0x00)).pre 0) c =
        (profiles.flatMap fun (profile : Nat) => [byteAt profile 8, byteAt profile 0,
          if (profile : Int) = ld.current_profile then 0x01 else 0x00, 0]).foldl Cursor.pre c := by
      intro profiles c
      rw [List.foldl_flatMap]
      rfl
    simp only [hloop, hpost]
    exact describe [0x03] _ c
  · exact describe [0x07] [0, 0, 0, 1, 0, 0, 0, 0] c
  · exact describe [0x03] [0, 0, 0, 0] c
  · exact describe [0x03] [0x29, 0, 0, 0] c
  · simp only [profileFlag_eq]
    exact describe _ [byteAt ld.block_size.toNat 24, byteAt ld.block_size.toNat 16, byteAt ld.block_size.toNat 8,
      byteAt ld.block_size.toNat 0, 0, 0x10, 0, 0] c
  · simp only [profileFlag_eq]
    exact describe _ [] c
  · simp only [profileFlag_eq]
    exact describe _ [0x3f, 0x0b, 0x01, 0x01, 0, 0, 0, 0] c
  · simp only [profileFlag_eq]
    exact describe _ [0x46, 0, 0, 0] c
  · exact describe [0x03] [] c
  · exact describe [0x03] [0x00, 0, 0, 0] c
  · exact describe [0x0d] [0x1f, 0, 0, 0] c
  · have hserial : chars (ld.serial_number ++ List.replicate ((4 - ld.serial_number.length % 4) % 4) ' ') =
        chars ld.serial_number ++ List.replicate ((4 - ld.serial_number.length % 4) % 4) 0x20 := by
      rw [chars, List.map_append, List.map_replicate]
      rfl
    simp only [padSerial_eq, ← List.foldl_append, ← hserial, hpost]
    exact describe [0x03] _ c
  · next hother =>
    have hnone : feature ld number = none := by
      unfold feature
      split <;> first | rfl | exact absurd rfl (by assumption)
    rw [hnone]

/-- The four bytes of the data length and the four behind them. -/
def header (ld : LunData) (data_length : Nat) : List UInt8 :=
  be 4 data_length ++ [0, 0, byteAt ld.current_profile 8, byteAt ld.current_profile 0]

@[simp] theorem header_length (ld : LunData) (data_length : Nat) : (header ld data_length).length = 8 := by
  simp [header]

/-- The number of bytes of the response: the header, and behind it the
descriptor of a supported feature. -/
def responseLength (ld : LunData) (number : Nat) : Nat :=
  match feature ld number with
  | some (_, body) => 8 + 4 + body.length
  | none => 8

theorem responseLength_of_some {ld : LunData} {number : Nat} {flags body : List UInt8}
    (h : feature ld number = some (flags, body)) : responseLength ld number = 8 + 4 + body.length := by
  rw [responseLength, h]

theorem responseLength_of_none {ld : LunData} {number : Nat} (h : feature ld number = none) :
    responseLength ld number = 8 := by
  rw [responseLength, h]

theorem code_stored (number : Nat) (c : Cursor) : (c.post (byteAt number 8)).post (byteAt number 0) =
    { mem := blit c.mem c.ptr (be 2 number), ptr := c.ptr + 2 } := by
  rw [← byteAt_two]
  exact Cursor.foldl_post [byteAt number 8, byteAt number 0] c

theorem header_stored (ld : LunData) {i : Int} {data_length : Nat} (h : i = data_length) :
    [byteAt i 24, byteAt i 16, byteAt i 8, byteAt i 0, 0, 0, byteAt ld.current_profile 8,
      byteAt ld.current_profile 0] = header ld data_length := by
  rw [header, ← byteAt_four, h]
  rfl

section stored

variable {ld : LunData} {cdb : Cdb} (data : Mem)

/-- The response of a supported feature is in the buffer from its start on. -/
theorem stored_supported {flag : UInt8} {body : List UInt8}
    (h : feature ld (ntohs (cdb.short 2)).toNat = some ([flag], body)) : mmc_get_configuration ld cdb data =
      blit (blit data 0 (List.replicate (ntohs (cdb.short 7)).toNat 0)) 0
        (header ld (8 + body.length) ++
          (be 2 (ntohs (cdb.short 2)).toNat ++ ([flag] ++ UInt8.ofNat body.length :: body))) := by
  let cleared := blit data 0 (List.replicate (ntohs (cdb.short 7)).toNat 0)
  let descriptor := be 2 (ntohs (cdb.short 2)).toNat ++ ([flag] ++ UInt8.ofNat body.length :: body)
  have hlength : ((8 + 2 + [flag].length + body.length : Nat) : Int) - 3 = (8 + body.length : Nat) := by
    simp only [List.length_singleton]
    omega
  have hcode : blit (blit cleared 8 (be 2 (ntohs (cdb.short 2)).toNat)) (8 + 2)
      ([flag] ++ UInt8.ofNat body.length :: body) = blit cleared 8 descriptor := by
    have happend := blit_append cleared 8 (be 2 (ntohs (cdb.short 2)).toNat)
      ([flag] ++ UInt8.ofNat body.length :: body)
    rwa [be_length] at happend
  have hheader := blit_before cleared 0 (header ld (8 + body.length)) descriptor
  rw [header_length, Nat.zero_add] at hheader
  simp only [mmc_get_configuration, code_stored, addFeature_eq, h]
  rw [header_stored ld hlength, hcode, hheader]

/-- For any other feature the header is followed by the number of the feature. -/
theorem stored_unsupported (h : feature ld (ntohs (cdb.short 2)).toNat = none) : mmc_get_configuration ld cdb data =
    blit (blit data 0 (List.replicate (ntohs (cdb.short 7)).toNat 0)) 0
      (header ld 4 ++ be 2 (ntohs (cdb.short 2)).toNat) := by
  have hheader := blit_before (blit data 0 (List.replicate (ntohs (cdb.short 7)).toNat 0)) 0 (header ld 4)
    (be 2 (ntohs (cdb.short 2)).toNat)
  rw [header_length, Nat.zero_add] at hheader
  simp only [mmc_get_configuration, code_stored, addFeature_eq, h]
  rw [header_stored ld (show ((7 : Nat) : Int) - 3 = (4 : Nat) from rfl), hheader]

end stored

/-- A feature descriptor. -/
structure Descriptor where
  feature_code : Nat
  flags : UInt8
  body : List UInt8
deriving DecidableEq

/-- Reads descriptors by their lengths until nothing is left. -/
def descriptors : List UInt8 → Option (List Descriptor)
  | [] => some []
  | hi :: lo :: flags :: length :: rest =>
    if length.toNat ≤ rest.length then
      let body := rest.take length.toNat
      (descriptors (rest.drop length.toNat)).map ({ feature_code := beNat [hi, lo], flags, body } :: ·)
    else none
  | _ => none
termination_by bytes => bytes.length
decreasing_by
  rw [List.length_drop, List.length_cons, List.length_cons, List.length_cons, List.length_cons]
  omega

/-- Reads the descriptors in the bytes that the data length counts. -/
def parse (reply : List UInt8) : Option (List Descriptor) :=
  let data_length := beNat (reply.take 4)
  if data_length < 4 ∨ reply.length < 4 + data_length then none
  else descriptors ((reply.take (4 + data_length)).drop 8)

/-- One descriptor is read back. -/
theorem descriptors_one {number : Nat} (hnumber : number < 2 ^ 16) (flags : UInt8) {body : List UInt8}
    (hbody : body.length < 256) :
    descriptors (be 2 number ++ ([flags] ++ UInt8.ofNat body.length :: body)) = some [⟨number, flags, body⟩] := by
  have hlength : (UInt8.ofNat body.length).toNat = body.length := by
    rw [UInt8.toNat_ofNat']
    exact Nat.mod_eq_of_lt hbody
  have hcode : beNat (be 2 number) = number := by
    rw [beNat_be]
    exact Nat.mod_eq_of_lt hnumber
  rw [← byteAt_two] at hcode ⊢
  simp [descriptors, hlength, hcode]

/-- A reply whose data length counts what the header and the descriptors take. -/
theorem parse_response (ld : LunData) {bytes : List UInt8} (hsmall : 4 + bytes.length < 2 ^ 32) (rest : List UInt8) :
    parse (header ld (4 + bytes.length) ++ (bytes ++ rest)) = descriptors bytes := by
  have hlength : beNat ((header ld (4 + bytes.length) ++ (bytes ++ rest)).take 4) = 4 + bytes.length := by
    rw [header, List.append_assoc, List.take_left' (be_length _ _), beNat_be]
    exact Nat.mod_eq_of_lt hsmall
  have hroom : ¬ (4 + bytes.length < 4 ∨
      (header ld (4 + bytes.length) ++ (bytes ++ rest)).length < 4 + (4 + bytes.length)) := by
    rw [List.length_append, List.length_append, header_length]
    omega
  have hwhole : (header ld (4 + bytes.length) ++ bytes).length = 4 + (4 + bytes.length) := by
    rw [List.length_append, header_length]
    omega
  simp only [parse, hlength, if_neg hroom]
  rw [← List.append_assoc, List.take_left' hwhole, List.drop_left' (header_length _ _)]

/-- The features of the profile, as the comment in the source lists them. -/
def features : List Nat :=
  [0x0000, 0x0001, 0x0002, 0x0003, 0x0010, 0x001f, 0x0021, 0x002f, 0x0100, 0x0105, 0x0107, 0x0108]

/-- What a reply to GET CONFIGURATION is to be. -/
structure WellFormed (ld : LunData) (number : Nat) (reply : List UInt8) : Prop where
  /-- The data length counts the response. -/
  length : beNat (reply.take 4) + 4 = responseLength ld number
  profile : beNat ((reply.drop 6).take 2) = ld.current_profile
  /-- One descriptor, whose length byte says what follows it. -/
  supported : number ∈ features → ∃ d, parse reply = some [d] ∧ d.feature_code = number ∧
    reply[11]? = some (UInt8.ofNat d.body.length) ∧ d.body.length < 256 ∧ d.body.length % 4 = 0 ∧
    beNat (reply.take 4) + 4 = 8 + (4 + d.body.length)
  serial : number = 0x0108 → ∃ d, parse reply = some [d] ∧
    ∃ n < 4, d.body = chars ld.serial_number ++ List.replicate n 0x20
  /-- Every profile is listed, and the current one only is marked. -/
  profiles : number = 0x0000 → ∃ d, parse reply = some [d] ∧
    d.body = (profile_list.flatMap fun profile =>
      be 2 profile ++ [if (profile : Int) = ld.current_profile then 1 else 0, 0]) ∧
    (profile_list.filter fun profile => (profile : Int) = ld.current_profile).length = 1
  unsupported : number ∉ features → parse reply = some [] ∧ beNat (reply.take 4) = 4

theorem feature_of_mem {ld : LunData} (hprofile : Profiled ld) (hserial : ld.serial_number.length ≤ 252) {number : Nat}
    (h : number ∈ features) :
    ∃ flag body, feature ld number = some ([flag], body) ∧ body.length < 256 ∧ body.length % 4 = 0 := by
  have hflag : ∀ dvd_r dvd_rom, ∃ flag, scsi.profileFlag ld dvd_r dvd_rom = [flag] := by
    intro dvd_r dvd_rom
    rcases hprofile with hdvd_r | hdvd_rom
    · exact ⟨dvd_r, by simp [scsi.profileFlag, hdvd_r]⟩
    · exact ⟨dvd_rom, by simp [scsi.profileFlag, hdvd_rom]⟩
  simp only [features, List.mem_cons, List.not_mem_nil, or_false] at h
  rcases h with rfl | rfl | rfl | rfl | rfl | rfl | rfl | rfl | rfl | rfl | rfl | rfl
  · refine ⟨_, _, rfl, ?_⟩
    simp [profile_list]
  · exact ⟨_, _, rfl, by decide, rfl⟩
  · exact ⟨_, _, rfl, by decide, rfl⟩
  · exact ⟨_, _, rfl, by decide, rfl⟩
  · obtain ⟨flag, heq⟩ := hflag 0x00 0x01
    exact ⟨flag, _, by rw [feature, heq], by simp, by simp⟩
  · obtain ⟨flag, heq⟩ := hflag 0x00 0x01
    exact ⟨flag, _, by rw [feature, heq], by simp, by simp⟩
  · obtain ⟨flag, heq⟩ := hflag 0x05 0x04
    exact ⟨flag, _, by rw [feature, heq], by simp, by simp⟩
  · obtain ⟨flag, heq⟩ := hflag 0x05 0x04
    exact ⟨flag, _, by rw [feature, heq], by simp, by simp⟩
  · exact ⟨_, _, rfl, by decide, rfl⟩
  · exact ⟨_, _, rfl, by decide, rfl⟩
  · exact ⟨_, _, rfl, by decide, rfl⟩
  · refine ⟨_, _, rfl, ?_⟩
    simp only [chars, List.length_map, List.length_append, List.length_replicate]
    omega

theorem feature_of_not_mem (ld : LunData) {number : Nat} (h : number ∉ features) : feature ld number = none := by
  unfold feature
  split <;> first | rfl | exact absurd (by decide) h

/-- The handler leaves the buffer that the pointers fill. -/
theorem handler_exec (fuel : Nat) (td : TargetData) (ld : LunData) (cdb : Cdb) (data_size : Int)
    (m : Machine Choice Space) : ∃ m', (scsi.mmc_get_configuration fuel td ld cdb data_size).exec libc m =
        .ok ({ ld, data_size := (ntohs (cdb.short 7)).toNat, status := 0 }, m') ∧
      m'.state = { m.state with data := mmc_get_configuration ld cdb m.state.data } := by
  have hstores : ∃ stores, Stores (scsi.mmc_get_configuration fuel td ld cdb data_size) stores
        { ld, data_size := (ntohs (cdb.short 7)).toNat, status := 0 } ∧
      applied stores m.state.data = mmc_get_configuration ld cdb m.state.data := by
    let cleared : Nat × List UInt8 := (0, List.replicate (ntohs (cdb.short 7)).toNat 0)
    let code : Nat × List UInt8 := (8, [byteAt (ntohs (cdb.short 2)).toNat 8, byteAt (ntohs (cdb.short 2)).toNat 0])
    let start (i : Int) : Nat × List UInt8 := (0, [byteAt i 24, byteAt i 16, byteAt i 8, byteAt i 0, 0, 0,
      byteAt ld.current_profile 8, byteAt ld.current_profile 0])
    cases hfeature : feature ld (ntohs (cdb.short 2)).toNat with
    | none =>
      refine ⟨[cleared, code, start ((7 : Nat) - 3)], ?_, ?_⟩
      · simp only [scsi.mmc_get_configuration, hfeature]
        exact .bind (.clear _ _) (.bind (.store _ _) (.bind (.pure _) (.bind (.store _ _) (.pure _))))
      · simp only [mmc_get_configuration, code_stored, addFeature_eq, hfeature, ← byteAt_two]
        rfl
    | some parts =>
      obtain ⟨flags, body⟩ := parts
      refine ⟨[cleared, code, (10, flags ++ UInt8.ofNat body.length :: body),
        start ((10 + flags.length + body.length : Nat) - 3)], ?_, ?_⟩
      · simp only [scsi.mmc_get_configuration, hfeature]
        exact .bind (.clear _ _) (.bind (.store _ _) (.bind (.store _ _) (.bind (.pure _)
          (.bind (.store _ _) (.pure _)))))
      · simp only [mmc_get_configuration, code_stored, addFeature_eq, hfeature, ← byteAt_two]
        rfl
  obtain ⟨stores, hhandler, hdata⟩ := hstores
  obtain ⟨m', hexec, hstate⟩ := storing_exec stores _ m
  rw [hhandler, ← hdata]
  exact ⟨m', hexec, hstate⟩

/-- A reply that is long enough begins with what was stored at its start. -/
theorem slice_front (mem : Mem) {front : List UInt8} (back : List UInt8) {count : Nat} (h : front.length ≤ count) :
    ∃ rest, slice (blit mem 0 (front ++ back)) 0 count = front ++ rest := by
  obtain ⟨k, rfl⟩ := Nat.exists_eq_add_of_le h
  refine ⟨slice (blit mem 0 (front ++ back)) (0 + front.length) k, ?_⟩
  rw [slice_append, slice_blit_prefix]

section reply

variable {ld : LunData} {number : Nat}

/-- The header names the current profile. -/
theorem header_profile (hprofile : Profiled ld) (data_length : Nat) (rest : List UInt8) :
    (beNat (((header ld data_length ++ rest).drop 6).take 2) : Int) = ld.current_profile := by
  have hsplit : header ld data_length ++ rest = (be 4 data_length ++ [0, 0]) ++
      ([byteAt ld.current_profile 8, byteAt ld.current_profile 0] ++ rest) := by
    simp [header]
  rw [hsplit, List.drop_left' (by rw [List.length_append, be_length]; rfl)]
  rcases hprofile with hdvd_r | hdvd_rom
  · rw [hdvd_r]
    rfl
  · rw [hdvd_rom]
    rfl

theorem header_data_length (ld : LunData) {data_length : Nat} (h : data_length < 2 ^ 32) (rest : List UInt8) :
    beNat ((header ld data_length ++ rest).take 4) = data_length := by
  rw [header, List.append_assoc, List.take_left' (be_length _ _), beNat_be]
  exact Nat.mod_eq_of_lt h

/-- The response of a supported feature is well formed. -/
theorem wellFormed_supported (hprofile : Profiled ld) (hnumber : number < 2 ^ 16) (hmem : number ∈ features)
    {flag : UInt8} {body : List UInt8} (hfeature : feature ld number = some ([flag], body)) (hsmall : body.length < 256)
    (hfour : body.length % 4 = 0) (rest : List UInt8) :
    WellFormed ld number (header ld (8 + body.length) ++
      (be 2 number ++ ([flag] ++ UInt8.ofNat body.length :: body)) ++ rest) := by
  let bytes := be 2 number ++ ([flag] ++ UInt8.ofNat body.length :: body)
  have hbytes : bytes.length = 4 + body.length := by
    simp only [bytes, List.length_append, be_length, List.length_cons, List.length_nil]
    omega
  have hcount : 8 + body.length = 4 + bytes.length := by omega
  have hlength : beNat ((header ld (8 + body.length) ++ bytes ++ rest).take 4) = 8 + body.length := by
    rw [List.append_assoc, header_data_length ld (by omega)]
  have hparse : parse (header ld (8 + body.length) ++ bytes ++ rest) = some [⟨number, flag, body⟩] := by
    rw [List.append_assoc, hcount, parse_response ld (by omega)]
    exact descriptors_one hnumber flag hsmall
  have hbody : (header ld (8 + body.length) ++ bytes ++ rest)[11]? = some (UInt8.ofNat body.length) := by
    have hsplit : header ld (8 + body.length) ++ bytes ++ rest = (header ld (8 + body.length) ++ (be 2 number ++ [flag])) ++
        (UInt8.ofNat body.length :: (body ++ rest)) := by
      simp [bytes]
    rw [hsplit, List.getElem?_append_right (by simp)]
    simp
  constructor
  · rw [hlength, responseLength_of_some hfeature]
    omega
  · rw [List.append_assoc]
    exact header_profile hprofile _ _
  · intro _
    refine ⟨⟨number, flag, body⟩, hparse, rfl, hbody, hsmall, hfour, ?_⟩
    rw [hlength]
    simp only
    omega
  · rintro rfl
    refine ⟨_, hparse, (4 - ld.serial_number.length % 4) % 4, Nat.mod_lt _ (by decide), ?_⟩
    obtain ⟨-, rfl⟩ := Prod.mk.inj (Option.some.inj hfeature)
    rw [chars, chars, List.map_append, List.map_replicate]
    rfl
  · rintro rfl
    obtain ⟨-, rfl⟩ := Prod.mk.inj (Option.some.inj hfeature)
    refine ⟨_, hparse, ?_, ?_⟩
    · simp only [← byteAt_two]
      rfl
    · rcases hprofile with hdvd_r | hdvd_rom
      · rw [hdvd_r]
        decide
      · rw [hdvd_rom]
        decide
  · exact fun hnot => absurd hmem hnot

/-- So is the header alone, in front of whatever follows. -/
theorem wellFormed_unsupported (hprofile : Profiled ld) (hmem : number ∉ features) (rest : List UInt8) :
    WellFormed ld number (header ld 4 ++ rest) := by
  have hlength : beNat ((header ld 4 ++ rest).take 4) = 4 := header_data_length ld (by decide) rest
  constructor
  · rw [hlength, responseLength_of_none (feature_of_not_mem ld hmem)]
  · exact header_profile hprofile 4 rest
  · exact fun h => absurd h hmem
  · rintro rfl
    exact absurd (by decide) hmem
  · rintro rfl
    exact absurd (by decide) hmem
  · have hsmall : 4 + ([] : List UInt8).length < 2 ^ 32 := by decide
    have hparse := parse_response ld hsmall rest
    rw [descriptors] at hparse
    exact fun _ => ⟨hparse, hlength⟩

end reply

/-- Replies to GET CONFIGURATION are well formed. -/
theorem configuration_wellFormed (fuel : Nat) (td : TargetData) (ld : LunData) (cdb : Cdb) (data_size : Int)
    (m : Machine Choice Space) (hprofile : ld.current_profile = 0x0011 ∨ ld.current_profile = 0x0010)
    (hserial : ld.serial_number.length ≤ 252)
    (hroom : responseLength ld (beNat (cdb.field 2 2)) ≤ beNat (cdb.field 7 2)) :
    ∃ m', (scsi.mmc_get_configuration fuel td ld cdb data_size).exec libc m =
        .ok ({ ld, data_size := beNat (cdb.field 7 2), status := 0 }, m') ∧
      m'.state.data = mmc_get_configuration ld cdb m.state.data ∧
      WellFormed ld (beNat (cdb.field 2 2)) (slice m'.state.data 0 (beNat (cdb.field 7 2))) := by
  have hnumber : beNat (cdb.field 2 2) < 2 ^ 16 := by
    have hlt := beNat_lt (cdb.field 2 2)
    rwa [Cdb.field_length _ (by decide)] at hlt
  have hcode : (ntohs (cdb.short 2)).toNat = beNat (cdb.field 2 2) := cdb.ntohs_short (by decide)
  have halloc : (ntohs (cdb.short 7)).toNat = beNat (cdb.field 7 2) := cdb.ntohs_short (by decide)
  rw [← hcode] at hnumber hroom ⊢
  rw [← halloc] at hroom ⊢
  obtain ⟨m', hexec, hstate⟩ := handler_exec fuel td ld cdb data_size m
  have hdata : m'.state.data = mmc_get_configuration ld cdb m.state.data := by rw [hstate]
  refine ⟨m', hexec, hdata, ?_⟩
  rw [hdata]
  by_cases hmem : (ntohs (cdb.short 2)).toNat ∈ features
  · obtain ⟨flag, body, hfeature, hsmall, hfour⟩ := feature_of_mem hprofile hserial hmem
    rw [responseLength_of_some hfeature] at hroom
    have hfits : (header ld (8 + body.length) ++ (be 2 (ntohs (cdb.short 2)).toNat ++
        ([flag] ++ UInt8.ofNat body.length :: body))).length ≤ (ntohs (cdb.short 7)).toNat := by
      simp only [List.length_append, header_length, be_length, List.length_cons, List.length_nil]
      omega
    obtain ⟨rest, hreply⟩ := slice_front (blit m.state.data 0 (List.replicate (ntohs (cdb.short 7)).toNat 0)) [] hfits
    rw [List.append_nil] at hreply
    rw [stored_supported m.state.data hfeature, hreply]
    exact wellFormed_supported hprofile hnumber hmem hfeature hsmall hfour rest
  · rw [responseLength_of_none (feature_of_not_mem ld hmem)] at hroom
    have hfits : (header ld 4).length ≤ (ntohs (cdb.short 7)).toNat := by rwa [header_length]
    obtain ⟨rest, hreply⟩ := slice_front (blit m.state.data 0 (List.replicate (ntohs (cdb.short 7)).toNat 0))
      (be 2 (ntohs (cdb.short 2)).toNat) hfits
    rw [stored_unsupported m.state.data (feature_of_not_mem ld hmem), hreply]
    exact wellFormed_unsupported hprofile hmem rest

/-- A DVD-R with a serial number of six digits, asked for its serial number. -/
theorem configuration_wellFormed_dvd_r :
    let ld : LunData := ⟨5, 2048, [], [], [], "000042".toList, 1, 0, "dvd".toList, none, some .mmc, true, 0x0011⟩
    let cdb : Cdb := #v[0x46, 2, 0x01, 0x08, 0, 0, 0, 0, 32, 0, 0, 0, 0, 0, 0, 0]
    let m : Machine Choice Space :=
      { state := { world := .oneFile [] .empty, data := fun _ => 0xff }, choices := fun _ => .whole }
    ∃ m', (scsi.mmc_get_configuration 0 ⟨0, [], [ld]⟩ ld cdb 0).exec libc m =
        .ok ({ ld, data_size := beNat (cdb.field 7 2), status := 0 }, m') ∧
      m'.state.data = mmc_get_configuration ld cdb m.state.data ∧
      WellFormed ld (beNat (cdb.field 2 2)) (slice m'.state.data 0 (beNat (cdb.field 7 2))) :=
  configuration_wellFormed 0 _ _ _ 0 _ (.inl rfl) (by decide) (by decide)

end vscsi.scsi.Configuration
