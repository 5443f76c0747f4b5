import Vscsi.Kernel.Service
import Vscsi.Kernel.Unload
import Vscsi.Lib.Keyed

open lib

namespace vscsi

open hba device driver

namespace Hba

/-- No call changes the number of a session, and only unregistering takes it off the list. -/
theorem apply_control (k : Hba) (op : Op) : (op ≠ .unregister_client → (k.apply op).session.listed = k.session.listed) ∧
    ((k.apply op).session.listed = true → (k.apply op).session.dev_id = k.session.dev_id) := by
  cases op with
  | prepare sc cmnd mem => exact ⟨fun _ => rfl, fun _ => rfl⟩
  | queuecommand sc slot =>
    have hmidlayer : Op.MidLayer (.queuecommand sc slot) := trivial
    exact ⟨fun _ => (scsitap_queuecommand_sameService k sc slot).listed, fun _ => (SameControl.apply k (.inl hmidlayer)).dev_id⟩
  | eh_abort sc =>
    have hmidlayer : Op.MidLayer (.eh_abort sc) := trivial
    exact ⟨fun _ => (scsitap_eh_abort_sameService k sc).listed, fun _ => (SameControl.apply k (.inl hmidlayer)).dev_id⟩
  | eh_host_reset =>
    have hmidlayer : Op.MidLayer .eh_host_reset := trivial
    exact ⟨fun _ => (scsitap_eh_host_reset_sameService k).listed, fun _ => (SameControl.apply k (.inl hmidlayer)).dev_id⟩
  | read f_pos user count => exact ⟨fun _ => rfl, fun _ => rfl⟩
  | write user count =>
    exact ⟨fun _ => (scsitap_ctl_write_sameService k user count).listed,
      fun _ => (SameControl.apply k (.inr (.inl ⟨user, count, rfl⟩))).dev_id⟩
  | receive_task arg =>
    refine ⟨fun _ => ?_, fun _ => (SameControl.apply k (.inr (.inr ⟨arg, rfl⟩))).dev_id⟩
    change (scsitap_ioctl_receive_task k arg).2.session.listed = _
    unfold scsitap_ioctl_receive_task
    split
    · rfl
    · split <;> rfl
  | register_client pid => exact ⟨fun _ => rfl, fun _ => rfl⟩
  | unregister_client =>
    refine ⟨fun h => absurd rfl h, fun hlisted => ?_⟩
    change (scsitap_ioctl_unregister_client k).2.session.dev_id = _
    change (scsitap_ioctl_unregister_client k).2.session.listed = true at hlisted
    rw [scsitap_ioctl_unregister_client_snd] at hlisted ⊢
    unfold hba.scsitap_destroy_session at hlisted ⊢
    split at hlisted
    · rename_i hopen
      rw [if_pos hopen]
    · cases hlisted
  | release => exact ⟨fun _ => rfl, fun _ => rfl⟩

/-- Unregistering takes a session off the list unless a target is there. -/
theorem unregister_listed (k : Hba) : k.session.Device_Open ≠ 0 ∧ k.apply .unregister_client = k ∨
    k.session.Device_Open = 0 ∧ (k.apply .unregister_client).session.listed = false := by
  change k.session.Device_Open ≠ 0 ∧ (scsitap_ioctl_unregister_client k).2 = k ∨
    k.session.Device_Open = 0 ∧ (scsitap_ioctl_unregister_client k).2.session.listed = false
  rw [scsitap_ioctl_unregister_client_snd]
  unfold hba.scsitap_destroy_session
  by_cases hopen : k.session.Device_Open = 0
  · exact .inr ⟨hopen, by simp [hopen]⟩
  · exact .inl ⟨hopen, by simp [hopen]⟩

end Hba

/-- The sessions of a driver by their minor number. -/
def Driver.table (d : Driver) : UInt32 → Option Hba := fun id => (scsitap_get_session d id).map d.hbas

/-- What a call on the driver is for the table of its sessions. A call through a file
is one on the session of the file's minor number. -/
def Driver.event (d : Driver) : DriverOp → Option (Keyed.Event UInt32 Hba Op)
  | .ctl_open _ => none
  | .ctl_ioctl file host (.register_client pid) =>
    let id := (d.files file).minor
    match scsitap_get_session d id with
    | some _ => some (.called id (.register_client pid))
    | none => host.map fun host =>
      .created id ((hba.scsitap_create_session id host.tasks host.cmnds host.mem).apply (.register_client pid))
  | .ctl_ioctl file _ (.receive_task arg) =>
    (d.files file).private_data.map fun _ => .called (d.files file).minor (.receive_task arg)
  | .ctl_ioctl _ _ (.set_task _) => none
  | .ctl_ioctl file _ .unregister_client =>
    (scsitap_get_session d (d.files file).minor).map fun _ => .called (d.files file).minor .unregister_client
  | .ctl_ioctl _ _ .unknown => none
  | .ctl_read file user count =>
    (d.files file).private_data.map fun _ => .called (d.files file).minor (.read (d.files file).f_pos user count)
  | .ctl_write file user count =>
    (d.files file).private_data.map fun _ => .called (d.files file).minor (.write user count)
  | .ctl_release file => (d.files file).private_data.map fun _ => .called (d.files file).minor .release
  | .midlayer session op => some (.called (d.hbas session).session.dev_id op)
  | .scan_begin => none
  | .scan_end _ => none

/-- A session that has just been created, and registered with. -/
def Hba.Created (id : UInt32) (k : Hba) : Prop :=
  ∃ first pid, Hba.Initial first ∧ first.session.dev_id = id ∧ k = first.apply (.register_client pid)

/-- A table of sessions that do not know of each other. -/
abbrev SessionsStep : (UInt32 → Option Hba) → Keyed.Event UInt32 Hba Op → (UInt32 → Option Hba) → Prop :=
  Keyed.Step Hba.Created Hba.Step (·.session.listed)

namespace Driver

variable {d d' : Driver} {table : UInt32 → Option Hba} {session : Nat} {id : UInt32}

/-- The table of the sessions of a driver, which are as many as `last_id` says. -/
structure Tabulated (d : Driver) (table : UInt32 → Option Hba) : Prop where
  held : d.Held
  listed : ∀ session ∈ d.session_queue, (d.hbas session).session.listed = true
  count : d.last_id = UInt32.ofNat d.session_queue.length
  find : ∀ id k, table id = some k ↔
    ∃ session ∈ d.session_queue, (d.hbas session).session.dev_id = id ∧ d.hbas session = k

theorem Tabulated.table_eq (h : d.Tabulated table) : d.table = table := by
  funext id
  apply Option.ext
  intro k
  rw [h.find, Driver.table, Option.map_eq_some_iff]
  constructor
  · rintro ⟨session, hfound, rfl⟩
    obtain ⟨hmem, hid⟩ := get_session_mem hfound
    exact ⟨session, hmem, hid, rfl⟩
  · rintro ⟨session, hmem, hid, rfl⟩
    have hsome : (scsitap_get_session d id).isSome := by
      rw [scsitap_get_session, List.find?_isSome]
      exact ⟨session, hmem, by simpa using hid⟩
    obtain ⟨other, hfound⟩ := Option.isSome_iff_exists.mp hsome
    obtain ⟨hother, hsame⟩ := get_session_mem hfound
    obtain rfl := h.held.distinct other hother session hmem (hsame.trans hid.symm)
    exact ⟨other, hfound, rfl⟩

theorem Tabulated.there (h : d.Tabulated table) (hmem : session ∈ d.session_queue)
    (hid : (d.hbas session).session.dev_id = id) : table id = some (d.hbas session) :=
  (h.find id _).mpr ⟨session, hmem, hid, rfl⟩

theorem Tabulated.absent (h : d.Tabulated table) (hnone : scsitap_get_session d id = none) : table id = none := by
  rw [← h.table_eq, Driver.table, hnone, Option.map_none]

/-- Nothing has changed for the sessions. -/
theorem Tabulated.same (h : d.Tabulated table) (hheld : d'.Held) (hhbas : d'.hbas = d.hbas)
    (hqueue : d'.session_queue = d.session_queue) (hcount : d'.last_id = d.last_id) : d'.Tabulated table := by
  refine ⟨hheld, ?_, ?_, ?_⟩
  · rw [hqueue, hhbas]
    exact h.listed
  · rw [hqueue, hcount]
    exact h.count
  · rw [hqueue, hhbas]
    exact h.find

/-- A call on one session that leaves it on the list. -/
theorem Tabulated.call (h : d.Tabulated table) (hheld : d'.Held) {op : Op} (hmem : session ∈ d.session_queue)
    (hlisted : ((d.hbas session).apply op).session.listed = true)
    (hhbas : d'.hbas = Function.update d.hbas session ((d.hbas session).apply op))
    (hqueue : d'.session_queue = d.session_queue) (hcount : d'.last_id = d.last_id) :
    d'.Tabulated (Function.update table (d.hbas session).session.dev_id (some ((d.hbas session).apply op))) := by
  have hself : d'.hbas session = (d.hbas session).apply op := by rw [hhbas, Function.update_self]
  have hother (s : Nat) (hne : s ≠ session) : d'.hbas s = d.hbas s := by rw [hhbas, Function.update_of_ne hne]
  have hid : (d'.hbas session).session.dev_id = (d.hbas session).session.dev_id := by
    rw [hself]
    exact ((d.hbas session).apply_control op).2 hlisted
  refine ⟨hheld, fun s hs => ?_, by rw [hcount, hqueue, h.count], fun id k => ?_⟩
  · rw [hqueue] at hs
    by_cases hne : s = session
    · rw [hne, hself, hlisted]
    · rw [hother s hne, h.listed s hs]
  · by_cases hkey : id = (d.hbas session).session.dev_id
    · subst hkey
      rw [Function.update_self, Option.some_inj, ← hself]
      constructor
      · rintro rfl
        exact ⟨session, by rw [hqueue]; exact hmem, hid, rfl⟩
      · rintro ⟨s, hs, hsid, rfl⟩
        have hheld' := hheld.distinct s hs session (by rw [hqueue]; exact hmem) (hsid.trans hid.symm)
        rw [hheld']
    · rw [Function.update_of_ne hkey, h.find, hqueue]
      have hneid (s : Nat) (hs : (d'.hbas s).session.dev_id = id ∨ (d.hbas s).session.dev_id = id) : s ≠ session := by
        rintro rfl
        rcases hs with hs | hs
        · exact hkey (hs.symm.trans hid)
        · exact hkey hs.symm
      constructor
      · rintro ⟨s, hs, hsid, rfl⟩
        have hne := hneid s (.inr hsid)
        rw [← hother s hne] at hsid ⊢
        exact ⟨s, hs, hsid, rfl⟩
      · rintro ⟨s, hs, hsid, rfl⟩
        have hne := hneid s (.inl hsid)
        rw [hother s hne] at hsid ⊢
        exact ⟨s, hs, hsid, rfl⟩

/-- A new session. -/
theorem Tabulated.create (h : d.Tabulated table) (hheld : d'.Held) {k : Hba} (hlisted : k.session.listed = true)
    (hid : k.session.dev_id = id) (hhbas : d'.hbas = Function.update d.hbas d.created k)
    (hqueue : d'.session_queue = d.session_queue ++ [d.created]) (hcount : d'.last_id = d.last_id + 1)
    (habsent : table id = none) : d'.Tabulated (Function.update table id (some k)) := by
  have hself : d'.hbas d.created = k := by rw [hhbas, Function.update_self]
  have hold (s : Nat) (hs : s ∈ d.session_queue) : d'.hbas s = d.hbas s := by
    rw [hhbas, Function.update_of_ne (Nat.ne_of_lt (h.held.wellformed.created s hs))]
  have hmem : d.created ∈ d'.session_queue := by rw [hqueue]; simp
  refine ⟨hheld, fun s hs => ?_, ?_, fun key m => ?_⟩
  · rw [hqueue] at hs
    rcases List.mem_append.mp hs with hs | hs
    · rw [hold s hs, h.listed s hs]
    · rw [List.mem_singleton.mp hs, hself, hlisted]
  · rw [hcount, hqueue, h.count, List.length_append, List.length_singleton, UInt32.ofNat_add]
    rfl
  · by_cases hkey : key = id
    · subst hkey
      rw [Function.update_self, Option.some_inj]
      constructor
      · rintro rfl
        exact ⟨d.created, hmem, by rw [hself, hid], hself⟩
      · rintro ⟨s, hs, hsid, rfl⟩
        have hsame := hheld.distinct s hs d.created hmem (by rw [hsid, hself, hid])
        rw [hsame, hself]
    · rw [Function.update_of_ne hkey, h.find]
      constructor
      · rintro ⟨s, hs, hsid, rfl⟩
        rw [← hold s hs] at hsid ⊢
        exact ⟨s, by rw [hqueue]; exact List.mem_append_left _ hs, hsid, rfl⟩
      · rintro ⟨s, hs, hsid, rfl⟩
        rw [hqueue] at hs
        rcases List.mem_append.mp hs with hs | hs
        · rw [hold s hs] at hsid ⊢
          exact ⟨s, hs, hsid, rfl⟩
        · rw [List.mem_singleton.mp hs, hself, hid] at hsid
          exact absurd hsid.symm hkey

/-- A session that has been destroyed. -/
theorem Tabulated.remove (h : d.Tabulated table) (hmem : session ∈ d.session_queue)
    (hid : (d.hbas session).session.dev_id = id) : (d.removeSession session).Tabulated (Function.update table id none) := by
  have hother (s : Nat) (hne : s ≠ session) : (d.removeSession session).hbas s = d.hbas s := by
    rw [removeSession_hbas, Function.update_of_ne hne]
  have hqueue (s : Nat) : s ∈ (d.removeSession session).session_queue ↔ s ≠ session ∧ s ∈ d.session_queue := by
    rw [removeSession_session_queue, h.held.wellformed.sessions.mem_erase_iff]
  refine ⟨h.held.removeSession hmem, fun s hs => ?_, ?_, fun key k => ?_⟩
  · obtain ⟨hne, hs⟩ := (hqueue s).mp hs
    rw [hother s hne, h.listed s hs]
  · change d.last_id - 1 = _
    rw [h.count, removeSession_session_queue, List.length_erase_of_mem hmem]
    have hpos := List.length_pos_of_mem hmem
    obtain ⟨n, hn⟩ := Nat.exists_eq_succ_of_ne_zero (Nat.ne_of_gt hpos)
    rw [hn, Nat.succ_sub_one, Nat.succ_eq_add_one, UInt32.ofNat_add]
    exact UInt32.add_sub_cancel _ _
  · by_cases hkey : key = id
    · subst hkey
      rw [Function.update_self]
      refine ⟨fun h => absurd h.symm (Option.some_ne_none k), ?_⟩
      rintro ⟨s, hs, hsid, rfl⟩
      obtain ⟨hne, hs⟩ := (hqueue s).mp hs
      rw [hother s hne] at hsid
      exact absurd (h.held.distinct s hs session hmem (hsid.trans hid.symm)) hne
    · rw [Function.update_of_ne hkey, h.find]
      constructor
      · rintro ⟨s, hs, hsid, rfl⟩
        have hne : s ≠ session := by
          rintro rfl
          exact hkey (hsid.symm.trans hid)
        rw [← hother s hne] at hsid ⊢
        exact ⟨s, (hqueue s).mpr ⟨hne, hs⟩, hsid, rfl⟩
      · rintro ⟨s, hs, hsid, rfl⟩
        obtain ⟨hne, hs⟩ := (hqueue s).mp hs
        rw [hother s hne] at hsid ⊢
        exact ⟨s, hs, hsid, rfl⟩

/-- A call that can be made is a step of the table. -/
theorem Tabulated.called (h : d.Tabulated table) (hheld : d'.Held) {op : Op} (hcall : d.Callable session op)
    (hop : op ≠ .unregister_client) (hid : (d.hbas session).session.dev_id = id)
    (hhbas : d'.hbas = Function.update d.hbas session ((d.hbas session).apply op))
    (hqueue : d'.session_queue = d.session_queue) (hcount : d'.last_id = d.last_id) :
    ∃ table', SessionsStep table (.called id op) table' ∧ d'.Tabulated table' := by
  obtain ⟨hmem, hfree, hallowed⟩ := hcall
  have hbefore := h.listed session hmem
  have hafter : ((d.hbas session).apply op).session.listed = true := by
    rw [((d.hbas session).apply_control op).1 hop, hbefore]
  have hstep : Hba.Step (d.hbas session) op ((d.hbas session).apply op) := ⟨hbefore, hfree, hallowed, rfl⟩
  have hcalled : SessionsStep table (.called id _) _ := .called (h.there hmem hid) hstep
  rw [if_pos hafter] at hcalled
  subst hid
  exact ⟨_, hcalled, h.call hheld hmem hafter hhbas hqueue hcount⟩

/-- A call that changes nothing. -/
theorem Tabulated.called_same (h : d.Tabulated table) {op : Op} (hcall : d.Callable session op)
    (hid : (d.hbas session).session.dev_id = id) (hsame : (d.hbas session).apply op = d.hbas session) :
    ∃ table', SessionsStep table (.called id op) table' ∧ d.Tabulated table' := by
  obtain ⟨hmem, hfree, hallowed⟩ := hcall
  have hbefore := h.listed session hmem
  have hthere := h.there hmem hid
  have hstep : Hba.Step (d.hbas session) op (d.hbas session) := ⟨hbefore, hfree, hallowed, hsame.symm⟩
  have hcalled : SessionsStep table (.called id _) _ := .called hthere hstep
  rw [if_pos hbefore, ← hthere, Function.update_eq_self] at hcalled
  exact ⟨table, hcalled, h⟩

/-- A call that destroys its session. -/
theorem Tabulated.called_last (h : d.Tabulated table) (hcall : d.Callable session .unregister_client)
    (hid : (d.hbas session).session.dev_id = id)
    (hgone : ((d.hbas session).apply .unregister_client).session.listed = false) :
    ∃ table', SessionsStep table (.called id .unregister_client) table' ∧ (d.removeSession session).Tabulated table' := by
  obtain ⟨hmem, hfree, hallowed⟩ := hcall
  have hstep : Hba.Step (d.hbas session) .unregister_client ((d.hbas session).apply .unregister_client) :=
    ⟨h.listed session hmem, hfree, hallowed, rfl⟩
  have hcalled : SessionsStep table (.called id _) _ := .called (h.there hmem hid) hstep
  rw [if_neg (by simp [hgone])] at hcalled
  exact ⟨_, hcalled, h.remove hmem hid⟩

/-- Every call on the driver is the call of its event on the table. -/
theorem tabulated_simulates : Simulation Step (fun _ _ => True) Driver.event SessionsStep Tabulated where
  hidden d op d' table h _ hstep hevent := by
    have hchange := hstep.change
    have hheld := h.held.change hchange
    cases hchange with
    | nothing => exact h
    | opened minor => exact h.same hheld rfl rfl rfl
    | attached file session pid host hfile hfound => simp [Driver.event, hfound] at hevent
    | created file pid host hfile hnone hfresh => simp [Driver.event, hnone] at hevent
    | claimed file session arg host hfile hsession hcall => simp [Driver.event, hsession] at hevent
    | positioned file arg host hfile => exact h.same hheld rfl rfl rfl
    | destroyed file session host hfile hfound hclosed hcall => simp [Driver.event, hfound] at hevent
    | written file session user count hfile hsession hcall => simp [Driver.event, hsession] at hevent
    | midlayer session op hop hcall => cases hevent
    | closed file session hfile hsession hcall => simp [Driver.event, hsession] at hevent
    | closedBogus file hfile hsession => exact h.same hheld rfl rfl rfl
    | scanBegun hpending => exact h.same hheld rfl rfl rfl
    | scanEnded session hscanning => exact h.same hheld rfl rfl rfl
  visible d op d' table event h _ hstep hevent := by
    have hheld := h.held.change hstep.change
    obtain ⟨hallowed, rfl⟩ := hstep
    -- a file is on the session of its minor number
    have hfile {file session : Nat} {op : Op} (hon : d.OnFile file op) (hdata : (d.files file).private_data = some session) :
        d.Callable session op ∧ (d.hbas session).session.dev_id = (d.files file).minor := by
      have hcall := hon.2 session hdata
      exact ⟨hcall, h.held.minor file hon.1 session hcall.1 hdata⟩
    cases op with
    | ctl_open minor => cases hevent
    | ctl_ioctl file host request =>
      cases request with
      | register_client pid =>
        simp only [Driver.event] at hevent
        simp only [apply, scsitap_ctl_ioctl] at hheld ⊢
        cases hfound : scsitap_get_session d (d.files file).minor with
        | some session =>
          obtain ⟨hmem, hid⟩ := get_session_mem hfound
          simp only [hfound, Option.some.injEq] at hevent hheld ⊢
          subst hevent
          have hcall : d.Callable session (.register_client pid) := ⟨hmem, by simp [Hba.Locks], trivial⟩
          exact h.called hheld hcall (by simp) hid rfl rfl rfl
        | none =>
          cases host with
          | none => simp [hfound] at hevent
          | some memory =>
            simp only [hfound, Option.map_some, Option.some.injEq, driver.scsitap_create_session] at hevent hheld ⊢
            subst hevent
            have hinitial : Hba.Initial (hba.scsitap_create_session (d.files file).minor memory.tasks memory.cmnds memory.mem) :=
              ⟨_, _, _, _, hallowed.2 memory rfl, rfl⟩
            have hcreated : Hba.Created (d.files file).minor ((hba.scsitap_create_session (d.files file).minor memory.tasks
                memory.cmnds memory.mem).apply (.register_client pid)) := ⟨_, pid, hinitial, rfl, rfl⟩
            refine ⟨_, .created (h.absent hfound) hcreated, h.create hheld rfl rfl ?_ rfl rfl (h.absent hfound)⟩
            rw [attach_hbas, addSession_hbas, Function.update_self, Function.update_idem]
      | receive_task arg =>
        simp only [Driver.event] at hevent
        simp only [apply, scsitap_ctl_ioctl] at hheld ⊢
        cases hdata : (d.files file).private_data with
        | none => simp [hdata] at hevent
        | some session =>
          simp only [hdata, Option.map_some, Option.some.injEq] at hevent hheld ⊢
          subst hevent
          obtain ⟨hcall, hid⟩ := hfile hallowed hdata
          exact h.called hheld hcall (by simp) hid rfl rfl rfl
      | set_task arg => cases hevent
      | unregister_client =>
        simp only [Driver.event] at hevent
        cases hfound : scsitap_get_session d (d.files file).minor with
        | none => simp [hfound] at hevent
        | some session =>
          simp only [hfound, Option.map_some, Option.some.injEq] at hevent
          subst hevent
          have hcall := hallowed.2 session hfound
          have hid := (get_session_mem hfound).2
          simp only [apply, scsitap_ctl_ioctl, hfound, driver.scsitap_destroy_session]
          rcases (d.hbas session).unregister_listed with ⟨hopen, hsame⟩ | ⟨hclosed, hgone⟩
          · simp only [ne_eq, hopen, not_false_eq_true, if_true]
            exact h.called_same hcall hid hsame
          · simp only [hclosed, ne_eq, not_true_eq_false, if_false]
            exact h.called_last hcall hid hgone
      | unknown => cases hevent
    | ctl_read file user count =>
      simp only [Driver.event] at hevent
      cases hdata : (d.files file).private_data with
      | none => simp [hdata] at hevent
      | some session =>
        simp only [hdata, Option.map_some, Option.some.injEq] at hevent
        subst hevent
        obtain ⟨hcall, hid⟩ := hfile hallowed hdata
        exact h.called_same hcall hid rfl
    | ctl_write file user count =>
      simp only [Driver.event] at hevent
      simp only [apply, driver.scsitap_ctl_write] at hheld ⊢
      cases hdata : (d.files file).private_data with
      | none => simp [hdata] at hevent
      | some session =>
        simp only [hdata, Option.map_some, Option.some.injEq] at hevent hheld ⊢
        subst hevent
        obtain ⟨hcall, hid⟩ := hfile hallowed hdata
        exact h.called hheld hcall (by simp) hid rfl rfl rfl
    | ctl_release file =>
      simp only [Driver.event] at hevent
      simp only [apply, driver.scsitap_ctl_release] at hheld ⊢
      cases hdata : (d.files file).private_data with
      | none => simp [hdata] at hevent
      | some session =>
        simp only [hdata, Option.map_some, Option.some.injEq] at hevent hheld ⊢
        subst hevent
        obtain ⟨hcall, hid⟩ := hfile hallowed hdata
        exact h.called hheld hcall (by simp) hid rfl rfl rfl
    | midlayer session op =>
      obtain rfl := Option.some.inj hevent
      have hop : op ≠ .unregister_client := by
        rintro rfl
        exact hallowed.1
      exact h.called hheld hallowed.2 hop rfl rfl rfl rfl
    | scan_begin => cases hevent
    | scan_end session => cases hevent

theorem Tabulated.initial (h : Initial d) : d.Tabulated fun _ => none := by
  have hheld := Held.initial h
  obtain ⟨_, hqueue, hcount, _⟩ := h
  refine ⟨hheld, by simp [hqueue], by simp [hqueue, hcount], by simp [hqueue]⟩

theorem Tabulated.nodup (h : d.Tabulated table) : (d.session_queue.map fun session => (d.hbas session).session.dev_id).Nodup :=
  h.held.wellformed.sessions.map_on fun s hs t ht heq => h.held.distinct s hs t ht heq

/-- The driver is a table of sessions by minor number that do not know of each other:
every run of it is one of the table, in which each session has been through the calls
made on it since it was created, and no others. -/
theorem sessions_independent {start d : Driver} {trace : List (Driver × DriverOp)} (hinit : Initial start)
    (hrun : Run Step start trace d) :
    Performs SessionsStep (fun _ => none) (seen Driver.event trace) d.table ∧
      (∀ id k, d.table id = some k → k.Reachable ∧ k.session.dev_id = id ∧ ∃ first, Hba.Created id first ∧
        Performs Hba.Step first (Keyed.life id (seen Driver.event trace)) k) ∧
      (d.session_queue.map fun session => (d.hbas session).session.dev_id).Nodup ∧
      d.last_id = UInt32.ofNat d.session_queue.length ∧
      ∀ file ∈ d.opened, ∀ session ∈ d.session_queue, (d.files file).private_data = some session →
        d.table (d.files file).minor = some (d.hbas session) := by
  obtain ⟨table, hperforms, htabulated⟩ := tabulated_simulates.run (Tabulated.initial hinit) hrun fun _ _ => trivial
  obtain rfl := htabulated.table_eq
  refine ⟨hperforms, fun minor k hthere => ?_, htabulated.nodup, htabulated.count, fun file hfile session hmem hdata => ?_⟩
  · obtain ⟨session, -, hid, rfl⟩ := (htabulated.find minor k).mp hthere
    obtain ⟨first, hcreated, hlife⟩ := Keyed.performs_life hperforms minor _ hthere
    obtain ⟨fresh, pid, hfresh, -, rfl⟩ := id hcreated
    obtain ⟨calls, hcalls, -⟩ := id hlife
    have hregister : Hba.Step fresh (.register_client pid) (fresh.apply (.register_client pid)) := by
      obtain ⟨_, _, _, _, -, rfl⟩ := id hfresh
      exact ⟨rfl, by simp [Hba.Locks], trivial, rfl⟩
    exact ⟨⟨fresh, hfresh, (lib.Reachable.refl.tail hregister).trans ⟨calls, hcalls⟩⟩, hid, _, hcreated, hlife⟩
  · exact htabulated.there hmem (htabulated.held.minor file hfile session hmem hdata)

/-- Two files of different minor numbers. -/
theorem sessions_independent_two : ∃ trace d, Run Step loaded trace d ∧ d.session_queue = [0, 1] ∧ d.last_id = 2 ∧
    (d.session_queue.map fun session => (d.hbas session).session.dev_id).Nodup := by
  have hrun := (((Run.nil.snoc (open_step loaded 3)).snoc (register_step 0 (by decide))).snoc (open_step _ 4)).snoc
    (register_step 1 (by decide))
  obtain ⟨-, -, hnodup, -⟩ := sessions_independent loaded_initial hrun
  exact ⟨_, _, hrun, rfl, rfl, hnodup⟩

end Driver

end vscsi
