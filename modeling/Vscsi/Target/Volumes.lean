import Vscsi.Lib.Simulation
import Vscsi.Scsi.Contents
import Vscsi.Target.Durability
import Vscsi.Target.Queue
import Vscsi.Target.Transparency

open lib

namespace vscsi

open hba device api scsi scsi_target

namespace Request

/-- The number of the LUN that a target takes a request for. -/
def number (r : Request) : UInt8 := UInt8.ofNat r.lun.toNat

/-- A request that says what its command needs, with a buffer of just the blocks it
is for, in their direction. -/
structure Fits (td : TargetData) (r : Request) : Prop where
  complete : needs (r.cmnd.get 0) ≤ r.cmd_len.toNat
  restarts : ¬ Restarts td r.number r.cmnd
  bufflen : ∀ ld e, newest td r.number = some ld → ld.extent? r.cmnd = some e → r.request_bufflen.toNat = e.2
  direction : ∀ ld e, newest td r.number = some ld → ld.extent? r.cmnd = some e → 0 < e.2 →
    (r.sc_data_direction = .dma_to_device ↔ r.cmnd.get 0 ≠ 0x28)

end Request

/-- A request that has come back to the mid layer: what was in its buffer until then, its
result, and what is in its buffer now. -/
structure Returned where
  request : Request
  sent : List UInt8
  result : UInt32
  received : List UInt8

/-- What the LUNs of a target hold, by their numbers. -/
abbrev Images := UInt8 → Mem

/-- What requests do to LUNs that are arrays of bytes, and what they come back with. -/
inductive Images.Step (td : TargetData) (d : Images) (r : Returned) : Images → Prop where
  | refused (ld : LunData) (e : Nat × Nat) (hlun : newest td r.request.number = some ld)
      (hextent : ld.extent? r.request.cmnd = some e) (hbeyond : bound ld < (e.1 + e.2 : Nat)) (hresult : r.result = 2)
      (hreceived : r.received = r.sent) : Images.Step td d r d
  | read (ld : LunData) (e : Nat × Nat) (hlun : newest td r.request.number = some ld)
      (hextent : ld.extent? r.request.cmnd = some e) (hwithin : ¬ bound ld < (e.1 + e.2 : Nat))
      (hread : r.request.cmnd.get 0 = 0x28) (hresult : r.result = 0)
      (hreceived : r.received = slice (d r.request.number) e.1 e.2) : Images.Step td d r d
  | written (ld : LunData) (e : Nat × Nat) (hlun : newest td r.request.number = some ld)
      (hextent : ld.extent? r.request.cmnd = some e) (hwithin : ¬ bound ld < (e.1 + e.2 : Nat))
      (hwrite : r.request.cmnd.get 0 ≠ 0x28) (hresult : r.result = 0) (hreceived : r.received = r.sent) :
      Images.Step td d r (Function.update d r.request.number (blit (d r.request.number) e.1 r.sent))
  | other (hnone : ∀ ld, newest td r.request.number = some ld → ld.extent? r.request.cmnd = none) : Images.Step td d r d

/-- The LUNs of a target hold these bytes. -/
structure Images.In (d : Images) (td : TargetData) (w : World) : Prop where
  volumes : Volumes td w
  bytes : ∀ ld ∈ td.luns, ∃ inode writable f, HasFile ld w inode writable f ∧ f.bytes = d ld.lun

theorem scsi_target.Volumes.images {td : TargetData} {w : World} (h : Volumes td w) : ∃ d : Images, d.In td w := by
  have hbytes (lun : UInt8) : ∃ bytes : Mem, ∀ ld ∈ td.luns, ld.lun = lun →
      ∃ inode writable f, HasFile ld w inode writable f ∧ f.bytes = bytes := by
    by_cases hlun : ∃ ld ∈ td.luns, ld.lun = lun
    · obtain ⟨ld, hld, rfl⟩ := hlun
      obtain ⟨inode, writable, f, hholds⟩ := h.holds ld hld
      refine ⟨f.bytes, fun ld' hld' hsame => ?_⟩
      obtain rfl := h.numbers ld' hld' ld hld hsame
      exact ⟨inode, writable, f, hholds, rfl⟩
    · exact ⟨fun _ => 0, fun ld hld hsame => absurd ⟨ld, hld, hsame⟩ hlun⟩
  choose d hd using hbytes
  exact ⟨d, h, fun ld hld => hd ld.lun ld hld rfl⟩

theorem scsi_target.Disks.volumes {td : TargetData} {w : World} (h : Disks td w) (hcmds : ∀ ld ∈ td.luns, ld.cmds = some .sbc) :
    Volumes td w where
  type := h.type
  cmds ld hld := ⟨.sbc, hcmds ld hld⟩
  numbers := h.numbers
  streams := h.streams
  files := h.files
  holds ld hld := by
    obtain ⟨fh, inode, f, hmounted⟩ := h.mounted ld hld (hcmds ld hld)
    exact ⟨inode, true, f, fh, hmounted.lun_fh, World.volume_iff.mp hmounted.volume⟩

/-- What a call that was made for a request comes to, and what the request comes
back with. -/
structure Returned.From (r : Returned) (call : Invocation) (status : UInt8) (data : Mem) : Prop where
  lun : call.lun = r.request.number
  cdb : Agree r.request.cmd_len.toNat call.cdb r.request.cmnd
  length : r.sent.length = r.request.request_bufflen.toNat
  sent : r.request.sc_data_direction = .dma_to_device → slice call.data 0 r.request.request_bufflen.toNat = r.sent
  result : status.toNat < 128 → r.result = status.toUInt32
  received : r.received = if r.request.sc_data_direction ≠ .dma_to_device ∧ status = 0 then
    slice data 0 r.request.request_bufflen.toNat else r.sent

section Commands

variable {td : TargetData} {d : Images} {r : Returned} {call : Invocation} {status : UInt8} {data : Mem} {x x' : Space}

theorem Request.Fits.agree {q : Request} {cdb : Cdb} (h : q.Fits td) (hcdb : Agree q.cmd_len.toNat cdb q.cmnd) :
    Agree (needs (q.cmnd.get 0)) cdb q.cmnd :=
  fun i hi => hcdb i (Nat.lt_of_lt_of_le hi h.complete)

theorem Request.Fits.not_restarts {q : Request} {cdb : Cdb} (h : q.Fits td) (hcdb : Agree q.cmd_len.toNat cdb q.cmnd) :
    ¬ Restarts td q.number cdb := by
  rintro ⟨ld, cmds, hlun, hcmds, hmmc, hop, hprofile⟩
  have hopcode : cdb.get 0 = q.cmnd.get 0 := h.agree hcdb 0 (needs_pos _)
  exact h.restarts ⟨ld, cmds, hlun, hcmds, hmmc, hopcode.symm.trans hop, hprofile⟩

/-- A command that puts nothing into the LUNs leaves what they hold. -/
theorem Images.In.same (h : d.In td x.world) (hran : RunsTo td call.lun call.cdb x (status, td) x')
    (hnone : ∀ ld ∈ td.luns, ld.put? call.lun call.cdb status x.data = none) : d.In td x'.world where
  volumes := hran.volumes
  bytes ld hld := by
    obtain ⟨inode, writable, f, hholds, hbytes⟩ := h.bytes ld hld
    have hkept := hran.contents ld hld inode writable f hholds
    rw [hnone ld hld] at hkept
    exact ⟨inode, writable, f, hkept, hbytes⟩

/-- One that puts something into a LUN changes that one. -/
theorem Images.In.written (h : d.In td x.world) {ld : LunData} {e : Nat × Nat}
    (hran : RunsTo td call.lun call.cdb x (0, td) x') (hlun : newest td call.lun = some ld)
    (hextent : ld.extent? call.cdb = some e) (hwrite : call.cdb.get 0 ≠ 0x28) :
    Images.In (Function.update d call.lun (blit (d call.lun) e.1 (slice x.data 0 e.2))) td x'.world where
  volumes := hran.volumes
  bytes ld' hld' := by
    have hld := List.mem_of_find?_eq_some hlun
    have hnumber : ld.lun = call.lun := by simpa using List.find?_some hlun
    obtain ⟨inode, writable, f, hholds, hbytes⟩ := h.bytes ld' hld'
    have hkept := hran.contents ld' hld' inode writable f hholds
    refine ⟨inode, writable, _, hkept, ?_⟩
    by_cases hsame : ld'.lun = call.lun
    · obtain rfl := h.volumes.numbers ld' hld' ld hld (hsame.trans hnumber.symm)
      rw [LunData.put?, if_pos ⟨hsame, rfl, hwrite⟩, hextent, hsame, Function.update_self, ← hsame, ← hbytes]
      exact f.pwrite_bytes _ _
    · rw [LunData.put?_none (.inl hsame), Function.update_of_ne hsame]
      exact hbytes

/-- A command that has been answered does to the LUNs what it would do to arrays of bytes. -/
theorem Images.In.answered (h : d.In td x.world) (hfits : r.request.Fits td) (hcall : r.From call status data)
    (hdata : x.data = call.data) (hleft : x'.data = data) (hran : RunsTo td call.lun call.cdb x (status, td) x') :
    ∃ d', Images.Step td d r d' ∧ d'.In td x'.world := by
  have hagree := hfits.agree hcall.cdb
  have hopcode : call.cdb.get 0 = r.request.cmnd.get 0 := hagree 0 (needs_pos _)
  have hextents (ld : LunData) : ld.extent? call.cdb = ld.extent? r.request.cmnd := extent?_agree ld hagree
  by_cases hnone : ∀ ld, newest td r.request.number = some ld → ld.extent? r.request.cmnd = none
  · refine ⟨d, .other hnone, h.same hran fun ld hld => ?_⟩
    by_cases hsame : ld.lun = call.lun
    · cases hfind : newest td call.lun with
      | none =>
        have hmissed := List.find?_eq_none.mp hfind ld hld
        simp [hsame] at hmissed
      | some ld' =>
        have hnumber : ld'.lun = call.lun := by simpa using List.find?_some hfind
        obtain rfl := h.volumes.numbers ld hld ld' (List.mem_of_find?_eq_some hfind) (hsame.trans hnumber.symm)
        rw [hcall.lun] at hfind
        exact LunData.put?_none (.inr (.inr (.inr ((hextents ld).trans (hnone ld hfind))))) _
    · exact LunData.put?_none (.inl hsame) _
  · simp only [not_forall] at hnone
    obtain ⟨ld, hlun, hsome⟩ := hnone
    obtain ⟨e, hextent⟩ := Option.ne_none_iff_exists'.mp hsome
    have hlun' : newest td call.lun = some ld := by rw [hcall.lun, hlun]
    have hextent' : ld.extent? call.cdb = some e := (hextents ld).trans hextent
    have hstatus := hran.status ld e hlun' hextent'
    have hlength := hfits.bufflen ld e hlun hextent
    by_cases hbeyond : bound ld < (e.1 + e.2 : Nat)
    · -- the command is refused
      obtain rfl : status = 2 := hstatus.trans (if_pos hbeyond)
      have hrefused : (2 : UInt8) ≠ 0 := by decide
      refine ⟨d, .refused ld e hlun hextent hbeyond (hcall.result (by decide)) ?_, h.same hran fun ld _ => ?_⟩
      · rw [hcall.received, if_neg (fun hzero => hrefused hzero.2)]
      · exact LunData.put?_none (.inr (.inl hrefused)) _
    · obtain rfl : status = 0 := hstatus.trans (if_neg hbeyond)
      have hempty : e.2 = 0 → r.sent = [] := fun hzero =>
        List.eq_nil_of_length_eq_zero (by rw [hcall.length, hlength, hzero])
      by_cases hread : r.request.cmnd.get 0 = 0x28
      · refine ⟨d, .read ld e hlun hextent hbeyond hread (hcall.result (by decide)) ?_, h.same hran fun ld _ => ?_⟩
        · obtain ⟨inode, writable, f, hholds, hbytes⟩ := h.bytes ld (List.mem_of_find?_eq_some hlun)
          have hnumber : ld.lun = r.request.number := by simpa using List.find?_some hlun
          have hgot := hran.read ld e inode writable f hlun' hextent' hholds (hopcode.trans hread) rfl
          rw [hleft, hbytes, hnumber] at hgot
          rw [hcall.received, hlength]
          split
          · exact hgot
          · rename_i hdirection
            have hzero : e.2 = 0 := by
              by_contra hpositive
              refine hdirection ⟨fun hout => ?_, rfl⟩
              exact (hfits.direction ld e hlun hextent (Nat.pos_of_ne_zero hpositive)).mp hout hread
            rw [hempty hzero, hzero, slice_zero]
        · exact LunData.put?_none (.inr (.inr (.inl (hopcode.trans hread)))) _
      · have hwrite : call.cdb.get 0 ≠ 0x28 := fun heq => hread (hopcode.symm.trans heq)
        have hwritten := h.written hran hlun' hextent' hwrite
        have hsent : slice x.data 0 e.2 = r.sent := by
          by_cases hzero : e.2 = 0
          · rw [hempty hzero, hzero, slice_zero]
          · have hout := (hfits.direction ld e hlun hextent (Nat.pos_of_ne_zero hzero)).mpr hread
            rw [hdata, ← hlength, hcall.sent hout]
        rw [hsent, hcall.lun] at hwritten
        refine ⟨_, .written ld e hlun hextent hbeyond hread (hcall.result (by decide)) ?_, hwritten⟩
        rw [hcall.received, hlength]
        split
        · rename_i hdirection
          have hzero : e.2 = 0 := by
            by_contra hpositive
            exact hdirection.1 ((hfits.direction ld e hlun hextent (Nat.pos_of_ne_zero hpositive)).mpr hread)
          rw [hempty hzero, hzero, slice_zero]
        · rfl

end Commands

namespace System

section Engines

variable {E : Engine Unit}

/-- The request that a step brings back to the mid layer. What was in its buffer just
before is what the target got: plain steps leave the buffers of queued commands alone,
and nothing else completes while the target is in this one. -/
def returned? (s : System E) : Act Unit → Option Returned
  | .complete _ => s.hba.queue.head?.map fun addr =>
    { request := (s.hba.cmnds (s.hba.tasks addr).sc).request
      sent := s.hba.buffer (s.hba.tasks addr).sc
      result := ((s.afterComplete ()).hba.cmnds (s.hba.tasks addr).sc).result
      received := (s.afterComplete ()).hba.buffer (s.hba.tasks addr).sc }
  | _ => none

/-- The mid layer only submits requests that fit the target. -/
def Fitting (td : TargetData) (s : System E) : Act Unit → Prop
  | .kernel (.queuecommand sc _) => (s.hba.cmnds sc).request.Fits td
  | _ => True

/-- What the first request of the queue comes back with is made of what its call came to. -/
theorem Detour.returned {s : System E} (h : s.Detour) {call : Invocation} {status : UInt8} {data : Mem}
    (hphase : (s.procs ()).phase = .completing call status data) :
    ∃ addr r, addr ∈ s.hba.queue ∧ s.returned? (.complete ()) = some r ∧
      r.request = (s.hba.cmnds (s.hba.tasks addr).sc).request ∧ r.From call status data := by
  have hstage := h.stage
  simp only [Hba.Stage, hphase] at hstage
  obtain ⟨addr, task, hhead, hd, hl, rfl, htask⟩ := hstage
  have hplain := h.plain addr hhead.mem
  have hcalls := calls_invocation hplain hd hl
  have hcompleted := h.completion hhead hd htask
  obtain ⟨rest, hqueue, -⟩ := id hhead
  have hfound : s.returned? (.complete ()) = some
      { request := (s.hba.cmnds (s.hba.tasks addr).sc).request
        sent := s.hba.buffer (s.hba.tasks addr).sc
        result := ((s.afterComplete ()).hba.cmnds (s.hba.tasks addr).sc).result
        received := (s.afterComplete ()).hba.buffer (s.hba.tasks addr).sc } := by
    rw [returned?, hqueue, List.head?_cons, Option.map_some]
  refine ⟨addr, _, hhead.mem, hfound, rfl, ?_⟩
  have hlun : task.invocation.lun = UInt8.ofNat (s.hba.cmnds (s.hba.tasks addr).sc).lun.toNat := by
    rw [← hcalls.lun, UInt8.ofNat_toNat]
  exact {
    lun := hlun
    cdb := hcalls.cdb
    length := RequestBuffer.contents_length (fun table htable => (hplain.segments table htable).1) _
    sent := hcalls.data
    result := hcompleted.result
    received := hcompleted.buffer }

end Engines

variable {s s' : System (targets Unit)} {act : Act Unit} {td : TargetData} {d : Images} {call : Invocation} {loc loc' : Running}
  {x x' : Storage Unit}

/-- A call that has left its LUNs in some state and its data. -/
def Left (td : TargetData) (d : Images) (call : Invocation) (status : UInt8) (y : Space) : Prop :=
  ∃ y₀, y₀.data = call.data ∧ d.In td y₀.world ∧ RunsTo td call.lun call.cdb y₀ (status, td) y

/-- How far a call is that found the LUNs with some bytes. -/
def Underway (td : TargetData) (d : Images) (call : Invocation) (x : Storage Unit) : Running → Prop
  | .called call' => call' = call ∧ d.In td (x.world ())
  | .executing _ code data => ∃ y₀ : Space, y₀.data = call.data ∧ d.In td y₀.world ∧
      Settles code (x.space () data) (RunsTo td call.lun call.cdb y₀)
  | .returned status data => Left td d call status (x.space () data)

/-- A step of a call takes it further. -/
theorem Underway.step (h : Underway td d call x loc) (htd : x.td () = td) (hrestarts : ¬ Restarts td call.lun call.cdb)
    (hstep : Running.Step () loc x loc' x') : x'.td () = td ∧ Underway td d call x' loc' := by
  cases hstep with
  | enter call' fuel =>
    obtain ⟨rfl, himages⟩ := h
    refine ⟨htd, x.space () call'.data, rfl, himages, ?_⟩
    rw [htd]
    exact run_settles himages.volumes hrestarts fuel call'.data_size
  | libc call' c next data _ choice r y hcall =>
    obtain ⟨y₀, hdata, himages, hsettles⟩ := h
    have hnext := hsettles choice trivial
    rw [hcall] at hnext
    refine ⟨htd, y₀, hdata, himages, ?_⟩
    have hsame : (x.after () call' y.world (c.passes choice (x.space () data))).space () y.data = y := by
      simp only [Storage.space, Storage.world, Storage.after, Function.update_self]
    rw [hsame]
    exact hnext
  | leave call' status td' data =>
    obtain ⟨y₀, hdata, himages, hran⟩ := h
    obtain rfl : td' = td := hran.target
    refine ⟨?_, y₀, hdata, himages, hran⟩
    simp only [Function.update_self]

/-- What the LUNs hold, or held when the call was made that is under way. -/
def Shows (td : TargetData) (d : Images) (s : System (targets Unit)) : Prop :=
  match (s.procs ()).phase with
  | .running call loc => Underway td d call s.shared loc
  | .completing call status data => Left td d call status (s.shared.space () data)
  | _ => d.In td (s.shared.world ())

theorem shows_iff (hrunning : ∀ call loc, (s.procs ()).phase ≠ .running call loc)
    (hcompleting : ∀ call status data, (s.procs ()).phase ≠ .completing call status data) :
    s.Shows td d ↔ d.In td (s.shared.world ()) := by
  unfold Shows
  split
  · exact absurd ‹_› (hrunning _ _)
  · exact absurd ‹_› (hcompleting _ _ _)
  · exact Iff.rfl

/-- The requests in the queue fit the target, whose LUNs hold these bytes for the
mid layer. -/
structure Holding (td : TargetData) (s : System (targets Unit)) (d : Images) : Prop where
  detour : s.Detour
  fits : ∀ task ∈ s.hba.queue, (s.hba.cmnds (s.hba.tasks task).sc).request.Fits td
  target : s.shared.td () = td
  images : s.Shows td d

/-- Nothing changes between calls, and a call goes on by its steps. -/
theorem Shows.step (h : s.Shows td d) (htd : s.shared.td () = td)
    (hrestarts : ∀ call loc, (s.procs ()).phase = .running call loc → ¬ Restarts td call.lun call.cdb)
    (hplain : s.Plain act) (hexited : (s.procs ()).phase ≠ .exited) (hcomplete : act ≠ .complete ())
    (hstep : s.Step act s') : s'.shared.td () = td ∧ s'.Shows td d := by
  rcases step_storage hstep with hshared | ⟨pid, rfl, -⟩ | ⟨pid, call, loc, loc', rfl, hphase, hrun⟩ |
    ⟨pid, n, stream, -, hphase, -⟩
  · refine ⟨by rw [hshared, htd], ?_⟩
    cases step_progress hstep () with
    | other hproc =>
      unfold Shows at h ⊢
      rw [hproc, hshared]
      exact h
    | idle hbefore _ hlast hafter hcompleting =>
      rw [shows_iff hafter hcompleting, hshared]
      exact (shows_iff hbefore fun call status data hphase => hcomplete (hlast call status data hphase)).mp h
    | started hact hphase hphase' =>
      have himages := (shows_iff (by simp [hphase]) (by simp [hphase])).mp h
      rw [Shows, hphase', hshared]
      exact ⟨rfl, himages⟩
    | ran call loc loc' hact hphase hphase' hrun =>
      rw [Shows, hphase] at h
      rw [Shows, hphase']
      exact (h.step htd (hrestarts call loc hphase) hrun).2
    | finished call status data hact hphase hphase' =>
      rw [Shows, hphase] at h
      rw [Shows, hphase', hshared]
      exact h
    | killed hact =>
      rw [hact] at hplain
      exact hplain.elim
    | flushed n stream hact hphase => exact absurd hphase hexited
  · exact hplain.elim
  · obtain ⟨call', loc₁, loc₂, shared, hphase', hrun', rfl⟩ := hstep
    obtain ⟨rfl, rfl⟩ := Phase.running.inj (hphase.symm.trans hphase')
    rw [Shows, hphase] at h
    rw [Shows, setProc_self]
    exact h.step htd (hrestarts call loc hphase) hrun'
  · exact absurd hphase hexited

/-- A call is never one that starts a new image. -/
theorem Holding.not_restarts (h : s.Holding td d) {call : Invocation} {loc : Running}
    (hphase : (s.procs ()).phase = .running call loc) : ¬ Restarts td call.lun call.cdb := by
  have hstage := h.detour.stage
  simp only [Hba.Stage, hphase] at hstage
  obtain ⟨addr, hhead, hd, hl, rfl⟩ := hstage
  have hcalls := calls_invocation (h.detour.plain addr hhead.mem) hd hl
  have hlun : (s.procs ()).task.invocation.lun = (s.hba.cmnds (s.hba.tasks addr).sc).request.number := by
    rw [Request.number, ScsiCmnd.request, ← hcalls.lun, UInt8.ofNat_toNat]
  rw [hlun]
  exact (h.fits addr hhead.mem).not_restarts hcalls.cdb

/-- The requests in the queue go on fitting. -/
theorem Holding.fits_step (h : s.Holding td d) (hfitting : s.Fitting td act) (hstep : s.Step act s') :
    ∀ task ∈ s'.hba.queue, (s'.hba.cmnds (s'.hba.tasks task).sc).request.Fits td := by
  intro task htask
  rcases step_queue h.detour.sound.valid hstep htask with hkept | ⟨sc, slot, rfl, hfresh⟩
  · rw [hkept.request]
    exact h.fits task hkept.queued
  · rw [hfresh.request]
    exact hfitting

/-- A step that brings back no request leaves the bytes alone. -/
theorem Holding.keeps (h : s.Holding td d) (hplain : s.Plain act) (hfitting : s.Fitting td act)
    (hcomplete : act ≠ .complete ()) (hstep : s.Step act s') : s'.Holding td d := by
  obtain ⟨htd, himages⟩ := h.images.step h.target (fun _ _ hphase => h.not_restarts hphase) hplain (h.detour.not_exited ())
    hcomplete hstep
  exact ⟨h.detour.step hplain hstep, h.fits_step hfitting hstep, htd, himages⟩

/-- A completion answers the first request of the queue as the arrays of bytes would. -/
theorem Holding.completes (h : s.Holding td d) (hstep : s.Step (.complete ()) s') :
    ∃ r d', s.returned? (.complete ()) = some r ∧ Images.Step td d r d' ∧ s'.Holding td d' := by
  obtain ⟨-, ⟨call, status, data, hphase⟩, hafter⟩ := id hstep
  obtain ⟨addr, r, haddr, hreturned, hrequest, hfrom⟩ := h.detour.returned hphase
  have himages := h.images
  rw [Shows, hphase] at himages
  obtain ⟨y₀, hdata, hin, hran⟩ := himages
  obtain ⟨d', habstract, hin'⟩ := hin.answered (hrequest ▸ h.fits addr haddr) hfrom hdata rfl hran
  have hshared : s'.shared = s.shared := by rw [hafter, afterComplete]; rfl
  have hquiet : s'.Shows td d' ↔ d'.In td (s'.shared.world ()) := by
    have hphase' := @check_quiet Unit _ (complete_scsi_task s.hba (s.procs ()).task).1 .polling ⟨by simp, by simp⟩
    rw [hafter]
    refine shows_iff ?_ ?_ <;> rw [afterComplete, setProc_self]
    exacts [hphase'.1, hphase'.2]
  have hplain : s.Plain (.complete ()) := trivial
  have hfitting : s.Fitting td (.complete ()) := trivial
  refine ⟨r, d', hreturned, habstract, h.detour.step hplain hstep, h.fits_step hfitting hstep, ?_, hquiet.mpr ?_⟩
  · rw [hshared, h.target]
  · rw [hshared]
    exact hin'

/-- The session with its target is a forward simulation of arrays of bytes. -/
theorem holding_simulates (td : TargetData) : Simulation (@Step Unit _ (targets Unit)) (fun s act => s.Plain act ∧ s.Fitting td act)
    returned? (Images.Step td) (Holding td) where
  hidden s act s' d h hallowed hstep hhidden := by
    refine h.keeps hallowed.1 hallowed.2 ?_ hstep
    rintro rfl
    obtain ⟨r, -, hreturned, -⟩ := h.completes hstep
    rw [hreturned] at hhidden
    cases hhidden
  visible s act s' d r h hallowed hstep hvisible := by
    cases act with
    | complete pid =>
      obtain ⟨r', d', hreturned, habstract, h'⟩ := h.completes hstep
      obtain rfl := Option.some.inj (hreturned.symm.trans hvisible)
      exact ⟨d', habstract, h'⟩
    | _ => cases hvisible

variable {start : System (targets Unit)} {trace : List (System (targets Unit) × Act Unit)}

theorem Attached.holding (h : start.Attached) (htd : start.shared.td () = td) (himages : d.In td (start.shared.world ())) :
    start.Holding td d := by
  have hphase : (start.procs ()).phase = .polling := by rw [h.polling]
  refine ⟨.attached h, fun task htask => ?_, htd, (shows_iff (by simp [hphase]) (by simp [hphase])).mpr himages⟩
  rw [h.empty] at htask
  cases htask

/-- The run lemma of `holding_simulates`. -/
theorem Holding.run (h : start.Holding td d) (hrun : Run Step start trace s)
    (hsteps : ∀ e ∈ trace, e.1.Plain e.2 ∧ e.1.Fitting td e.2) :
    ∃ d', Performs (Images.Step td) d (seen returned? trace) d' ∧
      ((∀ call loc, (s.procs ()).phase ≠ .running call loc) →
        (∀ call status data, (s.procs ()).phase ≠ .completing call status data) → d'.In td (s.shared.world ())) := by
  obtain ⟨d', hperforms, hholding⟩ := (holding_simulates td).run h hrun hsteps
  exact ⟨d', hperforms, fun hrunning hcompleting => (shows_iff hrunning hcompleting).mp hholding.images⟩

/-- To the mid layer a target whose LUNs have numbers, streams and files of their own
is an array of bytes for each of them. In every run of plain requests that fit, what
the requests come back with, one after another, is what they would come back with from
such arrays; and whenever the target is in no call its LUNs hold what the arrays hold
by then. -/
theorem images_refined (h : start.Attached) (htd : start.shared.td () = td) (himages : d.In td (start.shared.world ()))
    (hrun : Run Step start trace s) (hsteps : ∀ e ∈ trace, e.1.Plain e.2 ∧ e.1.Fitting td e.2) :
    ∃ d', Performs (Images.Step td) d (seen returned? trace) d' ∧
      ((∀ call loc, (s.procs ()).phase ≠ .running call loc) →
        (∀ call status data, (s.procs ()).phase ≠ .completing call status data) → d'.In td (s.shared.world ())) :=
  (h.holding htd himages).run hrun hsteps

theorem writeTrace_plain : ∀ e ∈ writeTrace, e.1.Plain e.2 ∧ e.1.Fitting (diskTarget 1) e.2 := by
  have hplain : oneBlockWrite.request.Plain :=
    { cmd_len := by decide, request_bufflen := by decide, mapped := trivial, lun := by decide,
      direction := by decide, positive := fun _ => by decide, segments := nofun }
  have hfits : oneBlockWrite.request.Fits (diskTarget 1) := by
    have hnewest : newest (diskTarget 1) oneBlockWrite.request.number = some (newLun 0 "disk".toList .hd 1 0 (some 0)) := rfl
    have hextent : (newLun 0 "disk".toList .hd 1 0 (some 0)).extent? oneBlockWrite.request.cmnd = some (0, 512) := by decide
    refine ⟨by decide, ?_, fun ld e hlun he => ?_, fun ld e _ _ _ => ⟨fun _ => by decide, fun _ => rfl⟩⟩
    · rintro ⟨ld, cmds, -, -, -, hopcode, -⟩
      exact absurd hopcode (by decide)
    · obtain rfl := Option.some.inj (hnewest.symm.trans hlun)
      obtain rfl := Option.some.inj (hextent.symm.trans he)
      rfl
  intro e he
  simp only [writeTrace, List.mem_cons, List.not_mem_nil, or_false] at he
  rcases he with rfl | rfl | rfl | rfl | rfl | rfl | rfl | rfl
  · exact ⟨fun task ht => absurd ht List.not_mem_nil, trivial⟩
  · exact ⟨hplain, hfits⟩
  · exact ⟨trivial, trivial⟩
  · exact ⟨trivial, trivial⟩
  · exact ⟨trivial, trivial⟩
  · exact ⟨trivial, trivial⟩
  · exact ⟨trivial, trivial⟩
  · exact ⟨trivial, trivial⟩

/-- The write of one block comes back, however the library passes it on. -/
theorem one_block_returns (choice : Choice) (hall : 512 ≤ choice.amount) : ∃ trace s r,
    Run Step (diskAlone oneTarget) trace s ∧ (∀ e ∈ trace, e.1.Plain e.2 ∧ e.1.Fitting (diskTarget 1) e.2) ∧
    seen returned? trace = [r] ∧ r.request = oneBlockWrite.request ∧ r.sent = writeStarted.hba.buffer 0 ∧
    (∀ call loc, (s.procs ()).phase ≠ .running call loc) ∧
    ∀ call status data, (s.procs ()).phase ≠ .completing call status data := by
  obtain ⟨during, s, hexecutes, hlabels, hhba, -⟩ := one_block_executes choice hall
  have hcomplete : s.Step (.complete ()) (s.afterComplete ()) := by
    refine ⟨?_, ⟨_, _, _, hexecutes.completing⟩, rfl⟩
    rw [hhba]
    exact ⟨rfl, rfl⟩
  have hreturned : ∃ r, s.returned? (.complete ()) = some r ∧ r.request = oneBlockWrite.request ∧
      r.sent = writeStarted.hba.buffer 0 := by
    have hqueue : s.hba.queue = [8] := by rw [hhba]; rfl
    have hsc : (s.hba.tasks 8).sc = 0 := by rw [hhba]; rfl
    rw [returned?, hqueue, List.head?_cons, Option.map_some]
    refine ⟨_, rfl, ?_, ?_⟩
    · rw [hsc, hhba]
      rfl
    · rw [hsc, hhba]
  obtain ⟨r, hr, hrequest, hsent⟩ := hreturned
  have hsilent : seen returned? during = [] := by
    refine List.filterMap_eq_nil_iff.mpr fun e he => ?_
    obtain ⟨t, act⟩ := e
    rcases (hlabels _ he).2 with rfl | rfl <;> rfl
  have hfirst : seen returned? writeTrace = [] := rfl
  have hphase := @check_quiet Unit _ (complete_scsi_task s.hba (s.procs ()).task).1 .polling ⟨by simp, by simp⟩
  refine ⟨_, _, r, (write_run.append hexecutes.run).snoc hcomplete, fun e he => ?_, ?_, hrequest, hsent, ?_, ?_⟩
  · rcases List.mem_append.mp he with he | he
    · rcases List.mem_append.mp he with he | he
      · exact writeTrace_plain e he
      · obtain ⟨t, act⟩ := e
        rcases (hlabels _ he).2 with rfl | rfl <;> exact ⟨trivial, trivial⟩
    · rw [List.mem_singleton.mp he]
      exact ⟨trivial, trivial⟩
  · rw [seen_snoc, seen, List.filterMap_append, ← seen, ← seen, hfirst, hsilent, hr]
    rfl
  · rw [afterComplete, setProc_self]
    exact hphase.1
  · rw [afterComplete, setProc_self]
    exact hphase.2

/-- The write of one block is a step of the arrays. -/
theorem images_refined_one_block : ∃ trace s d d', Run Step (diskAlone oneTarget) trace s ∧
    (seen returned? trace).length = 1 ∧ Performs (Images.Step (diskTarget 1)) d (seen returned? trace) d' ∧
    d'.In (diskTarget 1) (s.shared.world ()) := by
  obtain ⟨trace, s, r, hrun, hsteps, hseen, -, -, hrunning, hcompleting⟩ := one_block_returns .whole (by decide)
  obtain ⟨d, hd⟩ := ((diskTarget_disks 1).volumes fun ld hld => by rw [List.mem_singleton.mp hld]; rfl).images
  obtain ⟨d', hperforms, himages⟩ := images_refined diskAlone_opened.attached rfl hd hrun hsteps
  exact ⟨trace, s, d, d', hrun, by rw [hseen]; rfl, hperforms, himages hrunning hcompleting⟩

end System

end vscsi
