import Vscsi.Lib.Parts
import Vscsi.Target.Startup

open lib

namespace vscsi

open hba device api scsi scsi_target

namespace Returned

/-- The LUN whose bytes a request is about. -/
def about (td : TargetData) (r : Returned) : Option UInt8 :=
  if ((newest td r.request.number).bind (·.extent? r.request.cmnd)).isSome then some r.request.number else none

/-- What a request asks, with what it brings along. -/
def asks (r : Returned) : Request × List UInt8 := (r.request, r.sent)

end Returned

/-- A LUN alone: what it answers, and what it holds then. -/
def Images.answer (td : TargetData) (n : UInt8) (bytes : Mem) (q : Request × List UInt8) : Returned × Mem :=
  match newest td n with
  | none => ({ request := q.1, sent := q.2, result := 0, received := q.2 }, bytes)
  | some ld =>
    match ld.extent? q.1.cmnd with
    | none => ({ request := q.1, sent := q.2, result := 0, received := q.2 }, bytes)
    | some e =>
      if bound ld < (e.1 + e.2 : Nat) then ({ request := q.1, sent := q.2, result := 2, received := q.2 }, bytes)
      else if q.1.cmnd.get 0 = 0x28 then
        ({ request := q.1, sent := q.2, result := 0, received := slice bytes e.1 e.2 }, bytes)
      else ({ request := q.1, sent := q.2, result := 0, received := q.2 }, blit bytes e.1 q.2)

variable {td : TargetData} {d d' d₁ d₂ : Images} {r : Returned} {n : UInt8}

theorem Returned.about_iff : r.about td = some n ↔
    r.request.number = n ∧ ∃ ld e, newest td n = some ld ∧ ld.extent? r.request.cmnd = some e := by
  unfold about
  constructor
  · intro h
    split at h
    · next hsome =>
      obtain rfl := Option.some.inj h
      obtain ⟨e, he⟩ := Option.isSome_iff_exists.mp hsome
      obtain ⟨ld, hld, hextent⟩ := Option.bind_eq_some_iff.mp he
      exact ⟨rfl, ld, e, hld, hextent⟩
    · cases h
  · rintro ⟨rfl, ld, e, hld, hextent⟩
    rw [hld, Option.bind_some, hextent]
    rfl

theorem Images.answer_eq {ld : LunData} {e : Nat × Nat} {bytes : Mem} {request : Request} {sent : List UInt8}
    (hlun : newest td n = some ld) (hextent : ld.extent? request.cmnd = some e) :
    Images.answer td n bytes (request, sent) =
      if bound ld < (e.1 + e.2 : Nat) then ({ request, sent, result := 2, received := sent }, bytes)
      else if request.cmnd.get 0 = 0x28 then ({ request, sent, result := 0, received := slice bytes e.1 e.2 }, bytes)
      else ({ request, sent, result := 0, received := sent }, blit bytes e.1 sent) := by
  simp only [Images.answer, hlun, hextent]

theorem Returned.eq_of {result : UInt32} {received : List UInt8} (hresult : r.result = result)
    (hreceived : r.received = received) : { request := r.request, sent := r.sent, result, received } = r := by
  rw [← hresult, ← hreceived]

/-- Arrays of bytes do not depend on each other. -/
theorem images_parts (td : TargetData) :
    Parts (Images.Step td) (Returned.about td) Returned.asks (Images.answer td) where
  serves d r d' n hstep hpart := by
    obtain ⟨rfl, ld, e, hlun, hextent⟩ := Returned.about_iff.mp hpart
    rw [Returned.asks, Images.answer_eq hlun hextent]
    cases hstep with
    | refused ld' e' hlun' hextent' hbeyond hresult hreceived =>
      obtain rfl := Option.some.inj (hlun.symm.trans hlun')
      obtain rfl := Option.some.inj (hextent.symm.trans hextent')
      rw [if_pos hbeyond, Returned.eq_of hresult hreceived]
    | read ld' e' hlun' hextent' hwithin hread hresult hreceived =>
      obtain rfl := Option.some.inj (hlun.symm.trans hlun')
      obtain rfl := Option.some.inj (hextent.symm.trans hextent')
      rw [if_neg hwithin, if_pos hread, Returned.eq_of hresult hreceived]
    | written ld' e' hlun' hextent' hwithin hwrite hresult hreceived =>
      obtain rfl := Option.some.inj (hlun.symm.trans hlun')
      obtain rfl := Option.some.inj (hextent.symm.trans hextent')
      rw [if_neg hwithin, if_neg hwrite, Returned.eq_of hresult hreceived, Function.update_self]
    | other hnone =>
      have hcontra := hnone ld hlun
      rw [hextent] at hcontra
      cases hcontra
  others d r d' n hstep hpart := by
    cases hstep with
    | written ld e hlun hextent hwithin hwrite hresult hreceived =>
      refine Function.update_of_ne ?_ ..
      rintro rfl
      exact hpart (Returned.about_iff.mpr ⟨rfl, ld, e, hlun, hextent⟩)
    | _ => rfl

namespace System

/-- A run of plain requests that fit a target, which starts where its LUNs hold these
bytes and ends where it is in no call. -/
structure Serving (td : TargetData) (d : Images) (start : System (targets Unit))
    (trace : List (System (targets Unit) × Act Unit)) (s : System (targets Unit)) : Prop where
  attached : start.Attached
  target : start.shared.td () = td
  images : d.In td (start.shared.world ())
  run : Run Step start trace s
  steps : ∀ e ∈ trace, e.1.Plain e.2 ∧ e.1.Fitting td e.2
  running : ∀ call loc, (s.procs ()).phase ≠ .running call loc
  completing : ∀ call status data, (s.procs ()).phase ≠ .completing call status data

/-- What comes back of the requests about a LUN. -/
def answersOf (td : TargetData) (n : UInt8) (trace : List (System (targets Unit) × Act Unit)) : List Returned :=
  (seen returned? trace).filter (Returned.about td · = some n)

variable {start₁ start₂ s₁ s₂ : System (targets Unit)} {trace₁ trace₂ : List (System (targets Unit) × Act Unit)}

/-- The LUNs of a target, with numbers, streams and files of their own, do not learn of
each other. If in two runs a LUN held the same and was asked the same, it has given the
same answers and holds the same, whatever was asked of the others and however the runs
went. -/
theorem luns_isolated (h₁ : Serving td d₁ start₁ trace₁ s₁) (h₂ : Serving td d₂ start₂ trace₂ s₂) (hstart : d₁ n = d₂ n)
    (hasked : (answersOf td n trace₁).map Returned.asks = (answersOf td n trace₂).map Returned.asks) :
    answersOf td n trace₁ = answersOf td n trace₂ ∧ ∃ bytes : Mem, ∀ ld ∈ td.luns, ld.lun = n →
      (∃ inode writable f, HasFile ld (s₁.shared.world ()) inode writable f ∧ f.bytes = bytes) ∧
      ∃ inode writable f, HasFile ld (s₂.shared.world ()) inode writable f ∧ f.bytes = bytes := by
  obtain ⟨d₁', hperforms₁, hend₁⟩ := (h₁.attached.holding h₁.target h₁.images).run h₁.run h₁.steps
  obtain ⟨d₂', hperforms₂, hend₂⟩ := (h₂.attached.holding h₂.target h₂.images).run h₂.run h₂.steps
  obtain ⟨hanswers, hbytes⟩ := (images_parts td).isolated hperforms₁ hperforms₂ hstart hasked
  refine ⟨hanswers, d₁' n, fun ld hld hlun => ⟨?_, ?_⟩⟩
  · rw [← hlun]
    exact (hend₁ h₁.running h₁.completing).bytes ld hld
  · rw [hbytes, ← hlun]
    exact (hend₂ h₂.running h₂.completing).bytes ld hld

/-- The answers about a LUN when three commands have come back, of which only the second
is about another one. -/
theorem answersOf_three {trace : List (System (targets Unit) × Act Unit)} {r₁ r₂ r₃ : Returned}
    (hseen : seen returned? trace = [r₁, r₂, r₃]) {n m : UInt8} (hne : m ≠ n) (h₁ : r₁.about td = some n)
    (h₂ : r₂.about td = some m) (h₃ : r₃.about td = some n) :
    answersOf td n trace = [r₁, r₃] ∧ answersOf td m trace = [r₂] := by
  simp [answersOf, hseen, h₁, h₂, h₃, hne, hne.symm]

/-- A block of the first LUN is written and read back, in one run while a block of the
second is written, in the other while it is read. -/
theorem luns_isolated_two_luns : ∃ td trace₁ trace₂ r r', answersOf td 0 trace₁ = [r, r'] ∧ answersOf td 0 trace₂ = [r, r'] ∧
    (answersOf td 1 trace₁).map (·.request) = [(oneBlock .write10 1).request] ∧
    (answersOf td 1 trace₂).map (·.request) = [(oneBlock .read10 1).request] := by
  obtain ⟨hoptions, hsize, hapart, td, m', hexec⟩ := main.twoImages_configured
  have hconfigured := main.configured hoptions rfl (fun _ => rfl) hexec hsize
  have hsbc : ∀ ld ∈ td.luns, ld.cmds = some .sbc := fun ld hld => hconfigured.sbc hld
  have hattached := main.started_attached td m'.state.world
  have hstandby := main.started_standby hattached hconfigured hapart
  obtain ⟨d, hd⟩ := (hconfigured.volumes hapart).images
  obtain ⟨ld, hfind, hlun, hmounted⟩ := hconfigured.placed 0 "a".toList 0 rfl rfl
  obtain ⟨ld', hfind', hlun', hmounted'⟩ := hconfigured.placed 1 "b".toList 1 rfl rfl
  have hzero : ld.lun = 0 := hlun
  have hone : ld'.lun = 1 := hlun'
  have habout {kind : MediaCommand} {n : UInt8} {ld : LunData} {fh inode : Nat} {f : File} (hkind : kind ≠ .write12)
      (hfind : newest td n = some ld) (hmounted : Mounted ld m'.state.world fh inode f) {r : Returned}
      (hrequest : r.request = (oneBlock kind n).request) : r.about td = some n := by
    refine Returned.about_iff.mpr ⟨?_, ld, (0, 512), hfind, ?_⟩
    · rw [hrequest, oneBlock_number]
    · rw [hrequest, oneBlock_extent hkind hmounted]
  have hserving (kind : MediaCommand) (hkind : kind ≠ .write12) : ∃ trace s r₁ r₂ r₃,
      Serving td d (main.started oneTarget td m'.state.world) trace s ∧
      answersOf td 0 trace = [r₁, r₃] ∧ answersOf td 1 trace = [r₂] ∧ r₂.request = (oneBlock kind 1).request ∧
      r₁.asks = ((oneBlock .write10 0).request, List.replicate 512 0xff) ∧
      r₃.asks = ((oneBlock .read10 0).request, List.replicate 512 0) := by
    obtain ⟨trace₁, s₁, hfirst, hstandby₁⟩ := hstandby.serves_oneBlock hsbc (List.mem_of_find?_eq_some hfind)
      (show MediaCommand.write10 ≠ .write12 by decide) fun _ => 0xff
    obtain ⟨trace₂, s₂, hsecond, hstandby₂⟩ := hstandby₁.serves_oneBlock hsbc (List.mem_of_find?_eq_some hfind') hkind
      fun _ => 0xff
    obtain ⟨trace₃, s₃, hthird, -⟩ := hstandby₂.serves_oneBlock hsbc (List.mem_of_find?_eq_some hfind)
      (show MediaCommand.read10 ≠ .write12 by decide) fun _ => 0
    rw [hzero] at hfirst hthird
    rw [hone] at hsecond
    obtain ⟨r₁, hseen₁, hrequest₁, hsent₁⟩ := hfirst.seen
    obtain ⟨r₂, hseen₂, hrequest₂, -⟩ := hsecond.seen
    obtain ⟨r₃, hseen₃, hrequest₃, hsent₃⟩ := hthird.seen
    have hrun := (hfirst.run.append hsecond.run).append hthird.run
    have hsteps : ∀ e ∈ trace₁ ++ trace₂ ++ trace₃, e.1.Plain e.2 ∧ e.1.Fitting td e.2 := by
      simp only [List.forall_mem_append]
      exact ⟨⟨hfirst.steps, hsecond.steps⟩, hthird.steps⟩
    have hseen : seen returned? (trace₁ ++ trace₂ ++ trace₃) = [r₁, r₂, r₃] := by
      rw [seen, List.filterMap_append, List.filterMap_append, ← seen, ← seen, ← seen, hseen₁, hseen₂, hseen₃]
      rfl
    obtain ⟨hanswers, hother⟩ := answersOf_three hseen (show (1 : UInt8) ≠ 0 by decide)
      (habout (by decide) hfind hmounted hrequest₁) (habout hkind hfind' hmounted' hrequest₂)
      (habout (by decide) hfind hmounted hrequest₃)
    have hpolling := hthird.waits.polling
    refine ⟨_, s₃, r₁, r₂, r₃, ⟨hattached, rfl, hd, hrun, hsteps, by simp [hpolling], by simp [hpolling]⟩, hanswers,
      hother, hrequest₂, ?_, ?_⟩
    · rw [Returned.asks, hrequest₁, hsent₁.trans (slice_const 0xff 0 512)]
    · rw [Returned.asks, hrequest₃, hsent₃.trans (slice_const 0 0 512)]
  obtain ⟨trace₁, s₁, r₁, q₁, r₁', hserving₁, hanswers₁, hother₁, hrequest₁, hasks₁, hasks₁'⟩ :=
    hserving .write10 (by decide)
  obtain ⟨trace₂, s₂, r₂, q₂, r₂', hserving₂, hanswers₂, hother₂, hrequest₂, hasks₂, hasks₂'⟩ :=
    hserving .read10 (by decide)
  have hasked : (answersOf td 0 trace₁).map Returned.asks = (answersOf td 0 trace₂).map Returned.asks := by
    rw [hanswers₁, hanswers₂, List.map_cons, List.map_singleton, List.map_cons, List.map_singleton, hasks₁, hasks₁',
      hasks₂, hasks₂']
  have hisolated := luns_isolated hserving₁ hserving₂ rfl hasked
  refine ⟨td, trace₁, trace₂, r₁, r₁', hanswers₁, hisolated.1.symm.trans hanswers₁, ?_, ?_⟩
  · rw [hother₁, List.map_singleton, hrequest₁]
  · rw [hother₂, List.map_singleton, hrequest₂]

end System

end vscsi
