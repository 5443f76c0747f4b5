import Vscsi.Lib.Program

namespace lib.Prog

variable {Call Choice σ ε α β : Type} {Reply : Call → Type}

/-- Every call of a computation is in `P`, and every result in `Q`. -/
def Within (P : Call → Prop) (Q : α → Prop) : Prog Reply ε α → Prop
  | ret a => Q a
  | fail _ => True
  | call c next => P c ∧ ∀ r, (next r).Within P Q

theorem Within.bind {P : Call → Prop} {Q : α → Prop} {R : β → Prop} {p : Prog Reply ε α} {f : α → Prog Reply ε β}
    (h : p.Within P Q) (hrest : ∀ a, Q a → (f a).Within P R) : (p >>= f).Within P R := by
  induction p with
  | ret a => exact hrest a h
  | fail e => trivial
  | call c next ih => exact ⟨h.1, fun r => ih r (h.2 r)⟩

theorem Within.only {P P' : Call → Prop} {Q : α → Prop} {p : Prog Reply ε α} (h : p.Within P Q) (hcalls : ∀ c, P c → P' c) :
    p.Only P' := by
  induction p with
  | ret a => trivial
  | fail e => trivial
  | call c next ih => exact ⟨hcalls c h.1, fun r => ih r (h.2 r)⟩

/-- A computation of calls that keep an invariant. -/
theorem Within.meets {P : Call → Prop} {Q : α → Prop} {I : σ → Prop} {sem : Sem Reply Choice σ ε} {ok : Choice → Prop}
    {p : Prog Reply ε α} {s : σ} (h : p.Within P Q) (hstart : I s)
    (hcall : ∀ c choice s r s', P c → I s → sem c choice s = .ok (r, s') → I s') :
    p.Meets sem ok (fun _ => True) s fun a s' => Q a ∧ I s' := by
  induction p generalizing s with
  | ret a => exact ⟨h, hstart⟩
  | fail e => trivial
  | call c next ih =>
    intro choice _
    cases hsem : sem c choice s with
    | ok reply => exact ih reply.1 (h.2 reply.1) (hcall c choice s reply.1 reply.2 h.1 hstart hsem)
    | error e => trivial

variable (sem : Sem Reply Choice σ ε) (allowed : Call → Choice → σ → Prop) (rely : σ → σ → Prop)
  (guar : Call → Choice → σ → σ → Prop)

/-- What a computation does among others that change the state between its calls.
As long as their changes are in `rely` and its calls are allowed where it makes
them, its own changes are in `guar` and its result is in `Q`. -/
def Among : Prog Reply ε α → σ → (α → σ → Prop) → Prop
  | ret a, s, Q => ∀ s', rely s s' → Q a s'
  | fail _, _, _ => True
  | call c next, s, Q => ∀ s', rely s s' → ∀ choice r s'', allowed c choice s' → sem c choice s' = .ok (r, s'') →
    guar c choice s' s'' ∧ (next r).Among s'' Q

variable {sem allowed rely guar}

theorem Among.mono {p : Prog Reply ε α} {s : σ} {Q R : α → σ → Prop} (h : p.Among sem allowed rely guar s Q)
    (hpost : ∀ a s', Q a s' → R a s') : p.Among sem allowed rely guar s R := by
  induction p generalizing s with
  | ret a => exact fun s' hrely => hpost a s' (h s' hrely)
  | fail e => trivial
  | call c next ih =>
    intro s' hrely choice r s'' hallowed hsem
    obtain ⟨hguar, hnext⟩ := h s' hrely choice r s'' hallowed hsem
    exact ⟨hguar, ih r hnext⟩

theorem Among.weaken {guar' : Call → Choice → σ → σ → Prop} {p : Prog Reply ε α} {s : σ} {Q : α → σ → Prop}
    (h : p.Among sem allowed rely guar s Q) (hguar : ∀ c choice s s', guar c choice s s' → guar' c choice s s') :
    p.Among sem allowed rely guar' s Q := by
  induction p generalizing s with
  | ret a => exact h
  | fail e => trivial
  | call c next ih =>
    intro s' hrely choice r s'' hallowed hsem
    obtain ⟨hchange, hnext⟩ := h s' hrely choice r s'' hallowed hsem
    exact ⟨hguar c choice s' s'' hchange, ih r hnext⟩

/-- The same where fewer calls are allowed. -/
theorem Among.restrict {allowed' : Call → Choice → σ → Prop} {p : Prog Reply ε α} {s : σ} {Q : α → σ → Prop}
    (h : p.Among sem allowed rely guar s Q) (hallowed : ∀ c choice s, allowed' c choice s → allowed c choice s) :
    p.Among sem allowed' rely guar s Q := by
  induction p generalizing s with
  | ret a => exact h
  | fail e => trivial
  | call c next ih =>
    intro s' hrely choice r s'' hcalled hsem
    obtain ⟨hguar, hnext⟩ := h s' hrely choice r s'' (hallowed c choice s' hcalled) hsem
    exact ⟨hguar, ih r hnext⟩

/-- The others go on changing the state. -/
theorem Among.stable {p : Prog Reply ε α} {s s' : σ} {Q : α → σ → Prop} (h : p.Among sem allowed rely guar s Q)
    (htrans : ∀ s s' s'', rely s s' → rely s' s'' → rely s s'') (hrely : rely s s') :
    p.Among sem allowed rely guar s' Q := by
  cases p with
  | ret a => exact fun s'' hrely' => h s'' (htrans _ _ _ hrely hrely')
  | fail e => trivial
  | call c next => exact fun s'' hrely' => h s'' (htrans _ _ _ hrely hrely')

theorem Among.bind {p : Prog Reply ε α} {f : α → Prog Reply ε β} {s : σ} {Q : α → σ → Prop} {R : β → σ → Prop}
    (h : p.Among sem allowed rely guar s Q) (hrefl : ∀ s, rely s s)
    (hrest : ∀ a s', Q a s' → (f a).Among sem allowed rely guar s' R) :
    (p >>= f).Among sem allowed rely guar s R := by
  induction p generalizing s with
  | ret a => exact hrest a s (h s (hrefl s))
  | fail e => trivial
  | call c next ih =>
    intro s' hrely choice r s'' hallowed hsem
    obtain ⟨hguar, hnext⟩ := h s' hrely choice r s'' hallowed hsem
    exact ⟨hguar, ih r hnext⟩

/-- The rule for a single call. -/
theorem Among.perform {c : Call} {s : σ} {Q : Reply c → σ → Prop}
    (h : ∀ s', rely s s' → ∀ choice r s'', allowed c choice s' → sem c choice s' = .ok (r, s'') →
      guar c choice s' s'' ∧ ∀ s''', rely s'' s''' → Q r s''') :
    (Prog.perform c : Prog Reply ε (Reply c)).Among sem allowed rely guar s Q := h

/-- A computation of calls that keep an invariant, which the others keep too. -/
theorem Within.among {P : Call → Prop} {Q : α → Prop} {I : σ → Prop} {p : Prog Reply ε α} {s : σ} (h : p.Within P Q)
    (hstart : I s) (hrely : ∀ s s', I s → rely s s' → I s')
    (hcall : ∀ c choice s r s', P c → I s → sem c choice s = .ok (r, s') → guar c choice s s' ∧ I s') :
    p.Among sem allowed rely guar s fun a s' => Q a ∧ I s' := by
  induction p generalizing s with
  | ret a => exact fun s' hs' => ⟨h, hrely s s' hstart hs'⟩
  | fail e => trivial
  | call c next ih =>
    intro s' hs' choice r s'' _ hsem
    obtain ⟨hguar, hinv⟩ := hcall c choice s' r s'' h.1 (hrely s s' hstart hs') hsem
    exact ⟨hguar, ih r (h.2 r) hinv⟩

/-- The same where the invariant is only kept by the calls that are allowed. -/
theorem Within.among_allowed {P : Call → Prop} {Q : α → Prop} {I : σ → Prop} {p : Prog Reply ε α} {s : σ} (h : p.Within P Q)
    (hstart : I s) (hrely : ∀ s s', I s → rely s s' → I s')
    (hcall : ∀ c choice s r s', P c → allowed c choice s → I s → sem c choice s = .ok (r, s') → guar c choice s s' ∧ I s') :
    p.Among sem allowed rely guar s fun a s' => Q a ∧ I s' := by
  induction p generalizing s with
  | ret a => exact fun s' hs' => ⟨h, hrely s s' hstart hs'⟩
  | fail e => trivial
  | call c next ih =>
    intro s' hs' choice r s'' hallowed hsem
    obtain ⟨hguar, hinv⟩ := hcall c choice s' r s'' h.1 hallowed (hrely s s' hstart hs') hsem
    exact ⟨hguar, ih r (h.2 r) hinv⟩

end lib.Prog
