import Vscsi.Lib.Rely

namespace lib.Prog

variable {Call Choice σ ε α β : Type} {Reply : Call → Type} {sem : Sem Reply Choice σ ε} {rely : σ → σ → Prop}
  {mark : Call → Choice → σ → Prop} {seen : Prop} {s : σ}

/-- Calls with a note of whether one of a kind has been made. -/
def noting (sem : Sem Reply Choice σ ε) (mark : Call → Choice → σ → Prop) : Sem Reply Choice (σ × Prop) ε :=
  fun c choice s => (sem c choice s.1).map fun r => (r.1, r.2, s.2 ∨ mark c choice s.1)

theorem noting_ok {c : Call} {choice : Choice} {s s' : σ × Prop} {r : Reply c} :
    noting sem mark c choice s = .ok (r, s') ↔ sem c choice s.1 = .ok (r, s'.1) ∧ s'.2 = (s.2 ∨ mark c choice s.1) := by
  unfold noting
  cases hsem : sem c choice s.1 with
  | error e => simp [Except.map]
  | ok reply =>
    obtain ⟨r', state⟩ := reply
    simp only [Except.map, Except.ok.injEq, Prod.mk.injEq]
    constructor
    · rintro ⟨rfl, rfl⟩
      exact ⟨⟨rfl, rfl⟩, rfl⟩
    · rintro ⟨⟨rfl, rfl⟩, hseen⟩
      exact ⟨rfl, Prod.ext rfl hseen.symm⟩

/-- A computation that makes at most one call of a kind while others change the state,
and none if one has been `seen` before. -/
abbrev Once (sem : Sem Reply Choice σ ε) (rely : σ → σ → Prop) (mark : Call → Choice → σ → Prop) (p : Prog Reply ε α)
    (seen : Prop) (s : σ) (Q : α → σ → Prop → Prop) : Prop :=
  p.Among (noting sem mark) (fun _ _ _ => True) (fun s s' => rely s.1 s'.1 ∧ s'.2 = s.2)
    (fun c choice s _ => s.2 → ¬ mark c choice s.1) (s, seen) fun a s => Q a s.1 s.2

/-- The rule for a single call. -/
theorem Once.perform {c : Call} {Q : Reply c → σ → Prop → Prop}
    (h : ∀ s', rely s s' → ∀ choice r s'', sem c choice s' = .ok (r, s'') →
      (seen → ¬ mark c choice s') ∧ Q r s'' (seen ∨ mark c choice s'))
    (hstable : ∀ r s s' seen, Q r s seen → rely s s' → Q r s' seen) :
    (Prog.perform c : Prog Reply ε (Reply c)).Once sem rely mark seen s Q := by
  refine Among.perform fun t ht choice r t' _ hcall => ?_
  obtain ⟨hsem, hseen⟩ := noting_ok.mp hcall
  obtain ⟨hnot, hpost⟩ := h t.1 ht.1 choice r t'.1 hsem
  rw [show t.2 = seen from ht.2] at hseen ⊢
  refine ⟨hnot, fun t'' ht'' => ?_⟩
  rw [ht''.2, hseen]
  exact hstable r t'.1 t''.1 _ hpost ht''.1

/-- What such a computation does with its first call. -/
theorem Once.call {c : Call} {next : Reply c → Prog Reply ε α} {Q : α → σ → Prop → Prop}
    (h : (Prog.call c next).Once sem rely mark seen s Q) {s' s'' : σ} (hrely : rely s s') {choice : Choice} {r : Reply c}
    (hsem : sem c choice s' = .ok (r, s'')) :
    (seen → ¬ mark c choice s') ∧ (next r).Once sem rely mark (seen ∨ mark c choice s') s'' Q :=
  h (s', seen) ⟨hrely, rfl⟩ choice r (s'', seen ∨ mark c choice s') trivial (noting_ok.mpr ⟨hsem, rfl⟩)

theorem Once.stable {p : Prog Reply ε α} {Q : α → σ → Prop → Prop} (h : p.Once sem rely mark seen s Q)
    (htrans : ∀ s s' s'', rely s s' → rely s' s'' → rely s s'') {s' : σ} (hrely : rely s s') :
    p.Once sem rely mark seen s' Q :=
  Among.stable h (fun _ _ _ h h' => ⟨htrans _ _ _ h.1 h'.1, h'.2.trans h.2⟩) ⟨hrely, rfl⟩

end lib.Prog
