import Vscsi.Lib.Simulation

namespace lib

variable {ι τ κ α : Type}

/-- What a part answers to a list of questions, and how it is left. -/
def served (serve : τ → α → κ × τ) (s : τ) (questions : List α) : List κ × τ :=
  questions.foldl (fun answers a => (answers.1 ++ [(serve answers.2 a).1], (serve answers.2 a).2)) ([], s)

theorem served_snoc (serve : τ → α → κ × τ) (s : τ) (questions : List α) (a : α) :
    served serve s (questions ++ [a]) =
      ((served serve s questions).1 ++ [(serve (served serve s questions).2 a).1],
        (serve (served serve s questions).2 a).2) := by
  rw [served, List.foldl_append, ← served]
  rfl

/-- A system made of parts. A step with a label of a part does there what the part
alone would do when asked the same, and leaves the other parts. -/
structure Parts (step : (ι → τ) → κ → (ι → τ) → Prop) (part : κ → Option ι) (asked : κ → α)
    (serve : ι → τ → α → κ × τ) : Prop where
  serves : ∀ d r d' n, step d r d' → part r = some n → serve n (d n) (asked r) = (r, d' n)
  others : ∀ d r d' n, step d r d' → part r ≠ some n → d' n = d n

section Parts

variable [DecidableEq ι] {step : (ι → τ) → κ → (ι → τ) → Prop} {part : κ → Option ι} {asked : κ → α}
  {serve : ι → τ → α → κ × τ} {d d' d₁ d₂ d₁' d₂' : ι → τ} {rs rs₁ rs₂ : List κ}

/-- What a run does in one part is what the part does when it is alone. -/
theorem Parts.projects (h : Parts step part asked serve) (hrun : Performs step d rs d') (n : ι) :
    served (serve n) (d n) ((rs.filter (part · = some n)).map asked) = (rs.filter (part · = some n), d' n) := by
  refine hrun.induction (P := fun rs d' => served (serve n) (d n) ((rs.filter (part · = some n)).map asked) =
    (rs.filter (part · = some n), d' n)) rfl ?_
  intro rs current r next ih hstep
  by_cases hpart : part r = some n
  · rw [List.filter_append, List.filter_cons_of_pos (by simpa using hpart), List.filter_nil, List.map_append,
      List.map_singleton, served_snoc, ih, h.serves current r next n hstep hpart]
  · rw [List.filter_append, List.filter_cons_of_neg (by simpa using hpart), List.filter_nil, List.append_nil, ih,
      h.others current r next n hstep hpart]

/-- Two runs that ask a part the same get the same answers from it, whatever they ask
the other parts. -/
theorem Parts.isolated (h : Parts step part asked serve) (hrun₁ : Performs step d₁ rs₁ d₁')
    (hrun₂ : Performs step d₂ rs₂ d₂') {n : ι} (hstart : d₁ n = d₂ n)
    (hasked : (rs₁.filter (part · = some n)).map asked = (rs₂.filter (part · = some n)).map asked) :
    rs₁.filter (part · = some n) = rs₂.filter (part · = some n) ∧ d₁' n = d₂' n := by
  have hserved := h.projects hrun₁ n
  rw [hstart, hasked, h.projects hrun₂ n] at hserved
  exact ⟨(congrArg Prod.fst hserved).symm, (congrArg Prod.snd hserved).symm⟩

end Parts

end lib
