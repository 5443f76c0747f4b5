import Vscsi.Lib.Run

namespace lib

variable {σ ι : Type} {step : σ → ι → σ → Prop} {start last state : σ} {steps : List (σ × ι)} {label : ι}

/-- The state in which a run takes its step at a moment; after its last step that in
which it ends. -/
def stateAt (steps : List (σ × ι)) (last : σ) (n : Nat) : σ := (steps[n]?.map (·.1)).getD last

theorem stateAt_of_get {n : Nat} (h : steps[n]? = some (state, label)) : stateAt steps last n = state := by
  rw [stateAt, h]
  rfl

theorem stateAt_end {n : Nat} (h : steps.length ≤ n) : stateAt steps last n = last := by
  rw [stateAt, List.getElem?_eq_none h]
  rfl

theorem stateAt_append {n : Nat} (h : n ≤ steps.length) : stateAt (steps ++ [(state, label)]) last n = stateAt steps state n := by
  rcases Nat.lt_or_eq_of_le h with hlt | rfl
  · rw [stateAt, stateAt, List.getElem?_append_left hlt, List.getElem?_eq_getElem hlt]
    rfl
  · rw [stateAt_end (Nat.le_refl _), stateAt_of_get List.getElem?_concat_length]

/-- The part of a run between two moments. -/
theorem Run.between (hrun : Run step start steps last) {n m : Nat} (hn : n ≤ m) (hm : m ≤ steps.length) :
    Run step (stateAt steps last n) ((steps.drop n).take (m - n)) (stateAt steps last m) := by
  induction hrun generalizing n m with
  | nil =>
    obtain rfl : m = 0 := Nat.le_zero.mp hm
    obtain rfl : n = 0 := Nat.le_zero.mp hn
    exact .nil
  | @snoc steps state next label run hstep ih =>
    rw [List.length_append, List.length_singleton] at hm
    rcases Nat.lt_or_eq_of_le hm with hlt | rfl
    · have hle : m ≤ steps.length := Nat.lt_succ_iff.mp hlt
      have hslice : ((steps ++ [(state, label)]).drop n).take (m - n) = (steps.drop n).take (m - n) := by
        rw [List.drop_append_of_le_length (Nat.le_trans hn hle), List.take_append_of_le_length]
        rw [List.length_drop]
        omega
      rw [hslice, stateAt_append (Nat.le_trans hn hle), stateAt_append hle]
      exact ih hn hle
    · rcases Nat.lt_or_eq_of_le hn with hlt | rfl
      · have hle : n ≤ steps.length := Nat.lt_succ_iff.mp hlt
        have hslice : ((steps ++ [(state, label)]).drop n).take (steps.length + 1 - n) = steps.drop n ++ [(state, label)] := by
          rw [List.drop_append_of_le_length hle, List.take_of_length_le]
          rw [List.length_append, List.length_drop, List.length_singleton]
          omega
        have hbefore := ih hle (Nat.le_refl steps.length)
        have hend : stateAt (steps ++ [(state, label)]) next (steps.length + 1) = next := stateAt_end (by simp)
        rw [List.take_of_length_le (Nat.le_of_eq List.length_drop), stateAt_end (Nat.le_refl _)] at hbefore
        rw [hslice, stateAt_append hle, hend]
        exact hbefore.snoc hstep
      · rw [Nat.sub_self, List.take_zero]
        exact .nil

theorem Run.stateAt_zero (hrun : Run step start steps last) : stateAt steps last 0 = start := by
  induction hrun with
  | nil => rfl
  | snoc run hstep ih => rw [stateAt_append (Nat.zero_le _), ih]

theorem Run.upto (hrun : Run step start steps last) {n : Nat} (hn : n ≤ steps.length) :
    Run step start (steps.take n) (stateAt steps last n) := by
  have hbetween := hrun.between (Nat.zero_le n) hn
  rwa [hrun.stateAt_zero, List.drop_zero, Nat.sub_zero] at hbetween

/-- The step at a moment. -/
theorem Run.step_at (hrun : Run step start steps last) {n : Nat} (h : steps[n]? = some (state, label)) :
    step state label (stateAt steps last (n + 1)) := by
  induction hrun with
  | nil => cases h
  | @snoc steps current next lab run hstep ih =>
    rcases Nat.lt_trichotomy n steps.length with hlt | rfl | hlt
    · rw [List.getElem?_append_left hlt] at h
      rw [stateAt_append (Nat.succ_le_of_lt hlt)]
      exact ih h
    · rw [List.getElem?_concat_length] at h
      obtain ⟨rfl, rfl⟩ := Prod.mk.inj (Option.some.inj h)
      have hend : stateAt (steps ++ [(current, lab)]) next (steps.length + 1) = next := stateAt_end (by simp)
      rw [hend]
      exact hstep
    · rw [List.getElem?_eq_none (by rw [List.length_append, List.length_singleton]; omega)] at h
      cases h

/-- A step of the part of a run between two moments. -/
theorem mem_between {n m : Nat} {e : σ × ι} (h : e ∈ (steps.drop n).take (m - n)) : ∃ k, n ≤ k ∧ k < m ∧ steps[k]? = some e := by
  obtain ⟨j, hj, rfl⟩ := List.mem_iff_getElem.mp h
  rw [List.length_take, List.length_drop] at hj
  refine ⟨n + j, Nat.le_add_right _ _, by omega, ?_⟩
  rw [List.getElem_take, List.getElem_drop]
  exact List.getElem?_eq_getElem (by omega)

/-- What holds at one moment of a run and is kept by its steps since then holds at a
later one. -/
theorem Run.invariant_since (hrun : Run step start steps last) {P : Nat → σ → Prop} {n m : Nat} (hn : n ≤ m)
    (hm : m ≤ steps.length) (hstart : P n (stateAt steps last n))
    (hkeep : ∀ k state label next, n ≤ k → k < m → steps[k]? = some (state, label) → step state label next →
      P k state → next = stateAt steps last (k + 1) → P (k + 1) next) : P m (stateAt steps last m) := by
  induction m with
  | zero =>
    obtain rfl : n = 0 := Nat.le_zero.mp hn
    exact hstart
  | succ m ih =>
    rcases Nat.lt_or_eq_of_le hn with hlt | rfl
    · obtain ⟨⟨state, label⟩, hget⟩ : ∃ e, steps[m]? = some e := ⟨_, List.getElem?_eq_getElem hm⟩
      have hbefore := ih (Nat.lt_succ_iff.mp hlt) (Nat.le_of_succ_le hm) fun k state label next hk hkm =>
        hkeep k state label next hk (Nat.lt_succ_of_lt hkm)
      rw [stateAt_of_get hget] at hbefore
      exact hkeep m _ _ _ (Nat.lt_succ_iff.mp hlt) (Nat.lt_succ_self m) hget (hrun.step_at hget) hbefore rfl
    · exact hstart

end lib
