import Mathlib.Data.List.Basic
import Mathlib.Logic.Basic

namespace lib

/-- What is done to a register: which of the operations write, and what, the reads that
have returned, the writes that are finished, and the moments at which an operation works. -/
structure Register (ι V : Type) where
  writes : ι → V → Prop
  returned : ι → V → Prop
  finished : ι → Prop
  works : ι → Nat → Prop

namespace Register

variable {ι V : Type} {r : Register ι V} {init : V} {point : ι → Option Nat} {value : Nat → V} {puts : Nat → ι → V → Prop}
  {i j : ι} {v w : V} {n : Nat}

/-- What the register holds before a moment if each write takes effect at its point: what
the latest write has written, or what it held at first. -/
def Holds (r : Register ι V) (init : V) (point : ι → Option Nat) (n : Nat) (v : V) : Prop :=
  (∃ i k, r.writes i v ∧ point i = some k ∧ k < n ∧ ∀ j w m, r.writes j w → point j = some m → m < n → m ≤ k) ∨
    v = init ∧ ∀ j w m, r.writes j w → point j = some m → n ≤ m

/-- Every operation that takes effect does so at one moment at which it works, no two at
one moment, and the reads return what the register holds then. -/
structure Linearized (r : Register ι V) (init : V) (point : ι → Option Nat) : Prop where
  works : ∀ i n, point i = some n → r.works i n
  apart : ∀ i j n, point i = some n → point j = some n → i = j
  finished : ∀ i, r.finished i → point i ≠ none
  reads : ∀ i v, r.returned i v → ∃ n, point i = some n ∧ r.Holds init point n v

/-- The operations are as if each took effect at once. -/
def Atomic (r : Register ι V) (init : V) : Prop := ∃ point, r.Linearized init point

/-- A value in memory that operations work on at moments of their own. -/
structure Keeps (r : Register ι V) (init : V) (value : Nat → V) (puts : Nat → ι → V → Prop) : Prop where
  init : value 0 = init
  put : ∀ n i v, puts n i v → value (n + 1) = v
  keep : ∀ n, (∀ i v, ¬ puts n i v) → value (n + 1) = value n
  works : ∀ n i v, puts n i v → r.works i n ∧ r.writes i v
  once : ∀ n m i v w, puts n i v → puts m i w → n = m
  own : ∀ i j n, r.works i n → r.works j n → i = j
  finished : ∀ i, r.finished i → ∃ n v, puts n i v
  reads : ∀ i v, r.returned i v → (∀ w, ¬ r.writes i w) ∧ ∃ n, r.works i n ∧ value n = v
  unique : ∀ i v w, r.returned i v → r.returned i w → v = w

open Classical in
/-- The moment at which a write puts its value, or at which a read can have found what it
returned. -/
noncomputable def pointOf (r : Register ι V) (value : Nat → V) (puts : Nat → ι → V → Prop) (i : ι) : Option Nat :=
  if hput : ∃ n v, puts n i v then some hput.choose
  else if hread : ∃ n v, r.returned i v ∧ r.works i n ∧ value n = v then some hread.choose
  else none

/-- An operation with a point puts its value there, or returns what it finds there. -/
theorem of_pointOf (hpoint : r.pointOf value puts i = some n) :
    (∃ v, puts n i v) ∨ ∃ v, r.returned i v ∧ r.works i n ∧ value n = v := by
  unfold pointOf at hpoint
  split at hpoint
  · rename_i hput
    exact .inl (Option.some.inj hpoint ▸ hput.choose_spec)
  · split at hpoint
    · rename_i hread
      exact .inr (Option.some.inj hpoint ▸ hread.choose_spec)
    · cases hpoint

namespace Keeps

variable (h : r.Keeps init value puts)

include h

theorem point_of_put (hput : puts n i v) : r.pointOf value puts i = some n := by
  have hsome : ∃ n v, puts n i v := ⟨n, v, hput⟩
  obtain ⟨w, hchosen⟩ := hsome.choose_spec
  rw [pointOf, dif_pos hsome, h.once _ _ i w v hchosen hput]

/-- A write with a point puts its value there. -/
theorem put_of_point (hwrites : r.writes i w) (hpoint : r.pointOf value puts i = some n) : ∃ v, puts n i v := by
  rcases of_pointOf hpoint with hput | ⟨v, hreturned, -⟩
  · exact hput
  · exact absurd hwrites ((h.reads i v hreturned).1 w)

/-- The memory has what the register holds. -/
theorem holds (n : Nat) : r.Holds init (r.pointOf value puts) n (value n) := by
  induction n with
  | zero => exact .inr ⟨h.init, fun j w m _ _ => Nat.zero_le m⟩
  | succ n ih =>
    by_cases hput : ∃ i v, puts n i v
    · obtain ⟨i, v, hput⟩ := hput
      rw [h.put n i v hput]
      exact .inl ⟨i, n, (h.works n i v hput).2, h.point_of_put hput, Nat.lt_succ_self n, fun j w m _ _ hm => Nat.lt_succ_iff.mp hm⟩
    · have hnone : ∀ i v, ¬ puts n i v := fun i v hputs => hput ⟨i, v, hputs⟩
      have hbefore {j : ι} {w : V} {m : Nat} (hwrites : r.writes j w) (hpoint : r.pointOf value puts j = some m) : m ≠ n := by
        rintro rfl
        obtain ⟨v, hputs⟩ := h.put_of_point hwrites hpoint
        exact hnone j v hputs
      rw [h.keep n hnone]
      rcases ih with ⟨i, k, hwrites, hpoint, hk, hlatest⟩ | ⟨hinit, hlater⟩
      · refine .inl ⟨i, k, hwrites, hpoint, Nat.lt_succ_of_lt hk, fun j w m hwrites' hpoint' hm => ?_⟩
        have hne := hbefore hwrites' hpoint'
        exact hlatest j w m hwrites' hpoint' (by omega)
      · refine .inr ⟨hinit, fun j w m hwrites hpoint => ?_⟩
        have hle := hlater j w m hwrites hpoint
        have hne := hbefore hwrites hpoint
        omega

/-- A register whose writes put their values at once, and whose reads return what is
there at some moment, is atomic. -/
theorem atomic : r.Atomic init := by
  have hworks (i : ι) (n : Nat) (hpoint : r.pointOf value puts i = some n) : r.works i n := by
    rcases of_pointOf hpoint with ⟨v, hput⟩ | ⟨v, -, hworks, -⟩
    · exact (h.works n i v hput).1
    · exact hworks
  refine ⟨r.pointOf value puts, hworks, fun i j n hi hj => h.own i j n (hworks i n hi) (hworks j n hj), fun i hfinished => ?_,
    fun i v hreturned => ?_⟩
  · obtain ⟨n, v, hput⟩ := h.finished i hfinished
    rw [h.point_of_put hput]
    exact Option.some_ne_none n
  · obtain ⟨hreads, m, hm, hvalue⟩ := h.reads i v hreturned
    have hnoput : ¬ ∃ n v, puts n i v := by
      rintro ⟨n, w, hput⟩
      exact hreads w (h.works n i w hput).2
    have hread : ∃ n v, r.returned i v ∧ r.works i n ∧ value n = v := ⟨m, v, hreturned, hm, hvalue⟩
    have hpoint : r.pointOf value puts i = some hread.choose := by
      rw [pointOf, dif_neg hnoput, dif_pos hread]
    obtain ⟨w, hreturned', -, hfound⟩ := hread.choose_spec
    obtain rfl := h.unique i v w hreturned hreturned'
    exact ⟨_, hpoint, hfound ▸ h.holds _⟩

end Keeps

end Register

end lib
