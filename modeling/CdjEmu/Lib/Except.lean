/-
  COMPUTATIONS THAT MAY FAIL — when a chain of `Except` steps ends well.

  Each lemma turns "the whole ended with `.ok`" into what each step gave, so a proof peels a
  function of several checks apart with `obtain` and never unfolds the monad.
-/
import Mathlib

namespace CdjEmu

variable {ε α β : Type}

/-- A computation ends well exactly when each of its steps does. -/
theorem bind_eq_ok {x : Except ε α} {f : α → Except ε β} {b : β} :
    x >>= f = .ok b ↔ ∃ a, x = .ok a ∧ f a = .ok b := by
  cases x with
  | error e => exact ⟨fun h => (by cases h), fun ⟨a, h, _⟩ => (by cases h)⟩
  | ok a => exact ⟨fun h => ⟨a, rfl, h⟩, fun ⟨a', h, h'⟩ => by cases h; exact h'⟩

/-- A check that refuses lets everything else pass. -/
theorem check_eq_ok {p : Prop} [Decidable p] {e : ε} {x : Except ε α} {a : α} :
    (if p then .error e else x) = .ok a ↔ ¬ p ∧ x = .ok a := by
  by_cases hp : p
  · rw [if_pos hp]
    exact ⟨fun h => (by cases h), fun h => absurd hp h.1⟩
  · rw [if_neg hp]
    exact ⟨fun h => ⟨hp, h⟩, fun h => h.2⟩

/-- A traversal ends well exactly when every step does, with the results in order. -/
theorem mapM_eq_ok {f : α → Except ε β} {l : List α} {r : List β} :
    l.mapM f = .ok r ↔ List.Forall₂ (fun a b => f a = .ok b) l r := by
  induction l generalizing r with
  | nil =>
    rw [List.mapM_nil, List.forall₂_nil_left_iff]
    exact ⟨fun h => by cases h; rfl, fun h => by rw [h]; rfl⟩
  | cons a l ih =>
    rw [List.mapM_cons, List.forall₂_cons_left_iff, bind_eq_ok]
    constructor
    · rintro ⟨b, hb, h⟩
      obtain ⟨bs, hbs, h⟩ := bind_eq_ok.mp h
      exact ⟨b, bs, hb, ih.mp hbs, by cases h; rfl⟩
    · rintro ⟨b, bs, hb, hbs, rfl⟩
      exact ⟨b, hb, bind_eq_ok.mpr ⟨bs, ih.mpr hbs, rfl⟩⟩

/-- The traversal of `0, 1, …, n - 1`, by the index of each result. -/
theorem mapM_range_eq_ok {f : Nat → Except ε β} {n : Nat} {r : List β} :
    (List.range n).mapM f = .ok r ↔ r.length = n ∧ ∀ i b, r[i]? = some b → f i = .ok b := by
  rw [mapM_eq_ok, List.forall₂_iff_get]
  have hr := List.length_range (n := n)
  constructor
  · rintro ⟨hlen, h⟩
    rw [hr] at hlen
    refine ⟨hlen.symm, fun i b hb => ?_⟩
    obtain ⟨hi, rfl⟩ := List.getElem?_eq_some_iff.mp hb
    simpa using h i (by rw [hr]; omega) hi
  · rintro ⟨hlen, h⟩
    refine ⟨hr.trans hlen.symm, fun i h₁ h₂ => ?_⟩
    simpa using h i _ (List.getElem?_eq_getElem h₂)

end CdjEmu
