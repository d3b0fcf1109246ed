/-
  STRIDES — the points `a, a + d, a + 2d, …` below a bound.

  A loop that adds `d` to `a` while it is below `b` visits `points a d b`, and leaves `a + count a d
  b * d`.  A stride that is stopped at one bound goes on from there to the next (`count_add`,
  `points_add`), and the origin may be moved along with it (`count_shift`, `points_shift`).
-/
import Mathlib

namespace CdjEmu.Stride

variable {K : Type} [Field K] [LinearOrder K] [IsStrictOrderedRing K] [FloorSemiring K]
    {a b c d : K}

/-- How many of the points are below `b`. -/
def count (a d b : K) : Nat := ⌈(b - a) / d⌉₊

def points (a d b : K) : List K := (List.range (count a d b)).map fun (k : Nat) => a + k * d

theorem lt_count (hd : 0 < d) {k : Nat} : k < count a d b ↔ a + k * d < b := by
  rw [count, Nat.lt_ceil, lt_div_iff₀ hd, lt_sub_iff_add_lt, add_comm]

theorem count_le (hd : 0 < d) {k : Nat} : count a d b ≤ k ↔ b ≤ a + k * d := by
  rw [← Nat.not_lt, lt_count hd, not_lt]

theorem count_eq_zero (hd : 0 < d) : count a d b = 0 ↔ b ≤ a := by
  rw [← Nat.le_zero, count_le hd, Nat.cast_zero, zero_mul, add_zero]

theorem count_pos (hd : 0 < d) : 0 < count a d b ↔ a < b := by
  rw [lt_count hd, Nat.cast_zero, zero_mul, add_zero]

/-- The point that the stride stops at. -/
theorem le_stop (hd : 0 < d) : b ≤ a + count a d b * d := (count_le hd).mp (Nat.le_refl _)

/-- Counts are equal when they are below the same numbers. -/
theorem count_eq_of_lt {a' b' : K} (hd : 0 < d) {m : Nat}
    (h : ∀ k : Nat, a + k * d < b ↔ k < m ∨ m ≤ k ∧ a' + (k - m : Nat) * d < b') :
    count a d b = m + count a' d b' := by
  apply Nat.le_antisymm
  · rw [count_le hd]
    by_contra hlt
    rcases (h _).mp (lt_of_not_ge hlt) with hm | ⟨-, hm⟩
    · omega
    · rw [Nat.add_sub_cancel_left, ← lt_count hd] at hm
      exact Nat.lt_irrefl _ hm
  · by_contra hlt
    have hnot : ¬ a + (count a d b : K) * d < b := not_lt.mpr (le_stop hd)
    apply hnot
    rw [h]
    by_cases hm : count a d b < m
    · exact .inl hm
    · refine .inr ⟨by omega, ?_⟩
      rw [← lt_count hd]
      omega

/-- **A stride goes on** behind a bound. -/
theorem count_add (hd : 0 < d) (hbc : b ≤ c) :
    count a d c = count a d b + count (a + count a d b * d) d c := by
  apply count_eq_of_lt hd
  intro k
  by_cases hk : k < count a d b
  · have hlt := (lt_count hd).mp hk
    exact iff_of_true (lt_of_lt_of_le hlt hbc) (.inl hk)
  · have hle : count a d b ≤ k := by omega
    rw [Nat.cast_sub hle, sub_mul, add_add_sub_cancel]
    constructor
    · intro h
      exact .inr ⟨hle, h⟩
    · rintro (h | h)
      · exact absurd h hk
      · exact h.2

omit [IsStrictOrderedRing K] in
theorem count_shift (x : K) : count (a - x) d (b - x) = count a d b := by
  rw [count, count, sub_sub_sub_cancel_right]

omit [IsStrictOrderedRing K] in
@[simp] theorem length_points : (points a d b).length = count a d b := by
  simp [points]

theorem mem_points (hd : 0 < d) {p : K} (h : p ∈ points a d b) : a ≤ p ∧ p < b := by
  obtain ⟨k, hk, rfl⟩ := List.mem_map.mp h
  have hlt := (lt_count hd).mp (List.mem_range.mp hk)
  have hnonneg : 0 ≤ (k : K) * d := mul_nonneg (Nat.cast_nonneg k) hd.le
  exact ⟨le_add_of_nonneg_right hnonneg, hlt⟩

theorem points_of_le (hd : 0 < d) (h : b ≤ a) : points a d b = [] := by
  rw [points, (count_eq_zero hd).mpr h, List.range_zero, List.map_nil]

theorem points_add (hd : 0 < d) (hbc : b ≤ c) :
    points a d c = points a d b ++ points (a + count a d b * d) d c := by
  rw [points, points, points, count_add hd hbc, List.range_add, List.map_append, List.map_map]
  congr 1
  apply List.map_congr_left
  intro k _
  simp only [Function.comp_apply, Nat.cast_add]
  ring

/-- The first point, where there is one. -/
theorem count_of_lt (hd : 0 < d) (h : a < b) : count a d b = count (a + d) d b + 1 := by
  rw [Nat.add_comm]
  apply count_eq_of_lt hd
  intro k
  rcases Nat.eq_zero_or_pos k with rfl | hk
  · simpa using h
  · have hone : 1 ≤ k := hk
    rw [Nat.cast_sub hone, Nat.cast_one, sub_mul, one_mul, add_assoc, add_sub_cancel]
    constructor
    · intro hlt
      exact .inr ⟨hone, hlt⟩
    · rintro (hlt | hlt)
      · omega
      · exact hlt.2

theorem points_of_lt (hd : 0 < d) (h : a < b) : points a d b = a :: points (a + d) d b := by
  rw [points, points, count_of_lt hd h, List.range_succ_eq_map, List.map_cons, List.map_map,
    Nat.cast_zero, zero_mul, add_zero]
  congr 1
  apply List.map_congr_left
  intro k _
  simp only [Function.comp_apply, Nat.cast_succ]
  ring

omit [IsStrictOrderedRing K] in
theorem points_shift (x : K) : points a d b = (points (a - x) d (b - x)).map (· + x) := by
  rw [points, points, count_shift, List.map_map]
  apply List.map_congr_left
  intro k _
  simp only [Function.comp_apply]
  ring

end CdjEmu.Stride
