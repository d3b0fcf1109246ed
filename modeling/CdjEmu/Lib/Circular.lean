/-
  CIRCULAR MEMORY — a memory of `N` places that is addressed by counters which only grow.

  What stands from a counter on is the `window` of that counter; the counter `c` is at the place `c
  % N`.  Copies are made in `pieces`, because a copy does not go past the end of the memory; pieces
  are `Contiguous` when each begins where the one before it ends.

  `window_put_other` is the frame rule: a copy behind a window, and not further than `N` from its
  beginning, does not change it.
-/
import Mathlib

namespace CdjEmu.Circular

variable {α : Type} {N : Nat} {mem : Nat → α}

/-- The `len` places from `pos` on. -/
def slice (mem : Nat → α) (pos len : Nat) : List α := (List.range len).map fun i => mem (pos + i)

/-- The `len` elements from the counter `start` on. -/
def window (N : Nat) (mem : Nat → α) (start len : Nat) : List α :=
  (List.range len).map fun i => mem ((start + i) % N)

/-- A copy to `pos`. -/
def put (mem : Nat → α) (pos : Nat) (l : List α) : Nat → α :=
  fun i => if pos ≤ i then (l[i - pos]?).getD (mem i) else mem i

/-- The two copies around the end: the places and lengths for `n` elements at `off`. -/
def pieces (N off n : Nat) : List (Nat × Nat) :=
  let first := min n (N - off)
  (off, first) :: if first < n then [(0, n - first)] else []

/-- The pieces follow one another from the counter `start` on. -/
def Contiguous (N : Nat) : Nat → List (Nat × Nat) → Prop
  | _, [] => True
  | start, (pos, len) :: rest => pos = start % N ∧ pos + len ≤ N ∧ Contiguous N (start + len) rest

/-- The length of all pieces. -/
def total (ps : List (Nat × Nat)) : Nat := (ps.map Prod.snd).sum

@[simp] theorem length_slice (pos len : Nat) : (slice mem pos len).length = len := by simp [slice]

@[simp] theorem length_window (start len : Nat) : (window N mem start len).length = len := by
  simp [window]

@[simp] theorem total_nil : total [] = 0 := rfl

@[simp] theorem total_cons (p : Nat × Nat) (ps : List (Nat × Nat)) :
    total (p :: ps) = p.2 + total ps := rfl

@[simp] theorem window_zero (start : Nat) : window N mem start 0 = [] := rfl

theorem window_add (start m n : Nat) :
    window N mem start (m + n) = window N mem start m ++ window N mem (start + m) n := by
  rw [window, List.range_add, List.map_append, List.map_map]
  refine congrArg _ (List.map_congr_left fun i _ => ?_)
  show mem ((start + (m + i)) % N) = mem ((start + m + i) % N)
  rw [Nat.add_assoc]

/-- What is left of a window. -/
theorem drop_window (start m n : Nat) :
    (window N mem start n).drop m = window N mem (start + m) (n - m) := by
  rcases Nat.le_total m n with h | h
  · obtain ⟨k, rfl⟩ := Nat.exists_eq_add_of_le h
    rw [window_add, List.drop_left' (length_window start m), Nat.add_sub_cancel_left]
  · rw [List.drop_eq_nil_of_le (by rwa [length_window]), Nat.sub_eq_zero_of_le h, window_zero]

/-- A window that does not go past the end. -/
theorem window_eq_slice {start len : Nat} (h : start % N + len ≤ N) :
    window N mem start len = slice mem (start % N) len := by
  refine List.map_congr_left fun i hi => ?_
  have hlt := List.mem_range.mp hi
  rw [Nat.add_mod, Nat.mod_eq_of_lt (a := i) (by omega), Nat.mod_eq_of_lt (by omega)]

theorem window_congr {mem' : Nat → α} {start len : Nat}
    (h : ∀ i, i < len → mem' ((start + i) % N) = mem ((start + i) % N)) :
    window N mem' start len = window N mem start len :=
  List.map_congr_left fun i hi => h i (List.mem_range.mp hi)

/-! ## Copies -/

theorem put_of_lt {pos i : Nat} (l : List α) (h : i < pos) : put mem pos l i = mem i :=
  if_neg (by omega)

theorem put_of_ge {pos i : Nat} {l : List α} (h : pos + l.length ≤ i) :
    put mem pos l i = mem i := by
  rw [put, if_pos (by omega), List.getElem?_eq_none (by omega), Option.getD_none]

theorem put_at {pos i : Nat} {l : List α} (h : i < l.length) : put mem pos l (pos + i) = l[i] := by
  rw [put, if_pos (by omega), Nat.add_sub_cancel_left, List.getElem?_eq_getElem h, Option.getD_some]

/-- What was copied is there. -/
theorem slice_put (pos : Nat) (l : List α) : slice (put mem pos l) pos l.length = l := by
  refine List.ext_getElem (length_slice ..) fun i hi hi' => ?_
  simp only [slice, List.getElem_map, List.getElem_range]
  exact put_at hi'

theorem window_put {start : Nat} {l : List α} (h : start % N + l.length ≤ N) :
    window N (put mem (start % N) l) start l.length = l := by
  rw [window_eq_slice h, slice_put]

/-- Two counters less than `N` apart are at different places. -/
theorem mod_ne {a b : Nat} (hlt : a < b) (hnear : b < a + N) : a % N ≠ b % N := by
  intro heq
  have hmod : (b - a) % N = 0 := Nat.sub_mod_eq_zero_of_mod_eq heq.symm
  rw [Nat.mod_eq_of_lt (by omega)] at hmod
  omega

/-- **The frame rule.** -/
theorem window_put_other {start start' len : Nat} {l : List α} (hfit : start % N + l.length ≤ N)
    (hbehind : start' + len ≤ start) (hnear : start + l.length ≤ start' + N) :
    window N (put mem (start % N) l) start' len = window N mem start' len := by
  refine window_congr fun i hi => ?_
  by_cases hin : start % N ≤ (start' + i) % N ∧ (start' + i) % N < start % N + l.length
  · -- the place would be that of a counter in the copy
    exfalso
    have hplace : (start + ((start' + i) % N - start % N)) % N = (start' + i) % N := by
      rw [Nat.add_mod, Nat.mod_eq_of_lt (a := (start' + i) % N - start % N) (by omega),
        Nat.mod_eq_of_lt (by omega)]
      omega
    exact mod_ne (a := start' + i) (by omega) (by omega) hplace.symm
  · rcases not_and_or.mp hin with hlt | hge
    · exact put_of_lt l (by omega)
    · exact put_of_ge (by omega)

/-! ## Pieces -/

theorem total_pieces (off n : Nat) : total (pieces N off n) = n := by
  unfold pieces
  dsimp only
  split
  · simp only [total_cons, total_nil]
    omega
  · simp only [total_cons, total_nil]
    omega

theorem contiguous_pieces {start n : Nat} (hpos : 0 < N) (hn : n ≤ N) :
    Contiguous N start (pieces N (start % N) n) := by
  have hlt : start % N < N := Nat.mod_lt _ hpos
  unfold pieces
  dsimp only
  split
  · rename_i hfirst
    have hmin : min n (N - start % N) = N - start % N := by omega
    refine ⟨rfl, by omega, ?_, by omega, trivial⟩
    rw [hmin, Nat.add_mod, ← Nat.mod_add_mod, Nat.mod_mod, Nat.mod_add_mod]
    have hsum : (start % N + (N - start % N)) % N = 0 := by
      rw [Nat.add_sub_cancel' hlt.le, Nat.mod_self]
    rw [← hsum, Nat.mod_add_mod, Nat.add_mod]
    simp
  · exact ⟨rfl, by omega, trivial⟩

/-- Steps of one length follow one another, when it divides the start and `N`. -/
theorem contiguous_steps {start k n : Nat} (hpos : 0 < N) (hstart : k ∣ start) (hN : k ∣ N) :
    Contiguous N start ((List.range n).map fun i => ((start % N + i * k) % N, k)) := by
  induction n generalizing start with
  | zero => exact trivial
  | succ n ih =>
    have hfit : start % N + k ≤ N := by
      obtain ⟨c, hc⟩ := (Nat.dvd_mod_iff hN).mpr hstart
      obtain ⟨d, rfl⟩ := hN
      have hlt : start % (k * d) < k * d := Nat.mod_lt _ hpos
      rw [hc] at hlt ⊢
      have hcd : c < d := lt_of_mul_lt_mul_left hlt (Nat.zero_le k)
      calc k * c + k = k * (c + 1) := by ring
        _ ≤ k * d := Nat.mul_le_mul_left k hcd
    rw [List.range_succ_eq_map, List.map_cons, List.map_map]
    refine ⟨by simp, by simpa using hfit, ?_⟩
    have hrest := ih (hstart.add (Nat.dvd_refl k))
    have hsame : ((List.range n).map fun i => (((start + k) % N + i * k) % N, k)) =
        (List.range n).map ((fun i => ((start % N + i * k) % N, k)) ∘ Nat.succ) := by
      refine List.map_congr_left fun i _ => ?_
      show (((start + k) % N + i * k) % N, k) = ((start % N + (i + 1) * k) % N, k)
      rw [Nat.mod_add_mod, Nat.mod_add_mod]
      congr 2
      ring
    rwa [hsame] at hrest

end CdjEmu.Circular
