/-
  SPLITTING AT A SEPARATOR — the pieces of a list between the occurrences of one element.

  Mathlib's `splitOn` gives the pieces; the lemmas here say which elements they have: none is the
  separator, and each element of the list is the separator or in a piece.  A list written piece by
  piece, each with the separator behind it, splits into these pieces (`splitOn_append_cons`).
  `splitOnce` cuts at the first separator only.
-/
import Mathlib

namespace CdjEmu

variable {α : Type} [DecidableEq α]

/-- What stands before and behind the first `c`. -/
def splitOnce (c : α) : List α → Option (List α × List α)
  | [] => none
  | d :: s => if d = c then some ([], s) else (splitOnce c s).map fun p => (d :: p.1, p.2)

theorem splitOn_ne_nil (c : α) (s : List α) : s.splitOn c ≠ [] := List.splitOnP_ne_nil _ _

theorem splitOn_cons_self (c : α) (s : List α) : (c :: s).splitOn c = [] :: s.splitOn c := by
  simp [List.splitOn, List.splitOnP_cons_eq_if_modifyHead]

/-- The first element goes to the first piece. -/
theorem splitOn_cons_of_ne {c d : α} (h : d ≠ c) (s : List α) :
    (d :: s).splitOn c = (s.splitOn c).modifyHead (d :: ·) := by
  simp [List.splitOn, List.splitOnP_cons_eq_if_modifyHead, h]

/-- A piece, the separator, and more. -/
theorem splitOn_append_cons {c : α} {a : List α} (h : c ∉ a) (s : List α) :
    (a ++ c :: s).splitOn c = a :: s.splitOn c := by
  refine List.splitOnP_append_cons_of_forall_mem (fun d hd => ?_) c (by simp) s
  have hne : d ≠ c := fun he => h (he ▸ hd)
  simpa using hne

/-- Two lists with the separator between them have the pieces of both. -/
theorem splitOn_append_sep (c : α) (a s : List α) :
    (a ++ c :: s).splitOn c = a.splitOn c ++ s.splitOn c := by
  induction a with
  | nil =>
    rw [List.nil_append, splitOn_cons_self]
    rfl
  | cons d a ih =>
    rw [List.cons_append]
    by_cases hd : d = c
    · rw [hd, splitOn_cons_self, splitOn_cons_self, ih, List.cons_append]
    · obtain ⟨p, ps, hp⟩ := List.exists_cons_of_ne_nil (splitOn_ne_nil c a)
      rw [splitOn_cons_of_ne hd, splitOn_cons_of_ne hd, ih, hp]
      rfl

theorem splitOn_of_notMem {c : α} {s : List α} (h : c ∉ s) : s.splitOn c = [s] := by
  have happend : s.splitOn c ++ [[]] = [s] ++ [[]] :=
    (splitOn_append_sep c s []).symm.trans (splitOn_append_cons h [])
  exact List.append_cancel_right happend

/-- What stands in front without a separator goes to the first piece. -/
theorem splitOn_append_left {c : α} {a : List α} (h : c ∉ a) (s : List α) :
    (a ++ s).splitOn c = (s.splitOn c).modifyHead (a ++ ·) := by
  obtain ⟨p, ps, hp⟩ := List.exists_cons_of_ne_nil (splitOn_ne_nil c s)
  induction a with
  | nil =>
    rw [List.nil_append, hp]
    rfl
  | cons d a ih =>
    have hd : d ≠ c := fun he => h (he ▸ List.mem_cons_self)
    rw [List.cons_append, splitOn_cons_of_ne hd, ih (fun hc => h (List.mem_cons_of_mem d hc)), hp]
    rfl

/-- What stands behind without a separator goes to the last piece. -/
theorem splitOn_append_right {c : α} {b : List α} (h : c ∉ b) (s : List α) :
    ∃ front last, s.splitOn c = front ++ [last] ∧ (s ++ b).splitOn c = front ++ [last ++ b] := by
  induction s with
  | nil =>
    refine ⟨[], [], rfl, ?_⟩
    have hb := splitOn_append_left h []
    rw [List.append_nil] at hb
    rw [List.nil_append, hb, List.splitOn_nil, List.modifyHead_cons, List.append_nil]
    rfl
  | cons d s ih =>
    obtain ⟨front, last, hs, hsb⟩ := ih
    rw [List.cons_append]
    by_cases hd : d = c
    · refine ⟨[] :: front, last, ?_, ?_⟩
      · rw [hd, splitOn_cons_self, hs, List.cons_append]
      · rw [hd, splitOn_cons_self, hsb, List.cons_append]
    · rw [splitOn_cons_of_ne hd, splitOn_cons_of_ne hd, hs, hsb]
      cases front with
      | nil => exact ⟨[], d :: last, rfl, rfl⟩
      | cons p front => exact ⟨(d :: p) :: front, last, rfl, rfl⟩

theorem not_mem_of_mem_splitOn {c : α} {s part : List α} (h : part ∈ s.splitOn c) : c ∉ part := by
  induction s generalizing part with
  | nil =>
    obtain rfl : part = [] := by simpa using h
    exact List.not_mem_nil
  | cons d s ih =>
    by_cases hd : d = c
    · subst hd
      rw [splitOn_cons_self] at h
      rcases List.mem_cons.mp h with rfl | h
      · exact List.not_mem_nil
      · exact ih h
    · obtain ⟨p, ps, hp⟩ := List.exists_cons_of_ne_nil (splitOn_ne_nil c s)
      rw [splitOn_cons_of_ne hd, hp, List.modifyHead_cons] at h
      rcases List.mem_cons.mp h with rfl | h
      · have hhead : c ∉ p := ih (by rw [hp]; exact List.mem_cons_self)
        exact List.not_mem_cons_of_ne_of_not_mem (Ne.symm hd) hhead
      · exact ih (by rw [hp]; exact List.mem_cons_of_mem _ h)

/-- Each element is the separator or in one of the pieces. -/
theorem mem_splitOn_of_mem (c : α) {d : α} {s : List α} (h : d ∈ s) :
    d = c ∨ ∃ part ∈ s.splitOn c, d ∈ part := by
  induction s with
  | nil => cases h
  | cons e s ih =>
    obtain ⟨p, ps, hp⟩ := List.exists_cons_of_ne_nil (splitOn_ne_nil c s)
    by_cases he : e = c
    · subst he
      rw [splitOn_cons_self]
      rcases List.mem_cons.mp h with rfl | hd
      · exact Or.inl rfl
      · rcases ih hd with hc | ⟨part, hpart, hmem⟩
        · exact Or.inl hc
        · exact Or.inr ⟨part, List.mem_cons_of_mem _ hpart, hmem⟩
    · rw [splitOn_cons_of_ne he, hp, List.modifyHead_cons]
      rw [hp] at ih
      rcases List.mem_cons.mp h with rfl | hd
      · exact Or.inr ⟨d :: p, List.mem_cons_self, List.mem_cons_self⟩
      · rcases ih hd with hc | ⟨part, hpart, hmem⟩
        · exact Or.inl hc
        · rcases List.mem_cons.mp hpart with rfl | hpart
          · exact Or.inr ⟨e :: part, List.mem_cons_self, List.mem_cons_of_mem _ hmem⟩
          · exact Or.inr ⟨part, List.mem_cons_of_mem _ hpart, hmem⟩

/-- A piece has only elements of the list. -/
theorem mem_of_mem_splitOn {c d : α} {s part : List α} (hpart : part ∈ s.splitOn c) (h : d ∈ part) :
    d ∈ s := by
  induction s generalizing part with
  | nil =>
    obtain rfl : part = [] := by simpa using hpart
    exact h
  | cons e s ih =>
    by_cases he : e = c
    · subst he
      rw [splitOn_cons_self] at hpart
      rcases List.mem_cons.mp hpart with rfl | hpart
      · cases h
      · exact List.mem_cons_of_mem _ (ih hpart h)
    · obtain ⟨p, ps, hp⟩ := List.exists_cons_of_ne_nil (splitOn_ne_nil c s)
      rw [splitOn_cons_of_ne he, hp, List.modifyHead_cons] at hpart
      rcases List.mem_cons.mp hpart with rfl | hpart
      · rcases List.mem_cons.mp h with rfl | h
        · exact List.mem_cons_self
        · exact List.mem_cons_of_mem _ (ih (by rw [hp]; exact List.mem_cons_self) h)
      · exact List.mem_cons_of_mem _ (ih (by rw [hp]; exact List.mem_cons_of_mem _ hpart) h)

theorem splitOnce_append {c : α} {k : List α} (h : c ∉ k) (v : List α) :
    splitOnce c (k ++ c :: v) = some (k, v) := by
  induction k with
  | nil => simp [splitOnce]
  | cons d k ih =>
    have hd : d ≠ c := fun he => h (by simp [he])
    have hk : c ∉ k := fun hm => h (List.mem_cons_of_mem _ hm)
    simp [splitOnce, hd, ih hk]

theorem splitOnce_of_notMem {c : α} {s : List α} (h : c ∉ s) : splitOnce c s = none := by
  induction s with
  | nil => rfl
  | cons d s ih =>
    rw [List.mem_cons, not_or] at h
    rw [splitOnce, if_neg (Ne.symm h.1), ih h.2]
    rfl

theorem eq_of_splitOnce {c : α} {s k v : List α} (h : splitOnce c s = some (k, v)) :
    s = k ++ c :: v := by
  induction s generalizing k with
  | nil => cases h
  | cons d s ih =>
    rw [splitOnce] at h
    split at h
    · rename_i hd
      cases h
      rw [hd]
      rfl
    · obtain ⟨⟨k', v'⟩, hp, he⟩ := Option.map_eq_some_iff.mp h
      cases he
      rw [ih hp]
      rfl

/-- The first piece, and the pieces of what follows. -/
theorem splitOn_of_splitOnce {c : α} {s k v : List α} (h : splitOnce c s = some (k, v)) :
    s.splitOn c = k :: v.splitOn c := by
  induction s generalizing k with
  | nil => cases h
  | cons d s ih =>
    rw [splitOnce] at h
    split at h
    · rename_i hd
      cases h
      rw [hd, splitOn_cons_self]
    · rename_i hd
      obtain ⟨⟨k', v'⟩, hp, he⟩ := Option.map_eq_some_iff.mp h
      cases he
      rw [splitOn_cons_of_ne hd, ih hp]
      rfl

theorem splitOn_of_splitOnce_none {c : α} {s : List α} (h : splitOnce c s = none) :
    s.splitOn c = [s] := by
  induction s with
  | nil => rfl
  | cons d s ih =>
    rw [splitOnce] at h
    split at h
    · cases h
    · rename_i hd
      rw [splitOn_cons_of_ne hd, ih (Option.map_eq_none_iff.mp h)]
      rfl

end CdjEmu
