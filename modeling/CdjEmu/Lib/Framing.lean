/-
  LINES ON A STREAM — a stream of lines, each ended by one separator, seen at any moment of its
  arrival.

  `joinLines nl ls` is the stream.  What has arrived of it is a prefix, and `prefix_joinLines` says
  what a prefix is: some first lines, whole, and a part of the next that holds no separator.
-/
import CdjEmu.Lib.Split

namespace CdjEmu

variable {α : Type} {nl : α}

/-- The lines `ls`, each with `nl` behind it. -/
def joinLines (nl : α) (ls : List (List α)) : List α := ls.flatMap (· ++ [nl])

theorem joinLines_cons (l : List α) (ls : List (List α)) :
    joinLines nl (l :: ls) = l ++ nl :: joinLines nl ls := by
  rw [joinLines, List.flatMap_cons, List.append_assoc]
  rfl

theorem joinLines_append (ls ms : List (List α)) :
    joinLines nl (ls ++ ms) = joinLines nl ls ++ joinLines nl ms :=
  List.flatMap_append

/-- Each line has its separator. -/
theorem length_le_length_joinLines (ls : List (List α)) : ls.length ≤ (joinLines nl ls).length := by
  induction ls with
  | nil => exact Nat.le_refl 0
  | cons l ls ih =>
    rw [joinLines_cons, List.length_append, List.length_cons, List.length_cons]
    omega

/-- **A prefix of the stream** is some whole lines and a part of the next. -/
theorem prefix_joinLines {ls : List (List α)} (hls : ∀ l ∈ ls, nl ∉ l) {p : List α}
    (hp : p <+: joinLines nl ls) :
    ∃ k q, k ≤ ls.length ∧ p = joinLines nl (ls.take k) ++ q ∧ nl ∉ q ∧
    (q = [] ∨ ∃ l, ls[k]? = some l ∧ q <+: l) := by
  induction ls generalizing p with
  | nil =>
    obtain rfl : p = [] := List.prefix_nil.mp hp
    exact ⟨0, [], Nat.le_refl 0, rfl, List.not_mem_nil, .inl rfl⟩
  | cons l ls ih =>
    have hline : l ++ [nl] <+: joinLines nl (l :: ls) := ⟨joinLines nl ls, rfl⟩
    rcases List.prefix_or_prefix_of_prefix hp hline with hshort | ⟨t, rfl⟩
    · rcases List.prefix_concat_iff.mp hshort with rfl | hpart
      · refine ⟨1, [], by simp, ?_, List.not_mem_nil, .inl rfl⟩
        simp [joinLines]
      · exact ⟨0, p, Nat.zero_le _, rfl, fun h => hls l List.mem_cons_self (hpart.subset h),
          .inr ⟨l, rfl, hpart⟩⟩
    · have ht : t <+: joinLines nl ls := by
        rw [show joinLines nl (l :: ls) = (l ++ [nl]) ++ joinLines nl ls from rfl] at hp
        exact (List.prefix_append_right_inj _).mp hp
      obtain ⟨k, q, hk, rfl, hq, hnext⟩ := ih (fun m hm => hls m (List.mem_cons_of_mem _ hm)) ht
      refine ⟨k + 1, q, Nat.succ_le_succ hk, ?_, hq, hnext⟩
      rw [List.take_succ_cons, joinLines_cons]
      simp

variable [DecidableEq α]

/-- One separator a line. -/
theorem count_joinLines {ls : List (List α)} (hls : ∀ l ∈ ls, nl ∉ l) :
    (joinLines nl ls).count nl = ls.length := by
  induction ls with
  | nil => rfl
  | cons l ls ih =>
    rw [joinLines_cons, List.count_append, List.count_cons_self,
      List.count_eq_zero.mpr (hls l List.mem_cons_self),
      ih fun m hm => hls m (List.mem_cons_of_mem _ hm), List.length_cons]
    omega

theorem notMem_of_splitOnce {s l rest : List α} (h : splitOnce nl s = some (l, rest)) : nl ∉ l := by
  induction s generalizing l with
  | nil => cases h
  | cons a s ih =>
    rw [splitOnce] at h
    split at h
    · obtain ⟨rfl, -⟩ := Prod.mk.inj (Option.some.inj h)
      exact List.not_mem_nil
    · rename_i hne
      obtain ⟨⟨l', rest'⟩, hp, heq⟩ := Option.map_eq_some_iff.mp h
      obtain ⟨rfl, rfl⟩ := Prod.mk.inj heq
      rw [List.mem_cons, not_or]
      exact ⟨Ne.symm hne, ih hp⟩

theorem notMem_of_splitOnce_none {s : List α} (h : splitOnce nl s = none) : nl ∉ s := by
  intro hmem
  induction s with
  | nil => cases hmem
  | cons a s ih =>
    rw [splitOnce] at h
    split at h
    · cases h
    · rename_i hne
      exact ih (Option.map_eq_none_iff.mp h) ((List.mem_cons.mp hmem).resolve_left (Ne.symm hne))

end CdjEmu
