/-
  KEY=VALUE TEXT — a file of `key=value` lines, read into a map and written from one.

  Reading splits the text into lines, each line at its first `=`, and trims both sides; of two lines
  with one key the later wins.  Writing puts every pair on a line as it is.

  What is read is always CLEAN: without a line feed and without white space at its ends.  So a value
  that is not clean is never read back as it was written (and what follows its line feed is a line
  of its own). `readPairs_kvText` is the converse: a map of clean values is read back, key for key.
-/
import CdjEmu.Lib.Chars
import CdjEmu.Lib.Split

namespace CdjEmu

/-- `BTreeMap<String, String>`. -/
abbrev Pairs := Std.TreeMap Chars Chars

namespace Chars

/-! ## Lines -/

/-- A line without the carriage return before its line feed. -/
def dropCr (line : Chars) : Chars := if line.getLast? = some '\r' then line.dropLast else line

/-- `str::lines`: the last line needs no line feed, and keeps a carriage return when it has none. -/
def lines (s : Chars) : List Chars :=
  let parts := s.splitOn '\n'
  parts.dropLast.map dropCr ++ parts.getLast?.toList.filter (· ≠ [])

@[simp] theorem lines_nil : lines [] = [] := by
  simp [lines]

/-- A line, its line feed, and more. -/
theorem lines_append {line : Chars} (h : '\n' ∉ line) (s : Chars) :
    lines (line ++ '\n' :: s) = dropCr line :: lines s := by
  have hsplit := splitOn_append_cons h s
  obtain ⟨p, ps, hp⟩ := List.exists_cons_of_ne_nil (splitOn_ne_nil '\n' s)
  simp [lines, hsplit, hp]

theorem not_mem_of_mem_lines {s line : Chars} (h : line ∈ lines s) : '\n' ∉ line := by
  rcases List.mem_append.mp h with h | h
  · obtain ⟨part, hpart, rfl⟩ := List.mem_map.mp h
    have hnot := not_mem_of_mem_splitOn (List.mem_of_mem_dropLast hpart)
    unfold dropCr
    split
    · exact fun hc => hnot (List.mem_of_mem_dropLast hc)
    · exact hnot
  · have hlast := List.mem_of_getLast? (Option.mem_toList.mp (List.mem_filter.mp h).1)
    exact not_mem_of_mem_splitOn hlast

/-! ## Clean texts -/

/-- A text that a `key=value` line can hold. -/
def Clean (v : Chars) : Prop := '\n' ∉ v ∧ trim v = v

instance (v : Chars) : Decidable (Clean v) := inferInstanceAs (Decidable (_ ∧ _))

theorem clean_nil : Clean [] := ⟨List.not_mem_nil, rfl⟩

theorem clean_of_words {v : Chars} (h : ∀ c ∈ v, isWhitespace c = false) : Clean v := by
  constructor
  · intro hn
    exact absurd (h _ hn) (by decide)
  · exact trim_of_words h

theorem trim_sublist (s : Chars) : (trim s).Sublist s :=
  (List.rdropWhile_prefix _ _).sublist.trans (List.dropWhile_suffix _).sublist

theorem clean_trim {s : Chars} (h : '\n' ∉ s) : Clean (trim s) :=
  ⟨fun hn => h ((trim_sublist s).subset hn), trim_trim s⟩

end Chars

namespace KeyValue

open Chars

/-! ## Reading and writing -/

/-- The pairs of a text, in the order of its lines. -/
def pairsOf (s : Chars) : List (Chars × Chars) :=
  (s.lines.filterMap (splitOnce '=')).map fun p => (Chars.trim p.1, Chars.trim p.2)

/-- The map `m` with the pairs inserted, one after the other. -/
def putAll (m : Pairs) (ps : List (Chars × Chars)) : Pairs :=
  ps.foldl (fun m p => m.insert p.1 p.2) m

/-- The map of a text. -/
def readPairs (s : Chars) : Pairs := putAll ∅ (pairsOf s)

/-- Pairs as `key=value` lines. -/
def kvText (ps : List (Chars × Chars)) : Chars := ps.flatMap fun p => p.1 ++ '=' :: p.2 ++ ['\n']

/-- The pairs of a map whose key is among `known`. -/
def knownPairs (known : List Chars) (m : Pairs) : List (Chars × Chars) :=
  m.toList.filter fun p => known.contains p.1

/-- What may stand for a key. -/
def Key (k : Chars) : Prop := '=' ∉ k ∧ Clean k

instance (k : Chars) : Decidable (Key k) := inferInstanceAs (Decidable (_ ∧ _))

theorem getElem?_insert (m : Pairs) (k v a : Chars) :
    (m.insert k v)[a]? = if k = a then some v else m[a]? := by
  rw [Std.TreeMap.getElem?_insert]
  simp

@[simp] theorem putAll_nil (m : Pairs) : putAll m [] = m := rfl

@[simp] theorem putAll_cons (m : Pairs) (p : Chars × Chars) (ps : List (Chars × Chars)) :
    putAll m (p :: ps) = putAll (m.insert p.1 p.2) ps := rfl

theorem putAll_append (m : Pairs) (ps qs : List (Chars × Chars)) :
    putAll m (ps ++ qs) = putAll (putAll m ps) qs :=
  List.foldl_append

/-- What is not among the pairs is as before. -/
theorem getElem?_putAll (m : Pairs) (ps : List (Chars × Chars)) (k : Chars) :
    (putAll m ps)[k]? = (putAll ∅ ps)[k]?.or m[k]? := by
  induction ps generalizing m with
  | nil => simp
  | cons p ps ih =>
    rw [putAll_cons, putAll_cons, ih, ih (Std.TreeMap.insert ∅ _ _), getElem?_insert,
      getElem?_insert, Option.or_assoc]
    split <;> simp

/-- An entry of a map built by insertion was inserted or there before. -/
theorem mem_of_getElem?_putAll {ps : List (Chars × Chars)} {m : Pairs} {k v : Chars}
    (h : (putAll m ps)[k]? = some v) : (k, v) ∈ ps ∨ m[k]? = some v := by
  induction ps generalizing m with
  | nil => exact Or.inr h
  | cons p ps ih =>
    rcases ih h with hps | hm
    · exact Or.inl (List.mem_cons_of_mem _ hps)
    · rw [getElem?_insert] at hm
      split at hm
      · rename_i hk
        cases hm
        exact Or.inl (by rw [← hk]; exact List.mem_cons_self)
      · exact Or.inr hm

/-- What a map built by insertion has under a key that is not inserted. -/
theorem getElem?_putAll_of_not_mem {ps : List (Chars × Chars)} {m : Pairs} {k : Chars}
    (h : ∀ p ∈ ps, p.1 ≠ k) :
    (putAll m ps)[k]? = m[k]? := by
  induction ps generalizing m with
  | nil => rfl
  | cons p ps ih =>
    rw [putAll_cons, ih fun q hq => h q (List.mem_cons_of_mem _ hq), getElem?_insert,
      if_neg (h p List.mem_cons_self)]

/-- Of the pairs of distinct keys each is in the map. -/
theorem getElem?_putAll_of_mem {ps : List (Chars × Chars)} {m : Pairs} {k v : Chars}
    (hd : ps.Pairwise fun p q => p.1 ≠ q.1) (h : (k, v) ∈ ps) :
    (putAll m ps)[k]? = some v := by
  induction ps generalizing m with
  | nil => cases h
  | cons p ps ih =>
    obtain ⟨hp, hd⟩ := List.pairwise_cons.mp hd
    rcases List.mem_cons.mp h with rfl | h
    · rw [putAll_cons, getElem?_putAll_of_not_mem fun q hq => (hp q hq).symm, getElem?_insert,
        if_pos rfl]
    · exact ih hd h

/-- Every value of the map is clean. -/
def CleanMap (m : Pairs) : Prop := ∀ k v : Chars, m[k]? = some v → Clean v

theorem CleanMap.putAll {ps : List (Chars × Chars)} {m : Pairs} (hm : CleanMap m)
    (hps : ∀ p ∈ ps, Clean p.2) :
    CleanMap (putAll m ps) := by
  intro k v hv
  rcases mem_of_getElem?_putAll hv with hp | hold
  · exact hps _ hp
  · exact hm k v hold

theorem CleanMap.insert {m : Pairs} (hm : CleanMap m) (k : Chars) {v : Chars} (hv : Clean v) :
    CleanMap (m.insert k v) := by
  have hps : ∀ p ∈ [(k, v)], Clean p.2 := fun p hp => by rwa [List.mem_singleton.mp hp]
  exact hm.putAll hps

theorem cleanMap_empty : CleanMap ∅ := by
  intro k v hv
  simp at hv

/-- **What is read is clean.** -/
theorem cleanMap_readPairs (s : Chars) : CleanMap (readPairs s) := by
  refine cleanMap_empty.putAll fun p hp => ?_
  obtain ⟨⟨k, v⟩, hline, rfl⟩ := List.mem_map.mp hp
  obtain ⟨line, hmem, hsplit⟩ := List.mem_filterMap.mp hline
  have hnot := not_mem_of_mem_lines hmem
  rw [eq_of_splitOnce hsplit] at hnot
  exact clean_trim fun hn => hnot (by simp [hn])

theorem trim_dropCr {v : Chars} (h : trim v = v) : dropCr v = v := by
  unfold dropCr
  split
  · rename_i hr
    exfalso
    obtain ⟨u, rfl⟩ := List.getLast?_eq_some_iff.mp hr
    have hlen := congrArg List.length (h ▸ trimEnd_trim (u ++ ['\r']))
    rw [trimEnd, List.rdropWhile_concat_pos _ _ _ (by decide)] at hlen
    have hle := (List.rdropWhile_prefix isWhitespace u).length_le
    simp only [List.length_append, List.length_singleton] at hlen
    omega
  · rfl

theorem dropCr_line {k v : Chars} (hv : trim v = v) : dropCr (k ++ '=' :: v) = k ++ '=' :: v := by
  rcases List.eq_nil_or_concat v with rfl | ⟨u, c, rfl⟩
  · simp [dropCr]
  · have hc : c ≠ '\r' := by
      rintro rfl
      have := congrArg List.length (trim_dropCr hv)
      simp [dropCr] at this
    unfold dropCr
    rw [if_neg]
    have hline : k ++ '=' :: u.concat c = (k ++ '=' :: u) ++ [c] := by simp
    rw [hline, List.getLast?_concat]
    simpa using hc

/-- Clean pairs are read back from their lines. -/
theorem pairsOf_kvText {ps : List (Chars × Chars)} (h : ∀ p ∈ ps, Key p.1 ∧ Clean p.2) :
    pairsOf (kvText ps) = ps := by
  induction ps with
  | nil => simp [pairsOf, kvText]
  | cons p ps ih =>
    obtain ⟨⟨heq, hkn, hkt⟩, hvn, hvt⟩ := h p List.mem_cons_self
    have hline : '\n' ∉ p.1 ++ '=' :: p.2 := by simp [hkn, hvn]
    have htext : kvText (p :: ps) = (p.1 ++ '=' :: p.2) ++ '\n' :: kvText ps := by simp [kvText]
    have hrest := ih fun q hq => h q (List.mem_cons_of_mem _ hq)
    unfold pairsOf at hrest ⊢
    rw [htext, lines_append hline, dropCr_line hvt,
      List.filterMap_cons_some (splitOnce_append heq p.2), List.map_cons, hrest, hkt, hvt]

theorem mem_knownPairs {known : List Chars} {m : Pairs} {k v : Chars} :
    (k, v) ∈ knownPairs known m ↔ k ∈ known ∧ m[k]? = some v := by
  unfold knownPairs
  rw [List.mem_filter, Std.TreeMap.mem_toList_iff_getElem?_eq_some]
  simp [and_comm]

theorem knownPairs_distinct (known : List Chars) (m : Pairs) :
    (knownPairs known m).Pairwise fun p q => p.1 ≠ q.1 := by
  refine List.Pairwise.filter _ (m.distinct_keys_toList.imp fun h he => h ?_)
  simp [he]

/-- **What is written is read back**: the known keys of a map whose values under them are
    clean, and no other key. -/
theorem readPairs_kvText {known : List Chars} {m : Pairs} (hknown : ∀ k ∈ known, Key k)
    (hclean : CleanMap m) (k : Chars) :
    (readPairs (kvText (knownPairs known m)))[k]? = if k ∈ known then m[k]? else none := by
  have hpairs : pairsOf (kvText (knownPairs known m)) = knownPairs known m := by
    refine pairsOf_kvText fun p hp => ?_
    obtain ⟨hk, hv⟩ := mem_knownPairs.mp hp
    exact ⟨hknown _ hk, hclean _ _ hv⟩
  unfold readPairs
  rw [hpairs]
  split
  · rename_i hk
    cases hv : m[k]? with
    | some v =>
      exact getElem?_putAll_of_mem (knownPairs_distinct known m)
        (mem_knownPairs.mpr ⟨hk, hv⟩)
    | none =>
      rw [getElem?_putAll_of_not_mem]
      · simp
      · rintro ⟨k', v⟩ hp rfl
        cases hv.symm.trans (mem_knownPairs.mp hp).2
  · rename_i hk
    rw [getElem?_putAll_of_not_mem]
    · simp
    · rintro ⟨k', v⟩ hp rfl
      exact hk (mem_knownPairs.mp hp).1

end KeyValue

end CdjEmu
