/-
  RING BUFFERS — a queue in a fixed array, between two counters.

  `first` counts the entries taken out and `next` those put in, both modulo `wrap`; the entry with
  the count `c` stands in the slot `c % size`.  Two layouts are in use: counters of a machine word
  that run far beyond the array, and counters that are the array's own indices (`wrap = size`).
  Both need that `size` divides `wrap`, or the slots would jump where the counters wrap.

  A ring is what its `toList` says, oldest first.  `toList_push`, `toList_cons` and `toList_modify`
  are the laws: as long as the entries fit the array, putting one in, taking the oldest out and
  changing one in place do to the list what they say, so no entry is overwritten.
-/
import Mathlib

namespace CdjEmu

/-- A queue of `α` in `size` slots whose counters wrap at `wrap`. -/
structure Ring (α : Type) (size wrap : Nat) where
  slot : Nat → α
  first : Nat
  next : Nat
  first_lt : first < wrap
  next_lt : next < wrap

namespace Ring

variable {α : Type} {size wrap : Nat} (r : Ring α size wrap)

/-- How many entries are in the ring. -/
def count : Nat := (r.next + (wrap - r.first)) % wrap

/-- The slot of the `i`-th entry, oldest first. -/
def index (i : Nat) : Nat := (r.first + i) % wrap % size

def entry (i : Nat) : α := r.slot (r.index i)

/-- The entries, oldest first. -/
def toList : List α := (List.range r.count).map r.entry

/-- Put `a` in behind the newest entry. -/
def push (a : α) : Ring α size wrap where
  slot := Function.update r.slot (r.next % size) a
  first := r.first
  next := (r.next + 1) % wrap
  first_lt := r.first_lt
  next_lt := Nat.mod_lt _ (Nat.zero_lt_of_lt r.next_lt)

/-- Take the oldest entry out. -/
def drop : Ring α size wrap where
  slot := r.slot
  first := (r.first + 1) % wrap
  next := r.next
  first_lt := Nat.mod_lt _ (Nat.zero_lt_of_lt r.first_lt)
  next_lt := r.next_lt

/-- Change the `i`-th entry in place. -/
def modify (i : Nat) (f : α → α) : Ring α size wrap where
  slot := Function.update r.slot (r.index i) (f (r.entry i))
  first := r.first
  next := r.next
  first_lt := r.first_lt
  next_lt := r.next_lt

/-! ## Counting -/

theorem count_lt : r.count < wrap := Nat.mod_lt _ (Nat.zero_lt_of_lt r.first_lt)

@[simp] theorem length_toList : r.toList.length = r.count := by simp [toList]

/-- The counters are a count apart. -/
theorem next_eq : r.next = (r.first + r.count) % wrap := by
  have hfirst := r.first_lt
  have hnext := r.next_lt
  unfold count
  rw [Nat.add_mod_mod, show r.first + (r.next + (wrap - r.first)) = r.next + wrap by omega,
    Nat.add_mod_right, Nat.mod_eq_of_lt hnext]

theorem count_eq_zero : r.count = 0 ↔ r.first = r.next := by
  have hfirst := r.first_lt
  have hnext := r.next_lt
  unfold count
  constructor
  · intro h
    rcases Nat.lt_or_ge r.next r.first with hlt | hge
    · rw [Nat.mod_eq_of_lt (by omega)] at h
      omega
    · rw [show r.next + (wrap - r.first) = r.next - r.first + wrap by omega, Nat.add_mod_right,
        Nat.mod_eq_of_lt (by omega)] at h
      omega
  · intro h
    rw [h, show r.next + (wrap - r.next) = wrap by omega, Nat.mod_self]

theorem count_push {a : α} (h : r.count + 1 < wrap) : (r.push a).count = r.count + 1 := by
  have hfirst := r.first_lt
  show ((r.next + 1) % wrap + (wrap - r.first)) % wrap = r.count + 1
  rw [Nat.mod_add_mod, show r.next + 1 + (wrap - r.first) = r.next + (wrap - r.first) + 1 by omega,
    ← Nat.mod_add_mod]
  exact Nat.mod_eq_of_lt h

theorem count_drop (h : 0 < r.count) : r.drop.count = r.count - 1 := by
  have hfirst := r.first_lt
  have hcount := r.count_lt
  have hpos : 0 < wrap := by omega
  rcases Nat.lt_or_ge (r.first + 1) wrap with hlt | hge
  · have hone : r.drop.count = (r.next + (wrap - (r.first + 1))) % wrap := by
      show (r.next + (wrap - (r.first + 1) % wrap)) % wrap = _
      rw [Nat.mod_eq_of_lt hlt]
    have hsum : r.count = (r.next + (wrap - (r.first + 1)) + 1) % wrap := by
      show (r.next + (wrap - r.first)) % wrap = _
      rw [show r.next + (wrap - r.first) = r.next + (wrap - (r.first + 1)) + 1 by omega]
    rw [← Nat.mod_add_mod, ← hone] at hsum
    have hdrop := r.drop.count_lt
    rcases Nat.lt_or_ge (r.drop.count + 1) wrap with hw | hw
    · rw [Nat.mod_eq_of_lt hw] at hsum
      omega
    · rw [show r.drop.count + 1 = wrap by omega, Nat.mod_self] at hsum
      omega
  · -- the counter is at the end of its range and wraps to 0
    have hlast : r.first + 1 = wrap := by omega
    have hone : r.drop.count = r.next := by
      show (r.next + (wrap - (r.first + 1) % wrap)) % wrap = _
      rw [hlast, Nat.mod_self, Nat.sub_zero, Nat.add_mod_right, Nat.mod_eq_of_lt r.next_lt]
    have hsum : r.count = (r.next + 1) % wrap := by
      show (r.next + (wrap - r.first)) % wrap = _
      rw [show wrap - r.first = 1 by omega]
    have hnext := r.next_lt
    rcases Nat.lt_or_ge (r.next + 1) wrap with hw | hw
    · rw [Nat.mod_eq_of_lt hw] at hsum
      omega
    · rw [show r.next + 1 = wrap by omega, Nat.mod_self] at hsum
      omega

/-! ## The slots -/

section Slots

variable (hdvd : size ∣ wrap)

include hdvd

/-- Where the counters wrap, the slots go on in order. -/
theorem index_eq (i : Nat) : r.index i = (r.first + i) % size := Nat.mod_mod_of_dvd _ hdvd

theorem next_index : r.next % size = (r.first + r.count) % size := by
  have h := congrArg (· % size) r.next_eq
  exact h.trans (Nat.mod_mod_of_dvd _ hdvd)

/-- Entries of the array are in slots of their own. -/
theorem index_inj {i j : Nat} (hi : i < size) (hj : j < size) (h : r.index i = r.index j) :
    i = j := by
  rw [index_eq r hdvd, index_eq r hdvd] at h
  have hmod : i ≡ j [MOD size] := Nat.ModEq.add_left_cancel' _ h
  unfold Nat.ModEq at hmod
  rwa [Nat.mod_eq_of_lt hi, Nat.mod_eq_of_lt hj] at hmod

/-- **The slot that is written next holds no entry.** -/
theorem next_index_ne {i : Nat} (hi : i < r.count) (hfree : r.count < size) :
    r.index i ≠ r.next % size := by
  intro h
  rw [next_index r hdvd, ← index_eq r hdvd] at h
  have := index_inj r hdvd (by omega) hfree h
  omega

/-- Putting an entry in appends it. -/
theorem toList_push {a : α} (hfree : r.count < size) (hwrap : r.count + 1 < wrap) :
    (r.push a).toList = r.toList ++ [a] := by
  unfold toList
  rw [count_push r hwrap, List.range_succ, List.map_append, List.map_singleton]
  congr 1
  · refine List.map_congr_left fun i hi => ?_
    exact Function.update_of_ne (next_index_ne r hdvd (List.mem_range.mp hi) hfree) _ _
  · have hlast : r.index r.count = r.next % size := by
      rw [index_eq r hdvd, next_index r hdvd]
    show [Function.update r.slot (r.next % size) a (r.index r.count)] = [a]
    rw [hlast, Function.update_self]

omit hdvd in
theorem entry_drop (i : Nat) : r.drop.entry i = r.entry (i + 1) := by
  show r.slot (((r.first + 1) % wrap + i) % wrap % size) = r.slot
      ((r.first + (i + 1)) % wrap % size)
  rw [Nat.mod_add_mod, Nat.add_assoc, Nat.add_comm 1 i]

omit hdvd in
/-- Taking the oldest entry out leaves the others. -/
theorem toList_cons (h : 0 < r.count) : r.toList = r.entry 0 :: r.drop.toList := by
  obtain ⟨n, hn⟩ : ∃ n, r.count = n + 1 := ⟨r.count - 1, by omega⟩
  unfold toList
  rw [count_drop r h, hn, Nat.add_sub_cancel, List.range_succ_eq_map, List.map_cons, List.map_map]
  congr 1
  exact List.map_congr_left fun i _ => (entry_drop r i).symm

/-- Changing one entry leaves the others. -/
theorem toList_modify {i : Nat} (hi : i < r.count) (hsize : r.count ≤ size) (f : α → α) :
    (r.modify i f).toList = r.toList.modify i f := by
  refine List.ext_getElem (by simp [toList, count, modify]) fun j hj _ => ?_
  have hj' : j < r.count := by simpa [toList, count, modify] using hj
  have hleft : (r.modify i f).toList[j] = Function.update r.slot (r.index i) (f (r.entry i))
      (r.index j) := by
    simp [toList, entry, modify, index]
  have hright : ∀ h : j < r.toList.length, r.toList[j] = r.entry j := fun _ => by simp [toList]
  rw [hleft, List.getElem_modify, hright]
  by_cases h : i = j
  · subst h
    rw [Function.update_self, if_pos rfl]
  · have hne : r.index j ≠ r.index i := fun he => h (index_inj r hdvd (by omega) (by omega) he).symm
    rw [Function.update_of_ne hne, if_neg h]
    rfl

end Slots

theorem toList_eq_nil : r.toList = [] ↔ r.count = 0 := by
  rw [← List.length_eq_zero_iff, length_toList]

/-- The entries, by their places. -/
theorem getElem?_toList {i : Nat} (h : i < r.count) : r.toList[i]? = some (r.entry i) := by
  simp [toList, h]

end Ring

end CdjEmu
