/-
  SLOTS — a table of entries, searched from the front for the first entry that fits.

  Tables of a fixed length are changed one entry at a time: the first entry that meets a test is
  rewritten, and nothing happens where no entry does.  Each entry has a KEY, one value of which
  means that it is free.  `Distinct` says that no two entries in use have the same key; it is kept
  as long as an entry keeps its key, gives it up, or takes one that no entry has.
-/
import Mathlib

namespace CdjEmu.Slots

variable {α κ : Type}

/-- `l` with the first entry that meets `p` rewritten by `f`. -/
def onFirst (p : α → Bool) (f : α → α) : List α → List α
  | [] => []
  | x :: l => if p x then f x :: l else x :: onFirst p f l

variable {p : α → Bool} {f : α → α} {l : List α}

/-- An entry afterwards is one of before, or the rewritten one. -/
theorem mem_onFirst {x : α} (h : x ∈ onFirst p f l) : x ∈ l ∨ ∃ y ∈ l, p y = true ∧ x = f y := by
  induction l with
  | nil => exact absurd h List.not_mem_nil
  | cons y l ih =>
    rw [onFirst] at h
    split at h
    · rename_i hy
      obtain rfl | hx := List.mem_cons.mp h
      · exact .inr ⟨y, List.mem_cons_self, hy, rfl⟩
      · exact .inl (List.mem_cons_of_mem _ hx)
    · obtain rfl | hx := List.mem_cons.mp h
      · exact .inl List.mem_cons_self
      · obtain hl | ⟨z, hz, hpz, rfl⟩ := ih hx
        · exact .inl (List.mem_cons_of_mem _ hl)
        · exact .inr ⟨z, List.mem_cons_of_mem _ hz, hpz, rfl⟩

/-- An entry that does not meet the test stays. -/
theorem mem_onFirst_of_not {x : α} (hx : x ∈ l) (hp : p x = false) : x ∈ onFirst p f l := by
  induction l with
  | nil => exact absurd hx List.not_mem_nil
  | cons y l ih =>
    rw [onFirst]
    obtain rfl | hl := List.mem_cons.mp hx
    · rw [hp]
      exact List.mem_cons_self
    · split
      · exact List.mem_cons_of_mem _ hl
      · exact List.mem_cons_of_mem _ (ih hl)

/-- No two entries in use have the same key. -/
def Distinct (key : α → κ) (free : κ) (l : List α) : Prop :=
  l.Pairwise fun x y => key x = key y → key x = free

variable {key : α → κ} {free : κ}

/-- The rewritten entry keeps its key, gives it up, or takes one that no entry has. -/
theorem Distinct.onFirst (h : Distinct key free l)
    (hf : ∀ y ∈ l, p y = true → key (f y) = key y ∨ key (f y) = free ∨ ∀ z ∈ l, key z ≠ key (f y)) :
    Distinct key free (onFirst p f l) := by
  induction l with
  | nil => exact h
  | cons y l ih =>
    obtain ⟨hy, hl⟩ := List.pairwise_cons.mp h
    rw [Slots.onFirst]
    split
    · rename_i hpy
      refine List.pairwise_cons.mpr ⟨?_, hl⟩
      intro z hz heq
      obtain hsame | hfree | hnew := hf y List.mem_cons_self hpy
      · rw [hsame] at heq ⊢
        exact hy z hz heq
      · exact hfree
      · exact absurd heq.symm (hnew z (List.mem_cons_of_mem _ hz))
    · refine List.pairwise_cons.mpr ⟨?_, ih hl fun z hz hpz => ?_⟩
      · intro z hz heq
        obtain hz | ⟨w, hw, hpw, rfl⟩ := mem_onFirst hz
        · exact hy z hz heq
        · obtain hsame | hfree | hnew := hf w (List.mem_cons_of_mem _ hw) hpw
          · exact hy w hw (heq.trans hsame)
          · exact heq.trans hfree
          · exact absurd heq (hnew y List.mem_cons_self)
      · obtain hsame | hfree | hnew := hf z (List.mem_cons_of_mem _ hz) hpz
        · exact .inl hsame
        · exact .inr (.inl hfree)
        · exact .inr (.inr fun w hw => hnew w (List.mem_cons_of_mem _ hw))

/-- Once the entry with a key has been freed, no entry has that key. -/
theorem Distinct.not_mem_freed [DecidableEq κ] (h : Distinct key free l) {k : κ} (hk : k ≠ free)
    (hf : ∀ y, key (f y) = free) : ∀ x ∈ Slots.onFirst (fun y => key y = k) f l, key x ≠ k := by
  induction l with
  | nil =>
    intro x hx
    exact absurd hx List.not_mem_nil
  | cons y l ih =>
    obtain ⟨hy, hl⟩ := List.pairwise_cons.mp h
    rw [Slots.onFirst]
    split
    · rename_i hpy
      have hyk : key y = k := of_decide_eq_true hpy
      intro x hx
      obtain rfl | hx := List.mem_cons.mp hx
      · rw [hf]
        exact hk.symm
      · intro hxk
        exact hk (hyk ▸ hy x hx (hyk.trans hxk.symm))
    · rename_i hpy
      intro x hx
      obtain rfl | hx := List.mem_cons.mp hx
      · exact of_decide_eq_false (Bool.not_eq_true _ ▸ hpy)
      · exact ih hl x hx

/-- A free table. -/
theorem Distinct.replicate {x : α} (hx : key x = free) (n : Nat) :
    Distinct key free (List.replicate n x) := by
  apply List.pairwise_replicate.mpr
  exact .inr fun _ => hx

end CdjEmu.Slots
