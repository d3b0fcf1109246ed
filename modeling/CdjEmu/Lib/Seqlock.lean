/-
  SEQUENCE LOCKS — a writer that never waits, and readers that notice when they were in its way.

  The writer advances a counter before and after each frame it writes, so the counter is odd while
  cells change.  A reader copies the cells one by one and keeps the copy when the counter was even
  before and is the same afterwards. `count` is the number of advances; what memory holds of it is
  its residue, which `eq_of_mod_eq` turns back into the number.

  `Copy.Good` is what a reader relies on while it copies: the cells it has are those of now, unless
  the counter moved. Every step of the writer keeps it (`Good.step`), because no cell changes while
  the counter is even.
-/
import Mathlib

namespace CdjEmu

/-- The counter, the cells and what the last finished frame left in them. -/
structure Seqlock (ι β : Type) where
  count : Nat
  cells : ι → β
  last : ι → β

namespace Seqlock

variable {ι β : Type} {l l' : Seqlock ι β}

/-- What the writer may do. -/
inductive Step (l : Seqlock ι β) : Seqlock ι β → Prop
  | stay : Step l l
  | enter : l.count % 2 = 0 → Step l { l with count := l.count + 1 }
  | write (f : ι → β) : l.count % 2 = 1 → Step l { l with cells := f }
  | leave : l.count % 2 = 1 → Step l { l with count := l.count + 1, last := l.cells }

/-- While the counter is even, the cells are those of the last frame. -/
def Sound (l : Seqlock ι β) : Prop := l.count % 2 = 0 → l.cells = l.last

theorem Step.sound (hs : Step l l') (h : l.Sound) : l'.Sound := by
  cases hs with
  | stay => exact h
  | enter heven =>
    intro hodd
    dsimp only at hodd
    omega
  | write f hodd =>
    intro heven
    dsimp only at heven
    omega
  | leave _ => exact fun _ => rfl

theorem Step.count_le (hs : Step l l') : l.count ≤ l'.count := by
  cases hs with
  | stay => exact Nat.le_refl _
  | enter _ => exact Nat.le_succ _
  | write _ _ => exact Nat.le_refl _
  | leave _ => exact Nat.le_succ _

/-! ## A reader's copy -/

/-- The counter before the copy, the cells copied so far and what was read there. -/
structure Copy (ι β : Type) where
  start : Nat
  seen : ι → Prop
  got : ι → β

/-- What has been copied is what the cells are, unless the counter has moved. -/
structure Copy.Good (c : Copy ι β) (l : Seqlock ι β) : Prop where
  stable : c.start % 2 = 0
  le : c.start ≤ l.count
  same : l.count = c.start → ∀ i, c.seen i → c.got i = l.cells i

variable {c : Copy ι β}

/-- **The writer does not spoil a copy unnoticed.** -/
theorem Copy.Good.step (h : c.Good l) (hs : Step l l') : c.Good l' := by
  refine ⟨h.stable, Nat.le_trans h.le hs.count_le, ?_⟩
  have hle := h.le
  have hstable := h.stable
  intro heq
  cases hs with
  | stay => exact h.same heq
  | enter _ =>
    dsimp only at heq
    omega
  | write f hodd =>
    dsimp only at heq
    omega
  | leave _ =>
    dsimp only at heq
    omega

/-- One more cell. -/
theorem Copy.Good.read (h : c.Good l) {seen : ι → Prop} {got : ι → β}
    (hnew : ∀ i, seen i → got i = l.cells i ∨ c.seen i ∧ got i = c.got i) :
    Copy.Good ⟨c.start, seen, got⟩ l := by
  refine ⟨h.stable, h.le, ?_⟩
  intro heq i hi
  rcases hnew i hi with hcell | ⟨hseen, hold⟩
  · exact hcell
  · exact hold.trans (h.same heq i hseen)

/-- **A copy with the same counter before and after is the last frame.** -/
theorem Copy.Good.frame (h : c.Good l) (hl : l.Sound) (heq : l.count = c.start) {i : ι}
    (hi : c.seen i) :
    c.got i = l.last i := by
  have heven : l.count % 2 = 0 := heq ▸ h.stable
  rw [h.same heq i hi, hl heven]

/-- Counters of the same residue are equal when fewer than the modulus lie between them. -/
theorem eq_of_mod_eq {a b m : Nat} (hle : a ≤ b) (hnear : b < a + m) (h : a % m = b % m) :
    a = b := by
  have hzero : (b - a) % m = 0 := Nat.sub_mod_eq_zero_of_mod_eq h.symm
  rw [Nat.mod_eq_of_lt (by omega)] at hzero
  omega

end Seqlock

end CdjEmu
