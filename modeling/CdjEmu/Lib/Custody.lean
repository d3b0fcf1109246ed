/-
  CUSTODY — every open file has one keeper, who hands it on or closes it.

  `table` says which file a descriptor is; a descriptor that is closed may become another file, so
  what a party remembers is the descriptor, and what it means is the file.  The one who opens a file
  is its `owner`.  The owner gives the file away at most once; whoever keeps it then may pass it on,
  and the last keeper closes it.

  `c.Holding k fd n` — the party `k` keeps the file `n`, at the descriptor `fd`.  The lemmas
  `holding_acquire`, `holding_hand` and `holding_close` say how it changes: only at the descriptor
  in question.  So a system whose parties hold what `Holding` says never closes a file twice, nor
  another one in its place (`Step.sound`).
-/
import Mathlib

namespace CdjEmu

/-- The open files with their keepers, and those given away and closed so far. -/
structure Custody (κ : Type) where
  table : Nat → Option Nat
  opened : Nat
  keeper : Nat → Option κ
  given : List Nat
  closed : List Nat

namespace Custody

variable {κ : Type} (owner : κ)

/-- What the parties may do. -/
inductive Step (c : Custody κ) : Custody κ → Prop
  | stay : Step c c
  | acquire {fd : Nat} : c.table fd = none → Step c { c with
      table := Function.update c.table fd (some c.opened)
      opened := c.opened + 1
      keeper := Function.update c.keeper c.opened (some owner) }
  | give {fd n : Nat} {k : κ} : c.table fd = some n → c.keeper n = some owner → k ≠ owner →
      Step c { c with
      keeper := Function.update c.keeper n (some k)
      given := c.given ++ [n] }
  | pass {fd n : Nat} {k k' : κ} : c.table fd = some n → c.keeper n = some k → k ≠ owner →
      k' ≠ owner →
      Step c { c with keeper := Function.update c.keeper n (some k') }
  | close {fd n : Nat} {k : κ} : c.table fd = some n → c.keeper n = some k → k ≠ owner →
      Step c { c with
      table := Function.update c.table fd none
      keeper := Function.update c.keeper n none
      closed := c.closed ++ [n] }

structure Sound (c : Custody κ) : Prop where
  inj : ∀ fd fd' n, c.table fd = some n → c.table fd' = some n → fd = fd'
  kept : ∀ n, c.keeper n ≠ none ↔ ∃ fd, c.table fd = some n
  fresh : ∀ n, c.keeper n ≠ none → n < c.opened
  mem_given : ∀ n, n ∈ c.given ↔ n < c.opened ∧ c.keeper n ≠ some owner
  mem_closed : ∀ n, n ∈ c.closed ↔ n < c.opened ∧ c.keeper n = none
  given_once : c.given.Nodup
  closed_once : c.closed.Nodup

/-- The party `k` keeps the file `n`, at the descriptor `fd`. -/
def Holding (c : Custody κ) (k : κ) (fd n : Nat) : Prop := c.table fd = some n ∧ c.keeper n = some k

/-- No file has been opened. -/
def empty : Custody κ := ⟨fun _ => none, 0, fun _ => none, [], []⟩

theorem empty_sound : (empty : Custody κ).Sound owner := by
  refine ⟨nofun, fun n => ?_, nofun, fun n => ?_, fun n => ?_, List.nodup_nil, List.nodup_nil⟩ <;>
    simp [empty]

variable {owner} {c d : Custody κ} {fd n : Nat}

theorem update_none_eq_some {t : Nat → Option Nat} {fd' m : Nat} :
    Function.update t fd none fd' = some m ↔ fd' ≠ fd ∧ t fd' = some m := by
  rcases eq_or_ne fd' fd with rfl | hne
  · simp
  · simp [hne]

/-! ## Who holds what -/

/-- What a party holds elsewhere is another file. -/
theorem Sound.file_ne (h : c.Sound owner) (hfd : c.table fd = some n) {fd' m : Nat}
    (hm : c.table fd' = some m) (hne : fd' ≠ fd) : m ≠ n := by
  rintro rfl
  exact hne (h.inj fd' fd m hm hfd)

theorem Sound.holding_hand (h : c.Sound owner) (hfd : c.table fd = some n) (k' k : κ)
    (fd' m : Nat) :
    c.table fd' = some m ∧ Function.update c.keeper n (some k') m = some k ↔
      (fd' ≠ fd ∧ c.Holding k fd' m) ∨ (fd' = fd ∧ m = n ∧ k = k') := by
  rcases eq_or_ne fd' fd with rfl | hne
  · constructor
    · rintro ⟨hm, hk⟩
      obtain rfl : n = m := Option.some.inj (hfd.symm.trans hm)
      rw [Function.update_self] at hk
      exact .inr ⟨rfl, rfl, (Option.some.inj hk).symm⟩
    · rintro (⟨hne, -⟩ | ⟨-, rfl, rfl⟩)
      · exact absurd rfl hne
      · exact ⟨hfd, Function.update_self ..⟩
  · constructor
    · rintro ⟨hm, hk⟩
      rw [Function.update_of_ne (h.file_ne hfd hm hne)] at hk
      exact .inl ⟨hne, hm, hk⟩
    · rintro (⟨-, hm, hk⟩ | ⟨heq, -⟩)
      · exact ⟨hm, by rwa [Function.update_of_ne (h.file_ne hfd hm hne)]⟩
      · exact absurd heq hne

theorem Sound.holding_close (h : c.Sound owner) (hfd : c.table fd = some n) (k : κ) (fd' m : Nat) :
    Function.update c.table fd none fd' = some m ∧ Function.update c.keeper n none m = some k ↔
      fd' ≠ fd ∧ c.Holding k fd' m := by
  rcases eq_or_ne fd' fd with rfl | hne
  · simp
  · rw [Function.update_of_ne hne]
    constructor
    · rintro ⟨hm, hk⟩
      rw [Function.update_of_ne (h.file_ne hfd hm hne)] at hk
      exact ⟨hne, hm, hk⟩
    · rintro ⟨-, hm, hk⟩
      exact ⟨hm, by rwa [Function.update_of_ne (h.file_ne hfd hm hne)]⟩

theorem Sound.holding_acquire (h : c.Sound owner) (k : κ) (fd' m : Nat) :
    Function.update c.table fd (some c.opened) fd' = some m ∧
        Function.update c.keeper c.opened (some owner) m = some k ↔
      (fd' ≠ fd ∧ c.Holding k fd' m) ∨ (fd' = fd ∧ m = c.opened ∧ k = owner) := by
  rcases eq_or_ne fd' fd with rfl | hne
  · rw [Function.update_self]
    constructor
    · rintro ⟨hm, hk⟩
      obtain rfl : c.opened = m := Option.some.inj hm
      rw [Function.update_self] at hk
      exact .inr ⟨rfl, rfl, (Option.some.inj hk).symm⟩
    · rintro (⟨hne, -⟩ | ⟨-, rfl, rfl⟩)
      · exact absurd rfl hne
      · exact ⟨rfl, Function.update_self ..⟩
  · rw [Function.update_of_ne hne]
    have hold : ∀ {m}, c.table fd' = some m → m ≠ c.opened := by
      intro m hm
      have := h.fresh m ((h.kept m).mpr ⟨fd', hm⟩)
      omega
    constructor
    · rintro ⟨hm, hk⟩
      rw [Function.update_of_ne (hold hm)] at hk
      exact .inl ⟨hne, hm, hk⟩
    · rintro (⟨-, hm, hk⟩ | ⟨heq, -⟩)
      · exact ⟨hm, by rwa [Function.update_of_ne (hold hm)]⟩
      · exact absurd heq hne

/-- Two parties hold nothing at one descriptor. -/
theorem Holding.eq {k k' : κ} {m : Nat} (h : c.Holding k fd n) (h' : c.Holding k' fd m) :
    m = n ∧ k' = k := by
  obtain rfl : n = m := Option.some.inj (h.1.symm.trans h'.1)
  exact ⟨rfl, Option.some.inj (h'.2.symm.trans h.2)⟩

/-! ## Steps -/

/-- Giving a file on keeps who has one. -/
theorem Sound.kept_hand (h : c.Sound owner) (hfd : c.table fd = some n) (k : κ) (m : Nat) :
    (Function.update c.keeper n (some k) m ≠ none ↔ ∃ fd', c.table fd' = some m) ∧
      (Function.update c.keeper n (some k) m ≠ none → m < c.opened) := by
  rcases eq_or_ne m n with rfl | hm
  · have hlt := h.fresh m ((h.kept m).mpr ⟨fd, hfd⟩)
    rw [Function.update_self]
    exact ⟨⟨fun _ => ⟨fd, hfd⟩, fun _ => nofun⟩, fun _ => hlt⟩
  · rw [Function.update_of_ne hm]
    exact ⟨h.kept m, h.fresh m⟩

theorem Sound.mem_closed_hand (h : c.Sound owner) (hfd : c.table fd = some n) (k : κ) (m : Nat) :
    m ∈ c.closed ↔ m < c.opened ∧ Function.update c.keeper n (some k) m = none := by
  rw [h.mem_closed]
  rcases eq_or_ne m n with rfl | hm
  · have hkept := (h.kept m).mpr ⟨fd, hfd⟩
    simp [hkept]
  · rw [Function.update_of_ne hm]

/-- **Custody is kept**: who does only this closes no file twice. -/
theorem Step.sound (hs : c.Step owner d) (h : c.Sound owner) : d.Sound owner := by
  cases hs with
  | stay => exact h
  | @acquire fd hfree =>
    -- Nobody holds the file that is opened next, so it is at no descriptor yet.
    have hnone : c.keeper c.opened = none := by
      by_contra hsome
      exact absurd (h.fresh _ hsome) (Nat.lt_irrefl _)
    have hlt : ∀ {fd' m}, c.table fd' = some m → m < c.opened := fun {fd' m} hm =>
      h.fresh m ((h.kept m).mpr ⟨fd', hm⟩)
    refine ⟨fun fd₁ fd₂ n h₁ h₂ => ?_, fun n => ?_, fun n hn => ?_, fun n => ?_, fun n => ?_,
      h.given_once, h.closed_once⟩
    · change Function.update c.table fd _ fd₁ = _ at h₁
      change Function.update c.table fd _ fd₂ = _ at h₂
      rcases eq_or_ne fd₁ fd with rfl | hne₁ <;> rcases eq_or_ne fd₂ fd₁ with rfl | hne₂
      · rfl
      · rw [Function.update_self] at h₁
        rw [Function.update_of_ne hne₂] at h₂
        have heq := Option.some.inj h₁
        have := hlt h₂
        omega
      · rfl
      · rw [Function.update_of_ne hne₁] at h₁
        rcases eq_or_ne fd₂ fd with rfl | hne
        · rw [Function.update_self] at h₂
          have heq := Option.some.inj h₂
          have := hlt h₁
          omega
        · rw [Function.update_of_ne hne] at h₂
          exact h.inj _ _ _ h₁ h₂
    · show Function.update c.keeper c.opened _ n ≠ none ↔
          ∃ fd', Function.update c.table fd _ fd' = some n
      rcases eq_or_ne n c.opened with rfl | hn
      · rw [Function.update_self]
        exact ⟨fun _ => ⟨fd, Function.update_self ..⟩, fun _ => nofun⟩
      · rw [Function.update_of_ne hn, h.kept]
        refine exists_congr fun fd' => ?_
        rcases eq_or_ne fd' fd with rfl | hne
        · rw [Function.update_self, hfree]
          simp [Ne.symm hn]
        · rw [Function.update_of_ne hne]
    · change Function.update c.keeper c.opened _ n ≠ none at hn
      show n < c.opened + 1
      rcases eq_or_ne n c.opened with rfl | hne
      · omega
      · rw [Function.update_of_ne hne] at hn
        have := h.fresh n hn
        omega
    · show n ∈ c.given ↔ n < c.opened + 1 ∧ Function.update c.keeper c.opened _ n ≠ _
      rw [h.mem_given]
      rcases eq_or_ne n c.opened with rfl | hne
      · simp
      · rw [Function.update_of_ne hne, show n < c.opened + 1 ↔ n < c.opened by omega]
    · show n ∈ c.closed ↔ n < c.opened + 1 ∧ Function.update c.keeper c.opened _ n = _
      rw [h.mem_closed]
      rcases eq_or_ne n c.opened with rfl | hne
      · simp
      · rw [Function.update_of_ne hne, show n < c.opened + 1 ↔ n < c.opened by omega]
  | @give fd n k hfd hk hne =>
    -- The owner keeps the file until now, so it has not given it before.
    have hout : n ∉ c.given := fun hn => ((h.mem_given n).mp hn).2 hk
    refine ⟨h.inj, fun m => (h.kept_hand hfd k m).1, fun m => (h.kept_hand hfd k m).2, fun m => ?_,
      h.mem_closed_hand hfd k, ?_, h.closed_once⟩
    · show m ∈ c.given ++ [n] ↔ m < c.opened ∧ Function.update c.keeper n (some k) m ≠ some owner
      rw [List.mem_append, h.mem_given, List.mem_singleton]
      rcases eq_or_ne m n with rfl | hm
      · have hlt := h.fresh m ((h.kept m).mpr ⟨fd, hfd⟩)
        simp [hlt, hne]
      · simp [hm]
    · show (c.given ++ [n]).Nodup
      rw [← List.concat_eq_append]
      exact h.given_once.concat hout
  | @pass fd n k k' hfd hk hne hne' =>
    -- Only the keeper changes, and neither of the two is the owner.
    refine ⟨h.inj, fun m => (h.kept_hand hfd k' m).1, fun m => (h.kept_hand hfd k' m).2,
      fun m => ?_, h.mem_closed_hand hfd k', h.given_once, h.closed_once⟩
    show m ∈ c.given ↔ m < c.opened ∧ Function.update c.keeper n (some k') m ≠ some owner
    rw [h.mem_given]
    rcases eq_or_ne m n with rfl | hm
    · simp [hk, hne, hne']
    · rw [Function.update_of_ne hm]
  | @close fd n k hfd hk hne =>
    have hlt := h.fresh n ((h.kept n).mpr ⟨fd, hfd⟩)
    -- Somebody keeps the file, so it has not been closed before.
    have hout : n ∉ c.closed := fun hn => by
      rw [h.mem_closed, hk] at hn
      exact nomatch hn.2
    refine ⟨fun fd₁ fd₂ m h₁ h₂ => ?_, fun m => ?_, fun m hm => ?_, fun m => ?_, fun m => ?_,
      h.given_once, ?_⟩
    · obtain ⟨-, h₁⟩ := update_none_eq_some.mp h₁
      obtain ⟨-, h₂⟩ := update_none_eq_some.mp h₂
      exact h.inj _ _ _ h₁ h₂
    · show Function.update c.keeper n none m ≠ none ↔
          ∃ fd', Function.update c.table fd none fd' = some m
      rcases eq_or_ne m n with rfl | hm
      · rw [Function.update_self]
        refine ⟨fun hnone => absurd rfl hnone, fun ⟨fd', hfd'⟩ => ?_⟩
        obtain ⟨hne', hfd'⟩ := update_none_eq_some.mp hfd'
        exact absurd (h.inj _ _ _ hfd' hfd) hne'
      · rw [Function.update_of_ne hm, h.kept]
        refine exists_congr fun fd' => ?_
        rcases eq_or_ne fd' fd with rfl | hne'
        · rw [Function.update_self, hfd]
          simp [Ne.symm hm]
        · rw [Function.update_of_ne hne']
    · change Function.update c.keeper n none m ≠ none at hm
      rcases eq_or_ne m n with rfl | hmn
      · exact hlt
      · rw [Function.update_of_ne hmn] at hm
        exact h.fresh m hm
    · show m ∈ c.given ↔ m < c.opened ∧ Function.update c.keeper n none m ≠ some owner
      rw [h.mem_given]
      rcases eq_or_ne m n with rfl | hm
      · simp [hk, hne]
      · rw [Function.update_of_ne hm]
    · show m ∈ c.closed ++ [n] ↔ m < c.opened ∧ Function.update c.keeper n none m = none
      rw [List.mem_append, h.mem_closed, List.mem_singleton]
      rcases eq_or_ne m n with rfl | hm
      · simp [hlt]
      · simp [hm]
    · show (c.closed ++ [n]).Nodup
      rw [← List.concat_eq_append]
      exact h.closed_once.concat hout

end Custody

end CdjEmu
