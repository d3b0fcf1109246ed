/-
  GUARDED MACHINES — partial step functions, and what holds along their runs.

  A `Machine σ α` is a step function `σ → α → Option σ`: in state `s` the event `a` is either not
  possible (`none`) or leads to exactly one state.  Everything a system leaves open — who moves
  next, which system call fails, in which order a directory is listed — is part of the EVENT, so the
  step function computes and a concrete schedule can be run.

  Two views of a run are used:

  * `M.Reach G s t` — some run from `s` to `t` takes only steps that meet the guard `G`.  The guard
    is a condition on the state BEFORE a step and the event taken there.  `Reach.inv` is the
    invariant rule: what holds at the start and is kept by every guarded step holds at the end.
  * `M.run G s as` — the state after the events `as`, for executing a schedule that meets a
    decidable guard; `Reach.of_run` turns an executed schedule into a run.

  `Machine.hist` adds a HISTORY variable to a machine: it is computed from the steps and never
  influences them, so it can say what a run has done without changing what the machine does.

  `Threads` is the machine of a family of processes over one SHARED state: an event names the
  process that moves, and a move changes the shared state and that process's own place only.
-/
import Mathlib

namespace CdjEmu

/-- A machine: `step s a` is the state after the event `a` in state `s`, `none` when `a` is not
    possible there. -/
structure Machine (σ α : Type) where
  step : σ → α → Option σ

namespace Machine

variable {σ α η : Type} (M : Machine σ α)

/-! ## Reachability under a guard -/

/-- `M.Reach G s t` — some run from `s` to `t` takes only steps that meet `G`. -/
inductive Reach (G : σ → α → Prop) (s : σ) : σ → Prop
  | refl : Reach G s s
  | step {t u : σ} {a : α} : Reach G s t → G t a → M.step t a = some u → Reach G s u

/-- The guard that every step meets. -/
def Free : σ → α → Prop := fun _ _ => True

instance (s : σ) (a : α) : Decidable (Free s a) := inferInstanceAs (Decidable True)

variable {M}

/-- **The invariant rule.**  What holds at the start and is kept by every guarded step holds in
    every state that guarded steps reach. -/
theorem Reach.inv {G : σ → α → Prop} {I : σ → Prop} {s t : σ} (h0 : I s)
    (hstep : ∀ t a u, I t → G t a → M.step t a = some u → I u) (h : M.Reach G s t) : I t := by
  induction h with
  | refl => exact h0
  | step _ hg hs ih => exact hstep _ _ _ ih hg hs

/-- Runs compose: a guarded run from `s` to `t` continues with one from `t` to `u`. -/
theorem Reach.trans {G : σ → α → Prop} {s t u : σ} (h : M.Reach G s t) (h' : M.Reach G t u) :
    M.Reach G s u := by
  induction h' with
  | refl => exact h
  | step _ hg hs ih => exact ih.step hg hs

/-- A run that meets `G` meets every condition that `G` implies along it. -/
theorem Reach.mono {G G' : σ → α → Prop} {s t : σ} (h : M.Reach G s t)
    (himp : ∀ u a, M.Reach G s u → G u a → G' u a) : M.Reach G' s t := by
  induction h with
  | refl => exact .refl
  | step hr hg hs ih => exact ih.step (himp _ _ hr hg) hs

variable (M)

/-! ## Executing a schedule -/

/-- The state after the events `as`; `none` as soon as one of them is not possible or does not
    meet the guard. -/
def run (G : σ → α → Prop) [∀ s a, Decidable (G s a)] : σ → List α → Option σ
  | s, [] => some s
  | s, a :: as =>
    if G s a then
      match M.step s a with
      | some t => run G t as
      | none => none
    else none

variable {M}

/-- A schedule that runs through is a guarded run. -/
theorem Reach.of_run {G : σ → α → Prop} [∀ s a, Decidable (G s a)] :
    ∀ {as : List α} {s t : σ}, M.run G s as = some t → M.Reach G s t
  | [], s, t, hr => by
      obtain rfl : s = t := Option.some.inj hr
      exact .refl
  | a :: as, s, t, hr => by
      rw [run] at hr
      split at hr
      · rename_i hg
        cases hs : M.step s a with
        | none => rw [hs] at hr; nomatch hr
        | some u =>
          rw [hs] at hr
          exact (Reach.refl.step hg hs).trans (Reach.of_run hr)
      · nomatch hr

/-- The executed form: a schedule whose last state passes the test `p` reaches a state with `p`. -/
theorem Reach.of_run_any {G : σ → α → Prop} [∀ s a, Decidable (G s a)] {s : σ} {p : σ → Bool}
    (as : List α) (h : (M.run G s as).any p = true) : ∃ t, M.Reach G s t ∧ p t = true := by
  cases hr : M.run G s as with
  | none => rw [hr] at h; nomatch h
  | some t =>
    rw [hr] at h
    exact ⟨t, Reach.of_run hr, h⟩

/-! ## History variables -/

variable (M)

/-- `M` with a history variable: `upd` computes it from the steps taken, and no step reads it. -/
def hist (upd : η → σ → α → σ → η) : Machine (σ × η) α where
  step p a := (M.step p.1 a).map fun t => (t, upd p.2 p.1 a t)

variable {M}

/-- A step of the machine with history is a step of the machine, and the history follows it. -/
theorem hist_step {upd : η → σ → α → σ → η} {s : σ} {x : η} {a : α} {q : σ × η}
    (h : (M.hist upd).step (s, x) a = some q) :
    ∃ t, M.step s a = some t ∧ q = (t, upd x s a t) := by
  obtain ⟨t, ht, rfl⟩ := Option.map_eq_some_iff.mp h
  exact ⟨t, ht, rfl⟩

end Machine

/-! ## Processes over a shared state -/

/-- A family of processes indexed by `ι`: `trans p sh l e` is what the event `e` of process `p`,
    which is at the place `l`, does to the shared state `sh` and to `p`'s place. -/
structure Threads (ι σ ℓ ε : Type) where
  trans : ι → σ → ℓ → ε → Option (σ × ℓ)

namespace Threads

variable {ι σ ℓ ε : Type} [DecidableEq ι] (T : Threads ι σ ℓ ε)

/-- The machine of the family: any process may take the next step. -/
def machine : Machine (σ × (ι → ℓ)) (ι × ε) where
  step s a := (T.trans a.1 s.1 (s.2 a.1) a.2).map fun r => (r.1, Function.update s.2 a.1 r.2)

variable {T}

/-- A step of the family is a move of one process; the others stay where they are. -/
theorem step_cases {s t : σ × (ι → ℓ)} {p : ι} {e : ε} (h : T.machine.step s (p, e) = some t) :
    ∃ sh l, T.trans p s.1 (s.2 p) e = some (sh, l) ∧ t = (sh, Function.update s.2 p l) := by
  obtain ⟨⟨sh, l⟩, hr, rfl⟩ := Option.map_eq_some_iff.mp h
  exact ⟨sh, l, hr, rfl⟩

/-- **The proof rule for families of processes.**  `J` is an invariant of the shared state
    and `A p` says what process `p` relies on at its place.  A step keeps them when the
    move keeps `J`, establishes the mover's own assertion (`hown`) and does not disturb
    anyone else's (`hothers`). -/
theorem inv_step {J : σ → Prop} {A : ι → σ → ℓ → Prop} {s t : σ × (ι → ℓ)} {p : ι} {e : ε}
    (hs : T.machine.step s (p, e) = some t)
    (hown : ∀ sh l, T.trans p s.1 (s.2 p) e = some (sh, l) → J sh ∧ A p sh l)
    (hothers : ∀ sh l, T.trans p s.1 (s.2 p) e = some (sh, l) → ∀ q, q ≠ p → A q sh (s.2 q)) :
    J t.1 ∧ ∀ q, A q t.1 (t.2 q) := by
  obtain ⟨sh, l, hr, rfl⟩ := step_cases hs
  obtain ⟨hJ, hp⟩ := hown sh l hr
  refine ⟨hJ, fun q => ?_⟩
  by_cases hq : q = p
  · subst hq; simpa using hp
  · simpa [Function.update_of_ne hq] using hothers sh l hr q hq

end Threads

end CdjEmu
