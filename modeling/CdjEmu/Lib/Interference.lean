/-
  PROGRAMS AMONG OTHERS — a program of calls whose state others change between its calls.

  `R s t`: the others can turn `s` into `t`.  `Safe E I R Q p s` is what `Always` is for a program
  that runs alone: whatever the others do before each call and at the end, `I` holds there, and the
  end has `Q`.  It is kept by what the others do (`Safe.others`) and by the program's own calls
  (`Safe.step`), so a machine that holds a program at work keeps it as an invariant.

  Where nobody interferes, a program that is safe alone is safe (`Safe.of_alone`).
-/
import CdjEmu.Lib.Program

namespace CdjEmu.Prog

variable {σ C : Type} {A : C → Type} {α β : Type}

/-- Whatever the others do, every state in which the program makes a call has `I`, and so has its
    end, with `Q`. -/
def Safe (E : Effect σ C A) (I : σ → Prop) (R : σ → σ → Prop) (Q : α → σ → Prop) :
    Prog C A α → σ → Prop
  | done a, s => ∀ t, R s t → I t ∧ Q a t
  | call c next, s => ∀ t, R s t → I t ∧ ∀ r u, E c t r u → Safe E I R Q (next r) u

section Rules

variable {E : Effect σ C A} {I : σ → Prop} {R : σ → σ → Prop} {Q : α → σ → Prop} {s t : σ}

theorem Safe.inv {p : Prog C A α} (hrefl : ∀ s, R s s) (h : Safe E I R Q p s) : I s := by
  cases p with
  | done a => exact (h s (hrefl s)).1
  | call c next => exact (h s (hrefl s)).1

theorem Safe.others {p : Prog C A α} (htrans : ∀ s t u, R s t → R t u → R s u)
    (h : Safe E I R Q p s) (ht : R s t) :
    Safe E I R Q p t := by
  cases p with
  | done a => exact fun u hu => h u (htrans s t u ht hu)
  | call c next => exact fun u hu => h u (htrans s t u ht hu)

theorem Safe.step {c : C} {next : A c → Prog C A α} {r : A c} (hrefl : ∀ s, R s s)
    (h : Safe E I R Q (call c next) s) (hr : E c s r t) : Safe E I R Q (next r) t :=
      (h s (hrefl s)).2 r t hr

theorem Safe.mono {p : Prog C A α} {Q' : α → σ → Prop} (h : Safe E I R Q p s)
    (hQ : ∀ a t, Q a t → Q' a t) : Safe E I R Q' p s := by
  induction p generalizing s with
  | done a => exact fun t ht => ⟨(h t ht).1, hQ a t (h t ht).2⟩
  | call c next ih => exact fun t ht => ⟨(h t ht).1, fun r u hr => ih r ((h t ht).2 r u hr)⟩

theorem Safe.bind {p : Prog C A β} {f : β → Prog C A α} {P : β → σ → Prop} (hrefl : ∀ s, R s s)
    (hp : Safe E I R P p s) (hf : ∀ b t, I t → P b t → Safe E I R Q (f b) t) :
    Safe E I R Q (p >>= f) s := by
  induction p generalizing s with
  | done b => exact hf b s (hp s (hrefl s)).1 (hp s (hrefl s)).2
  | call c next ih => exact fun t ht => ⟨(hp t ht).1, fun r u hr => ih r ((hp t ht).2 r u hr)⟩

/-- A part that may fail, and what follows it when it does not. -/
theorem Safe.andThen {ε : Type} {p : ExceptT ε (Prog C A) β} {f : β → ExceptT ε (Prog C A) α}
    {P : Except ε β → σ → Prop} {Q : Except ε α → σ → Prop} (hrefl : ∀ s, R s s)
    (hp : Safe E I R P p.run s) (hok : ∀ b t, I t → P (.ok b) t → Safe E I R Q (f b).run t)
    (herror : ∀ e t, I t → P (.error e) t → ∀ u, R t u → I u ∧ Q (.error e) u) :
    Safe E I R Q (p >>= f).run s := by
  refine Safe.bind hrefl hp fun r t hI hP => ?_
  cases r with
  | error e => exact herror e t hI hP
  | ok b => exact hok b t hI hP

/-- A part that cannot fail. -/
theorem Safe.lifted {ε : Type} {p : Prog C A β} {f : β → ExceptT ε (Prog C A) α} {P : β → σ → Prop}
    {Q : Except ε α → σ → Prop} (hrefl : ∀ s, R s s) (hp : Safe E I R P p s)
    (hf : ∀ b t, I t → P b t → Safe E I R Q (f b).run t) :
    Safe E I R Q (ExceptT.lift p >>= f).run s := by
  rw [run_lift_bind]
  exact Safe.bind hrefl hp hf

/-- Where the others do nothing. -/
theorem Safe.of_alone {J : σ → Prop} {p : Prog C A α} (hJ : ∀ s t, J s → R s t → t = s)
    (h : Always E (fun s => I s ∧ J s) Q p s) : Safe E I R Q p s := by
  induction p generalizing s with
  | done a =>
    intro t ht
    obtain rfl := hJ s t h.1.2 ht
    exact ⟨h.1.1, h.2⟩
  | call c next ih =>
    intro t ht
    obtain rfl := hJ s t h.1.2 ht
    exact ⟨h.1.1, fun r u hr => ih r (h.step hr)⟩

end Rules

end CdjEmu.Prog
