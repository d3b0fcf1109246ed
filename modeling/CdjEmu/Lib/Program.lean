/-
  PROGRAMS OF CALLS — a program that may stop before any of its calls, and whose calls may fail.

  A `Prog C R α` makes calls of `C`, one after the other; the call `c` is answered by an `R c`, and
  what is done next depends on the answer.  What a call may answer, and what it leaves behind, is an
  `Effect`: a relation, so a call that may fail in several ways has several answers.

  `Always E I Q p s` is the one thing said about a program: started in `s`, every state between two
  of its calls has `I`, so a crash there leaves `I`, and where it ends its result and the state have
  `Q`.  It is proved along the program: `Always.perform` for a call, `Always.bind` for a part with a
  law of its own. `Ends E p s a s'` says that one of its runs ends, with `a` in `s'`; it then has
  what `Always` says of the ends (`Always.ends`).  `Stops E p s s'` says that one of them can stop
  in `s'`.
-/

namespace CdjEmu

/-- A program whose call `c` is answered by an `R c`. -/
inductive Prog (C : Type) (R : C → Type) (α : Type) where
  | done (a : α)
  | call (c : C) (next : R c → Prog C R α)

/-- What a call may answer in a state, and the state it leaves. -/
abbrev Effect (σ C : Type) (R : C → Type) := (c : C) → σ → R c → σ → Prop

namespace Prog

variable {σ C : Type} {R : C → Type} {α β : Type}

def bind : Prog C R α → (α → Prog C R β) → Prog C R β
  | done a, f => f a
  | call c next, f => call c fun r => (next r).bind f

instance : Monad (Prog C R) where
  pure := done
  bind := bind

/-- The program of one call. -/
def perform (c : C) : Prog C R (R c) := call c done

/-- Every state between two calls has `I`, and the end has `Q`. -/
def Always (E : Effect σ C R) (I : σ → Prop) (Q : α → σ → Prop) : Prog C R α → σ → Prop
  | done a, s => I s ∧ Q a s
  | call c next, s => I s ∧ ∀ r s', E c s r s' → Always E I Q (next r) s'

/-- Started in `s`, the program can end with `a` in `s'`. -/
def Ends (E : Effect σ C R) : Prog C R α → σ → α → σ → Prop
  | done b, s, a, s' => a = b ∧ s' = s
  | call c next, s, a, s' => ∃ r t, E c s r t ∧ Ends E (next r) t a s'

/-- Started in `s`, the program can stop in `s'`, in front of one of its calls or at its end. -/
def Stops (E : Effect σ C R) : Prog C R α → σ → σ → Prop
  | done _, s, s' => s' = s
  | call c next, s, s' => s' = s ∨ ∃ r t, E c s r t ∧ Stops E (next r) t s'

/-- The end of the run in which every call is answered by `answer`. -/
def exec (answer : (c : C) → σ → R c × σ) : Prog C R α → σ → α × σ
  | done a, s => (a, s)
  | call c next, s => exec answer (next (answer c s).1) (answer c s).2

section Rules

variable {E E' : Effect σ C R} {I I' : σ → Prop} {Q : α → σ → Prop} {s : σ}

theorem Always.inv {p : Prog C R α} (h : Always E I Q p s) : I s := by
  cases p with
  | done a => exact h.1
  | call c next => exact h.1

/-- The answer to a call leads to a program with the same law. -/
theorem Always.step {c : C} {next : R c → Prog C R α} {r : R c} {s' : σ}
    (h : Always E I Q (call c next) s) (hr : E c s r s') : Always E I Q (next r) s' := h.2 r s' hr

theorem Always.pure {a : α} (hI : I s) (hQ : Q a s) : Always E I Q (Pure.pure a : Prog C R α) s :=
  ⟨hI, hQ⟩

/-- A call, and what follows each of its answers. -/
theorem Always.perform {c : C} {f : R c → Prog C R α} (hI : I s)
    (h : ∀ r s', E c s r s' → Always E I Q (f r) s') :
    Always E I Q (perform c >>= f) s := ⟨hI, h⟩

/-- A part of a program, and what follows its end. -/
theorem Always.bind {p : Prog C R β} {f : β → Prog C R α} {P : β → σ → Prop} (hp : Always E I P p s)
    (hf : ∀ b s', I s' → P b s' → Always E I Q (f b) s') : Always E I Q (p >>= f) s := by
  induction p generalizing s with
  | done b => exact hf b s hp.1 hp.2
  | call c next ih => exact ⟨hp.1, fun r s' hr => ih r (hp.step hr)⟩

/-- An end is one of those that the law speaks of. -/
theorem Always.ends {p : Prog C R α} {a : α} {s' : σ} (h : Always E I Q p s)
    (he : Ends E p s a s') : I s' ∧ Q a s' := by
  induction p generalizing s with
  | done b =>
    obtain ⟨rfl, rfl⟩ := he
    exact h
  | call c next ih =>
    obtain ⟨r, t, hr, he⟩ := he
    exact ih r (h.step hr) he

/-- Wherever a run stops, it stops in a state that the law speaks of. -/
theorem Always.stops {p : Prog C R α} {s' : σ} (h : Always E I Q p s) (hs : Stops E p s s') :
    I s' := by
  induction p generalizing s with
  | done b =>
    obtain rfl := hs
    exact h.inv
  | call c next ih =>
    rcases hs with rfl | ⟨r, t, hr, hs⟩
    · exact h.inv
    · exact ih r (h.step hr) hs

/-- Answers that a call may give lead to an end that the program can have. -/
theorem exec_ends {answer : (c : C) → σ → R c × σ} (h : ∀ c s, E c s (answer c s).1 (answer c s).2)
    (p : Prog C R α) (s : σ) :
    Ends E p s (exec answer p s).1 (exec answer p s).2 := by
  induction p generalizing s with
  | done a => exact ⟨rfl, rfl⟩
  | call c next ih => exact ⟨_, _, h c s, ih _ _⟩

/-- The run of two programs, one after the other. -/
theorem ends_bind {p : Prog C R β} {f : β → Prog C R α} {a : α} {s' : σ} :
    Ends E (p >>= f) s a s' ↔ ∃ b t, Ends E p s b t ∧ Ends E (f b) t a s' := by
  induction p generalizing s with
  | done b =>
    constructor
    · intro h
      exact ⟨b, s, ⟨rfl, rfl⟩, h⟩
    · rintro ⟨b', t, ⟨rfl, rfl⟩, h⟩
      exact h
  | call c next ih =>
    constructor
    · rintro ⟨r, u, hr, h⟩
      obtain ⟨b, t, hp, hf⟩ := ih r |>.mp h
      exact ⟨b, t, ⟨r, u, hr, hp⟩, hf⟩
    · rintro ⟨b, t, ⟨r, u, hr, hp⟩, hf⟩
      exact ⟨r, u, hr, (ih r).mpr ⟨b, t, hp, hf⟩⟩

/-- Of every run something can be said. -/
theorem Always.triv (p : Prog C R α) (s : σ) : Always E (fun _ => True) (fun _ _ => True) p s := by
  induction p generalizing s with
  | done a => exact ⟨trivial, trivial⟩
  | call c next ih => exact ⟨trivial, fun r s' _ => ih r s'⟩

/-- Fewer answers, and less to show. -/
theorem Always.mono {p : Prog C R α} {Q' : α → σ → Prop} (h : Always E I Q p s)
    (hE : ∀ c s r s', E' c s r s' → E c s r s') (hI : ∀ s, I s → I' s)
    (hQ : ∀ a s, I s → Q a s → Q' a s) : Always E' I' Q' p s := by
  induction p generalizing s with
  | done a => exact ⟨hI s h.1, hQ a s h.1 h.2⟩
  | call c next ih => exact ⟨hI s h.1, fun r s' hr => ih r (h.step (hE c s r s' hr))⟩

/-- A program over the items of a list, one after the other. -/
def forEach {ι : Type} (f : ι → Prog C R Unit) : List ι → Prog C R Unit
  | [] => Pure.pure ()
  | i :: is => do
    f i
    forEach f is

/-- What every item keeps, the whole list keeps; `J` may speak of the items that are left. -/
theorem Always.forEach {ι : Type} {f : ι → Prog C R Unit} {J : List ι → σ → Prop} {is : List ι}
    (hJ : I s ∧ J is s)
    (hf : ∀ i is s, I s → J (i :: is) s → Always E I (fun _ s' => J is s') (f i) s) :
    Always E I (fun _ s' => J [] s') (forEach f is) s := by
  induction is generalizing s with
  | nil => exact ⟨hJ.1, hJ.2⟩
  | cons i is ih => exact Always.bind (hf i is s hJ.1 hJ.2) fun _ s' hI hJ => ih ⟨hI, hJ⟩

/-! ### Programs that give up at the first failure -/

variable {ε : Type}

/-- A part that may fail, and what follows it when it does not. -/
theorem Always.andThen {p : ExceptT ε (Prog C R) β} {f : β → ExceptT ε (Prog C R) α}
    {P : Except ε β → σ → Prop} {Q : Except ε α → σ → Prop} (hp : Always E I P p.run s)
    (hok : ∀ b s', I s' → P (.ok b) s' → Always E I Q (f b).run s')
    (herror : ∀ e s', I s' → P (.error e) s' → Q (.error e) s') : Always E I Q (p >>= f).run s := by
  refine Always.bind hp fun r s' hI hP => ?_
  cases r with
  | error e => exact ⟨hI, herror e s' hI hP⟩
  | ok b => exact hok b s' hI hP

theorem run_lift_bind (p : Prog C R β) (f : β → ExceptT ε (Prog C R) α) :
    (ExceptT.lift p >>= f).run = p >>= fun b => (f b).run := by
  induction p with
  | done b => rfl
  | call c next ih => exact congrArg (call c) (funext ih)

/-- A part that cannot fail. -/
theorem Always.lifted {p : Prog C R β} {f : β → ExceptT ε (Prog C R) α} {P : β → σ → Prop}
    {Q : Except ε α → σ → Prop} (hp : Always E I P p s) (hf : ∀ b s', I s' → P b s' →
      Always E I Q (f b).run s') : Always E I Q (ExceptT.lift p >>= f).run s := by
  rw [run_lift_bind]
  exact Always.bind hp hf

end Rules

end Prog

end CdjEmu
