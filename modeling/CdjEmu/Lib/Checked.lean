/-
  CHECKED STEPS — programs that stop where an index is out of range or a number overflows.

  A checked step gives an `Option`: `none` is the stop.  `Steps ε` are those that may end with an
  error besides, which is not a stop.  A loop that is run with too little fuel has stopped too, so a
  program that never gives `none` ends, indexes only what is there and never overflows.

  A program is shown not to stop by what it ends with (`Ends`), part by part, or against one without
  the checks: `lift_bind` takes a check that passes away, and `refines_bind` goes on behind a part
  that is known already.  A `usize` is a `Nat` below `2 ^ 64`, and a slice has fewer than `2 ^ 63`
  octets.

  `InPlace ε` are the steps that write into a buffer as they go.  An error leaves behind what was
  written until then, so that it leaves the buffer alone has to be shown.
-/
import CdjEmu.Lib.Buffer

namespace CdjEmu

/-- Steps that may stop, or end with an error. -/
abbrev Steps (ε : Type) := ExceptT ε Option

/-- A byte string in memory. -/
structure Slice where
  octets : Bytes
  small : octets.length < 2 ^ 63

namespace Checked

def add (a b : Nat) : Option Nat := if a + b < 2 ^ 64 then some (a + b) else none

def sub (a b : Nat) : Option Nat := if b ≤ a then some (a - b) else none

def mul (a b : Nat) : Option Nat := if a * b < 2 ^ 64 then some (a * b) else none

/-- `b[i]`. -/
def index {α : Type} (b : List α) (i : Nat) : Option α := b[i]?

/-- `b[i..j]`. -/
def range (b : Bytes) (i j : Nat) : Option Bytes :=
  if i ≤ j ∧ j ≤ b.length then some (slice b i (j - i)) else none

/-- `b[i..j].copy_from_slice(src)`. -/
def copy (b : Bytes) (i j : Nat) (src : Bytes) : Option Bytes :=
  if (i ≤ j ∧ j ≤ b.length) ∧ src.length = j - i then some (splice b i src) else none

/-- `l[i..]`. -/
def behind {α : Type} (l : List α) (i : Nat) : Option (List α) :=
  if i ≤ l.length then some (l.drop i) else none

theorem add_eq {a b : Nat} (h : a + b < 2 ^ 64) : add a b = some (a + b) := if_pos h

theorem sub_eq {a b : Nat} (h : b ≤ a) : sub a b = some (a - b) := if_pos h

theorem mul_eq {a b : Nat} (h : a * b < 2 ^ 64) : mul a b = some (a * b) := if_pos h

theorem range_eq {b : Bytes} {i j : Nat} (hij : i ≤ j) (hj : j ≤ b.length) :
    range b i j = some (slice b i (j - i)) :=
  if_pos ⟨hij, hj⟩

/-- A range by its length. -/
theorem range_add {b : Bytes} {i n : Nat} (h : i + n ≤ b.length) :
    range b i (i + n) = some (slice b i n) := by
  rw [range_eq (Nat.le_add_right i n) h, Nat.add_sub_cancel_left]

theorem copy_eq {b src : Bytes} {i j : Nat} (hij : i ≤ j) (hj : j ≤ b.length)
    (hlen : src.length = j - i) :
    copy b i j src = some (splice b i src) := if_pos ⟨⟨hij, hj⟩, hlen⟩

theorem index_eq {α : Type} {b : List α} {i : Nat} (h : i < b.length) : index b i = some b[i] :=
  List.getElem?_eq_getElem h

theorem behind_eq {α : Type} {l : List α} {i : Nat} (h : i ≤ l.length) :
    behind l i = some (l.drop i) := if_pos h

/-- A check that passes. -/
theorem bind_of_eq {α β : Type} {o : Option α} {a : α} (h : o = some a) (f : α → Option β) :
    (o >>= f) = f a := by
  subst h
  rfl

/-- Checks that pass for every item. -/
theorem mapM_eq {α β : Type} {f : α → Option β} {g : α → β} {l : List α}
    (h : ∀ a ∈ l, f a = some (g a)) :
    l.mapM f = some (l.map g) := by
  induction l with
  | nil => rfl
  | cons a l ih =>
    have hl := ih fun a ha => h a (List.mem_cons_of_mem _ ha)
    rw [List.mapM_cons, bind_of_eq (h a List.mem_cons_self), bind_of_eq hl]
    rfl

end Checked

namespace Steps

variable {ε α β : Type}

/-- A check that passes. -/
theorem lift_bind {o : Option α} {a : α} (h : o = some a) (f : α → Steps ε β) :
    ((liftM o : Steps ε α) >>= f) = f a := by
  subst h
  rfl

/-- A part that ended well. -/
theorem ok_bind (a : α) (f : α → Steps ε β) :
    ((liftM (Except.ok a : Except ε α) : Steps ε α) >>= f) = f a := rfl

/-- Behind a part that does not stop, the rest is to be shown for what it gives only. -/
theorem refines_bind {x : Steps ε α} {r : Except ε α} {f : α → Steps ε β} {g : α → Except ε β}
    (hx : x = some r) (hf : ∀ a, r = .ok a → f a = some (g a)) :
    (x >>= f : Steps ε β) = some (r >>= g) := by
  subst hx
  cases r with
  | error e => rfl
  | ok a => exact hf a rfl

/-- The same where the checked program gives `m` of what the other one does. -/
theorem refines_bind_map {γ : Type} (m : β → γ) {x : Steps ε α} {r : Except ε α} {f : α → Steps ε γ}
    {g : α → Except ε β} (hx : x = some r) (hf : ∀ a, r = .ok a → f a = some ((g a).map m)) :
    (x >>= f : Steps ε γ) = some ((r >>= g).map m) := by
  subst hx
  cases r with
  | error e => rfl
  | ok a => exact hf a rfl

/-- A part that does not stop, in a test. -/
theorem refines_ite {c : Prop} [Decidable c] {x y : Steps ε α} {r q : Except ε α}
    (hx : c → x = some r) (hy : ¬ c → y = some q) :
    (if c then x else y) = some (if c then r else q) := by
  by_cases h : c
  · rw [if_pos h, if_pos h]
    exact hx h
  · rw [if_neg h, if_neg h]
    exact hy h

/-- Parts that do not stop, one for each item. -/
theorem mapM_eq {f : α → Steps ε β} {g : α → Except ε β} {l : List α}
    (h : ∀ a ∈ l, f a = some (g a)) :
    (l.mapM f : Steps ε (List β)) = some (l.mapM g) := by
  induction l with
  | nil => rfl
  | cons a l ih =>
    rw [List.mapM_cons, List.mapM_cons]
    refine refines_bind (h a List.mem_cons_self) fun b _ => ?_
    refine refines_bind (ih fun a ha => h a (List.mem_cons_of_mem _ ha)) fun bs _ => ?_
    rfl

/-! ## What a program ends with -/

/-- The program does not stop, and what it gives, if it does not end with an error, meets `Q`. -/
def Ends (x : Steps ε α) (Q : α → Prop) : Prop := ∃ r, x = some r ∧ ∀ a, r = .ok a → Q a

variable {P Q : α → Prop} {R : β → Prop} {x : Steps ε α} {f : α → Steps ε β}

theorem ends_pure {a : α} (h : Q a) : Ends (pure a : Steps ε α) Q := by
  refine ⟨.ok a, rfl, ?_⟩
  intro b hb
  obtain rfl := Except.ok.inj hb
  exact h

theorem ends_throw (e : ε) : Ends (throw e : Steps ε α) Q := by
  refine ⟨.error e, rfl, ?_⟩
  intro a ha
  cases ha

/-- A part without checks. -/
theorem ends_except {r : Except ε α} (h : ∀ a, r = .ok a → Q a) : Ends (liftM r : Steps ε α) Q := by
  cases r with
  | error e => exact ends_throw e
  | ok a => exact ends_pure (h a rfl)

theorem ends_except_bind {r : Except ε α} {g : α → Except ε β}
    (h : ∀ a, Ends (liftM (g a) : Steps ε β) R) :
    Ends (liftM (r >>= g) : Steps ε β) R := by
  cases r with
  | error e => exact ends_throw e
  | ok a => exact h a

/-- A check that passes. -/
theorem ends_check {o : Option α} {a : α} (h : o = some a) (hq : Q a) :
    Ends (liftM o : Steps ε α) Q := by
  subst h
  exact ends_pure hq

theorem ends_bind (hx : Ends x P) (hf : ∀ a, P a → Ends (f a) R) : Ends (x >>= f) R := by
  obtain ⟨r, rfl, hr⟩ := hx
  cases r with
  | error e => exact ends_throw e
  | ok a => exact hf a (hr a rfl)

theorem ends_ite {c : Prop} [Decidable c] {y : Steps ε α} (hx : c → Ends x Q)
    (hy : ¬ c → Ends y Q) :
    Ends (if c then x else y) Q := by
  by_cases h : c
  · rw [if_pos h]
    exact hx h
  · rw [if_neg h]
    exact hy h

end Steps

/-- Steps that write into a buffer, and may stop or end with an error. -/
abbrev InPlace (ε : Type) := ExceptT ε (StateT Bytes Option)

namespace InPlace

variable {ε α β : Type}

/-- A part that only reads the buffer. -/
def reads (f : Bytes → Steps ε α) : InPlace ε α := fun b => Option.map (fun r => (r, b)) (f b)

/-- A checked write. -/
def writes (f : Bytes → Option Bytes) : InPlace ε Unit := fun b => (f b).map fun b' => (.ok (), b')

theorem reads_eq {f : Bytes → Steps ε α} {b : Bytes} {r : Except ε α} (h : f b = some r) :
    reads f b = some (r, b) := by
  rw [reads, h]
  rfl

theorem writes_eq {f : Bytes → Option Bytes} {b b' : Bytes} (h : f b = some b') :
    (writes f : InPlace ε Unit) b = some (.ok (), b') := by
  rw [writes, h]
  rfl

theorem bind_ok {x : InPlace ε α} {b b' : Bytes} {a : α} (h : x b = some (.ok a, b'))
    (g : α → InPlace ε β) :
    (x >>= g : InPlace ε β) b = g a b' := by
  show (x b).bind _ = _
  rw [h]
  rfl

theorem bind_error {x : InPlace ε α} {b b' : Bytes} {e : ε} (h : x b = some (.error e, b'))
    (g : α → InPlace ε β) :
    (x >>= g : InPlace ε β) b = some (.error e, b') := by
  show (x b).bind _ = _
  rw [h]
  rfl

/-- What is left of the buffer `b` behind a step that gives a new one. -/
def leave (b : Bytes) : Except ε (α × Bytes) → Except ε α × Bytes
  | .ok (a, b') => (.ok a, b')
  | .error e => (.error e, b)

/-- Behind a part that only reads, the rest is to be shown for what it gives only. -/
theorem refines_reads {f : Bytes → Steps ε α} {g : α → InPlace ε β} {b : Bytes} {r : Except ε α}
    {q : α → Except ε (β × Bytes)} (hf : f b = some r)
    (hg : ∀ a, r = .ok a → g a b = some (leave b (q a))) :
    (reads f >>= g : InPlace ε β) b = some (leave b (r >>= q)) := by
  cases r with
  | error e => exact bind_error (reads_eq hf) g
  | ok a => exact (bind_ok (reads_eq hf) g).trans (hg a rfl)

end InPlace

end CdjEmu
