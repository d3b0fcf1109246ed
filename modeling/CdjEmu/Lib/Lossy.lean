/-
  LOSSY DECODING BY THE TABLE — what `lossy` gives, without the machine that computes it.

  1. **The table** — `rows` has one row for each kind of character: a range of octets for each of
     its places.  A `Character` is a byte string that fits a row, and a string `Begins` one if a
     character starts with it.

  2. **Specification** — `Decoded b t` takes `b` apart from the front: a character is kept, and an
     ill-formed `Part` is replaced by U+FFFD.  Such a part is as long as it can be: the beginning of
     a character that the next octet does not go on with, or one octet that begins none.  Nothing in
     it mentions a state.

  3. **The crux** — the octets that a state of the machine still takes are the rest of a row
     (`State.ranges`), and the row is known from the first octet (`row_unique`).  So what is
     `Pending` fits the front of one row, and the machine refuses an octet just where no character
     goes on with it.

  4. **Bridge** — `decoded_lossy` follows the decoder along the string, and `Decoded.unique` says
     that a string has one decoding, so `decoded_iff`: the decoding of `b` is `lossy b`.
-/
import CdjEmu.Lib.Text

namespace CdjEmu.Text

/-! ## The table -/

/-- The octets that a character may have, place by place. -/
abbrev Row := List (UInt8 × UInt8)

/-- The continuation octets. -/
def tail : UInt8 × UInt8 := (0x80, 0xBF)

/-- The well-formed octet sequences of one character. -/
def rows : List Row :=
  [[(0x00, 0x7F)], [(0xC2, 0xDF), tail],
    -- three octets: no second way to write a shorter character, and no surrogates
    [(0xE0, 0xE0), (0xA0, 0xBF), tail], [(0xE1, 0xEC), tail, tail],
      [(0xED, 0xED), (0x80, 0x9F), tail],
    [(0xEE, 0xEF), tail, tail],
    -- four octets: up to U+10FFFF
    [(0xF0, 0xF0), (0x90, 0xBF), tail, tail], [(0xF1, 0xF3), tail, tail, tail],
      [(0xF4, 0xF4), (0x80, 0x8F), tail, tail]]

def InRange (r : UInt8 × UInt8) (b : UInt8) : Prop := r.1 ≤ b ∧ b ≤ r.2

instance (r : UInt8 × UInt8) (b : UInt8) : Decidable (InRange r b) :=
  inferInstanceAs (Decidable (_ ∧ _))

/-- Octet by octet. -/
def Row.Fits (row : Row) (c : Bytes) : Prop := List.Forall₂ InRange row c

/-- One character, encoded. -/
def Character (c : Bytes) : Prop := ∃ row ∈ rows, row.Fits c

/-- Some character starts with `p`. -/
def Begins (p : Bytes) : Prop := ∃ c, Character c ∧ p <+: c

/-- `Part p b` — in front of `b`, `p` is an ill-formed part that goes no further: the beginning of a
    character that is not all of it, or an octet that begins none. -/
structure Part (p b : Bytes) : Prop where
  begun : p ≠ []
  bad : Begins p ∧ ¬ Character p ∨ p.length = 1 ∧ ¬ Begins p
  longest : ∀ x, b.head? = some x → ¬ Begins (p ++ [x])

/-- `Decoded b t` — `t` is `b` with each ill-formed part replaced. -/
inductive Decoded : Bytes → Bytes → Prop where
  | nil : Decoded [] []
  | char {c b t : Bytes} : Character c → Decoded b t → Decoded (c ++ b) (c ++ t)
  | part {p b t : Bytes} : Part p b → Decoded b t → Decoded (p ++ b) (replacement ++ t)

/-! ## The machine and the table -/

/-- What the machine still takes of the character. -/
def State.ranges : State → Row
  | .start => []
  | .mid lo hi more => (lo, hi) :: List.replicate more tail

theorem State.ranges_eq_nil {q : State} : q.ranges = [] ↔ q = .start := by
  cases q with
  | start => exact ⟨fun _ => rfl, fun _ => rfl⟩
  | mid lo hi more => exact ⟨nofun, nofun⟩

/-- The rows whose first place takes `b`. -/
def rowsOf (b : UInt8) : List Row := rows.filter fun row => row.head?.any fun r =>
  decide (InRange r b)

/-- **The first octet decides**: it is in one row at most, and the machine goes on
    with the rest of that row. -/
theorem rowsOf_first (b : UInt8) :
    (rowsOf b).map List.tail = (first b).toList.map State.ranges := by
  have hall : ∀ n < 256, (rowsOf (UInt8.ofNat n)).map List.tail =
      (first (UInt8.ofNat n)).toList.map State.ranges := by
    decide +kernel
  have hb := hall b.toNat b.toNat_lt
  rwa [UInt8.ofNat_toNat] at hb

theorem mem_rowsOf {row : Row} {r : UInt8 × UInt8} {b : UInt8} :
    r :: row ∈ rowsOf b ↔ r :: row ∈ rows ∧ InRange r b := by
  rw [rowsOf, List.mem_filter]
  simp

theorem row_ne_nil {row : Row} (h : row ∈ rows) : row ≠ [] := by
  have hall : ∀ row ∈ rows, row ≠ [] := by decide
  exact hall row h

theorem row_unique {r r' : UInt8 × UInt8} {row row' : Row} {b : UInt8} (h : r :: row ∈ rows)
    (hr : InRange r b) (h' : r' :: row' ∈ rows) (hr' : InRange r' b) : r :: row = r' :: row' := by
  have hlen : (rowsOf b).length ≤ 1 := by
    rw [← List.length_map (f := List.tail), rowsOf_first]
    cases first b with
    | none => exact Nat.zero_le 1
    | some q => exact Nat.le_refl 1
  obtain ⟨i, hi, hrow⟩ := List.getElem_of_mem (mem_rowsOf.mpr ⟨h, hr⟩)
  obtain ⟨j, hj, hrow'⟩ := List.getElem_of_mem (mem_rowsOf.mpr ⟨h', hr'⟩)
  obtain rfl : i = 0 := by omega
  obtain rfl : j = 0 := by omega
  exact hrow.symm.trans hrow'

/-- A first octet, and the row that it begins. -/
theorem first_some {b : UInt8} {q : State} (h : first b = some q) :
    ∃ r, r :: q.ranges ∈ rows ∧ InRange r b := by
  have hrows := rowsOf_first b
  rw [h] at hrows
  obtain ⟨row, hrow, htail⟩ := List.map_eq_singleton_iff.mp hrows
  have hmem : row ∈ rowsOf b := hrow ▸ List.mem_singleton_self row
  cases row with
  | nil => exact absurd rfl (row_ne_nil (List.mem_filter.mp hmem).1)
  | cons r row =>
    obtain rfl : row = q.ranges := htail
    exact ⟨r, mem_rowsOf.mp hmem⟩

theorem first_none {b : UInt8} (h : first b = none) {r : UInt8 × UInt8} {row : Row}
    (hrow : r :: row ∈ rows) :
    ¬ InRange r b := by
  intro hr
  have hrows := rowsOf_first b
  rw [h] at hrows
  have hnil : rowsOf b = [] := List.map_eq_nil_iff.mp hrows
  have hmem := mem_rowsOf.mpr ⟨hrow, hr⟩
  rw [hnil] at hmem
  cases hmem

/-- Inside a character the machine takes what the next place allows. -/
theorem step_mid {q : State} (hq : q ≠ .start) (b : UInt8) :
    ∃ r rest, q.ranges = r :: rest ∧
      ((InRange r b ∧ ∃ q', step q b = some q' ∧ q'.ranges = rest) ∨ ¬ InRange r b ∧
        step q b = none) := by
  match q with
  | .start => exact absurd rfl hq
  | .mid lo hi 0 =>
    refine ⟨(lo, hi), [], rfl, ?_⟩
    by_cases hr : InRange (lo, hi) b
    · exact .inl ⟨hr, .start, if_pos hr, rfl⟩
    · exact .inr ⟨hr, if_neg hr⟩
  | .mid lo hi (more + 1) =>
    refine ⟨(lo, hi), List.replicate (more + 1) tail, rfl, ?_⟩
    by_cases hr : InRange (lo, hi) b
    · exact .inl ⟨hr, .mid 0x80 0xBF more, if_pos hr, rfl⟩
    · exact .inr ⟨hr, if_neg hr⟩

/-! ## Inside a character -/

/-- `Pending q p` — the machine has `p` of a character and is in `q`: what it has and
    what it takes are one row. -/
structure Pending (q : State) (p : Bytes) : Prop where
  inside : q ≠ .start
  begun : p ≠ []
  row : ∃ front : Row, front ++ q.ranges ∈ rows ∧ front.Fits p

/-- Rows of characters with a common first octet are one row. -/
theorem Row.Fits.same {row row' : Row} {x : UInt8} {a a' : Bytes} (hrow : row ∈ rows)
    (h : row.Fits (x :: a)) (hrow' : row' ∈ rows) (h' : row'.Fits (x :: a')) : row = row' := by
  cases h with
  | cons hx _ =>
    cases h' with
    | cons hx' _ => exact row_unique hrow hx hrow' hx'

theorem Row.Fits.length {row : Row} {c : Bytes} (h : row.Fits c) : row.length = c.length :=
  List.Forall₂.length_eq h

/-- A row whose front fits can be filled up. -/
theorem Row.Fits.extend {front rest : Row} {p : Bytes} (hrest : ∀ r ∈ rest, r.1 ≤ r.2)
    (h : front.Fits p) :
    (front ++ rest).Fits (p ++ rest.map Prod.fst) := by
  refine List.rel_append h ?_
  induction rest with
  | nil => exact .nil
  | cons r rest ih =>
    have hr := hrest r List.mem_cons_self
    exact .cons ⟨UInt8.le_refl _, hr⟩ (ih fun r' hr' => hrest r' (List.mem_cons_of_mem _ hr'))

theorem rows_sound {row : Row} (h : row ∈ rows) : ∀ r ∈ row, r.1 ≤ r.2 := by
  have hall : rows.all (fun row => row.all fun r => decide (r.1 ≤ r.2)) = true := by decide
  simpa using List.all_eq_true.mp hall row h

variable {q : State} {p : Bytes}

/-- Every beginning of a character that has `p` in front fits the row of `p`. -/
theorem Pending.row_of_character (h : Pending q p) {front : Row} (hrow : front ++ q.ranges ∈ rows)
    (hfits : front.Fits p) {row : Row} (hmem : row ∈ rows) {a : Bytes} (ha : row.Fits (p ++ a)) :
    row = front ++ q.ranges := by
  match p, hp : h.begun with
  | x :: p, _ =>
    exact Row.Fits.same hmem ha hrow
      (hfits.extend fun r hr => rows_sound hrow r (List.mem_append_right _ hr))

theorem Pending.begins (h : Pending q p) : Begins p := by
  obtain ⟨front, hrow, hfits⟩ := h.row
  refine ⟨_, ⟨_, hrow, hfits.extend fun r hr => ?_⟩, List.prefix_append _ _⟩
  exact rows_sound hrow r (List.mem_append_right _ hr)

theorem Pending.not_character (h : Pending q p) : ¬ Character p := by
  rintro ⟨row, hmem, hp⟩
  obtain ⟨front, hrow, hfits⟩ := h.row
  have hsame := h.row_of_character hrow hfits hmem (a := []) (by rw [List.append_nil]; exact hp)
  have hlen := hp.length
  rw [hsame, List.length_append, hfits.length] at hlen
  exact h.inside (State.ranges_eq_nil.mp (List.eq_nil_of_length_eq_zero (by omega)))

/-- An octet that the machine takes is pending too, or it ends the character. -/
theorem Pending.step (h : Pending q p) {b : UInt8} {q' : State} (hs : step q b = some q') :
    if q' = .start then Character (p ++ [b]) else Pending q' (p ++ [b]) := by
  obtain ⟨front, hrow, hfits⟩ := h.row
  obtain ⟨r, rest, hranges, ⟨hr, q'', hs', hrest⟩ | ⟨-, hnone⟩⟩ := step_mid h.inside b
  · obtain rfl := Option.some.inj (hs.symm.trans hs')
    have hfits' : (front ++ [r] : Row).Fits (p ++ [b]) := List.rel_append hfits (.cons hr .nil)
    have hrow' : (front ++ [r]) ++ q'.ranges ∈ rows := by
      rw [hranges] at hrow
      rw [List.append_assoc, hrest]
      exact hrow
    split
    · rename_i hstart
      rw [hstart] at hrow'
      exact ⟨front ++ [r], by simpa [State.ranges] using hrow', hfits'⟩
    · rename_i hinside
      exact ⟨hinside, List.append_ne_nil_of_right_ne_nil _ (List.cons_ne_nil _ _), front ++ [r],
        hrow', hfits'⟩
  · cases hs.symm.trans hnone

/-- No character goes on with an octet that the machine refuses. -/
theorem Pending.refused (h : Pending q p) {b : UInt8} (hs : Text.step q b = none) :
    ¬ Begins (p ++ [b]) := by
  rintro ⟨c, ⟨row, hmem, hc⟩, a, rfl⟩
  obtain ⟨front, hrow, hfits⟩ := h.row
  rw [List.append_assoc] at hc
  obtain rfl := h.row_of_character hrow hfits hmem hc
  obtain ⟨r, rest, hranges, ⟨-, q', hs', -⟩ | ⟨hr, -⟩⟩ := step_mid h.inside b
  · cases hs.symm.trans hs'
  · -- the octet stands where the row has `r`
    rw [hranges] at hc
    have hdrop := List.forall₂_drop p.length hc
    rw [← hfits.length, List.drop_left, hfits.length, List.drop_left] at hdrop
    cases hdrop with
    | cons hb _ => exact hr hb

theorem pending_first {b : UInt8} {lo hi : UInt8} {more : Nat}
    (h : first b = some (.mid lo hi more)) :
    Pending (.mid lo hi more) [b] := by
  obtain ⟨r, hrow, hr⟩ := first_some h
  exact ⟨nofun, List.cons_ne_nil _ _, [r], hrow, .cons hr .nil⟩

theorem character_first {b : UInt8} (h : first b = some .start) : Character [b] := by
  obtain ⟨r, hrow, hr⟩ := first_some h
  exact ⟨[r], hrow, .cons hr .nil⟩

theorem not_begins_first {b : UInt8} (h : first b = none) (a : Bytes) : ¬ Begins (b :: a) := by
  rintro ⟨c, ⟨row, hmem, hc⟩, a, rfl⟩
  cases hc with
  | cons hb _ => exact first_none h hmem hb

/-! ## The decoder -/

/-- At an octet that it refuses, the decoder replaces what is pending and begins anew. -/
theorem lossyFrom_refused {b : UInt8} (hq : q ≠ .start) (h : step q b = none) (bs : Bytes) :
    lossyFrom q p (b :: bs) = replacement ++ lossyFrom .start [] (b :: bs) := by
  rw [lossyFrom, h, lossyFrom]
  dsimp only
  rw [if_neg hq, if_pos rfl]
  have hfirst : step .start b = first b := rfl
  rw [hfirst]
  cases first b with
  | none => rfl
  | some q' => cases q' <;> rfl

/-- **What the decoder gives is a decoding**, of what is pending and what comes. -/
theorem decoded_lossyFrom (b : Bytes) :
    Decoded b (lossyFrom .start [] b) ∧ ∀ {q : State} {p : Bytes}, Pending q p →
    Decoded (p ++ b) (lossyFrom q p b) := by
  induction b with
  | nil =>
    refine ⟨.nil, fun {q p} h => ?_⟩
    have hpart : Part p [] := ⟨h.begun, .inl ⟨h.begins, h.not_character⟩, fun _ hx => by cases hx⟩
    cases q with
    | start => exact absurd rfl h.inside
    | mid lo hi more => exact .part hpart .nil
  | cons b bs ih =>
    have hstart : Decoded (b :: bs) (lossyFrom .start [] (b :: bs)) := by
      have hfirst : step .start b = first b := rfl
      rw [lossyFrom, hfirst]
      rcases hf : first b with _ | _ | ⟨lo, hi, more⟩
      · -- no character begins so: the octet is an ill-formed part of its own
        have hpart : Part [b] bs :=
          ⟨List.cons_ne_nil _ _, .inr ⟨rfl, not_begins_first hf []⟩, fun x _ =>
            not_begins_first hf [x]⟩
        exact .part hpart ih.1
      · exact .char (character_first hf) ih.1
      · exact ih.2 (pending_first hf)
    refine ⟨hstart, fun {q p} h => ?_⟩
    cases hs : step q b with
    | some q' =>
      have hnext := h.step hs
      rw [lossyFrom, hs]
      rw [show p ++ b :: bs = (p ++ [b]) ++ bs by rw [List.append_assoc]; rfl]
      cases q' with
      | start =>
        rw [if_pos rfl] at hnext
        dsimp only
        rw [show p ++ b :: lossyFrom .start [] bs = (p ++ [b]) ++ lossyFrom .start
          [] bs by rw [List.append_assoc]; rfl]
        exact .char hnext ih.1
      | mid lo hi more =>
        rw [if_neg (fun h => by cases h)] at hnext
        exact ih.2 hnext
    | none =>
      have hpart : Part p (b :: bs) := by
        refine ⟨h.begun, .inl ⟨h.begins, h.not_character⟩, fun x hx => ?_⟩
        obtain rfl := Option.some.inj hx
        exact h.refused hs
      rw [lossyFrom_refused h.inside hs]
      exact .part hpart hstart

theorem decoded_lossy (b : Bytes) : Decoded b (lossy b) := (decoded_lossyFrom b).1

/-! ## One decoding -/

theorem Character.ne_nil {c : Bytes} (h : Character c) : c ≠ [] := by
  rintro rfl
  obtain ⟨row, hmem, hfits⟩ := h
  exact row_ne_nil hmem (List.eq_nil_of_length_eq_zero hfits.length)

/-- No character is the beginning of another one. -/
theorem Character.eq_of_prefix {c d : Bytes} (hc : Character c) (hd : Character d) (h : c <+: d) :
    c = d := by
  obtain ⟨a, rfl⟩ := h
  match c, hc.ne_nil with
  | x :: c, _ =>
    obtain ⟨row, hmem, hfits⟩ := hc
    obtain ⟨row', hmem', hfits'⟩ := hd
    obtain rfl := Row.Fits.same hmem hfits hmem' hfits'
    have hlen := hfits.length.symm.trans hfits'.length
    rw [List.length_append] at hlen
    rw [List.eq_nil_of_length_eq_zero (by omega : a.length = 0), List.append_nil]

theorem Begins.of_prefix {p p' : Bytes} (h : Begins p') (hp : p <+: p') : Begins p := by
  obtain ⟨c, hc, hpre⟩ := h
  exact ⟨c, hc, hp.trans hpre⟩

theorem Character.begins {c : Bytes} (h : Character c) : Begins c := ⟨c, h, List.prefix_rfl⟩

/-- A part ends where nothing that begins a character goes on. -/
theorem Part.eq_of_prefix {p b d e : Bytes} (hp : Part p b) (hd : Begins d) (heq : p ++ b = d ++ e)
    (h : p <+: d) : p = d := by
  obtain ⟨a, rfl⟩ := h
  cases a with
  | nil => rw [List.append_nil]
  | cons x a =>
    rw [List.append_assoc] at heq
    have hb := List.append_cancel_left heq
    refine absurd (hd.of_prefix ⟨a, ?_⟩) (hp.longest x (by rw [hb]; rfl))
    rw [List.append_assoc]
    rfl

/-- No string begins with a character and with an ill-formed part. -/
theorem Part.not_character {p b c e : Bytes} (hp : Part p b) (hc : Character c)
    (heq : p ++ b = c ++ e) : False := by
  have hnot : p ≠ c := by
    rintro rfl
    rcases hp.bad with ⟨-, hbad⟩ | ⟨-, hbad⟩
    · exact hbad hc
    · exact hbad hc.begins
  rcases List.prefix_or_prefix_of_prefix (⟨b, heq⟩ : p <+: c ++ e)
      (List.prefix_append c e) with h | h
  · exact hnot (hp.eq_of_prefix hc.begins heq h)
  · -- the part would go on behind a whole character
    rcases hp.bad with ⟨⟨d, hd, hpd⟩, -⟩ | ⟨hone, hbad⟩
    · obtain rfl := hc.eq_of_prefix hd (h.trans hpd)
      exact hnot (hpd.eq_of_length_le h.length_le)
    · have hlen := List.length_pos_iff.mpr hc.ne_nil
      exact hnot (h.eq_of_length_le (by omega)).symm

theorem Part.eq_of_front {p b p' b' : Bytes} (hp : Part p b) (hp' : Part p' b')
    (heq : p ++ b = p' ++ b') (h : p <+: p') :
    p = p' := by
  rcases hp'.bad with ⟨hbegins, -⟩ | ⟨hone, -⟩
  · exact hp.eq_of_prefix hbegins heq h
  · have hlen := List.length_pos_iff.mpr hp.begun
    exact h.eq_of_length_le (by omega)

theorem Part.eq {p b p' b' : Bytes} (hp : Part p b) (hp' : Part p' b') (heq : p ++ b = p' ++ b') :
    p = p' := by
  rcases List.prefix_or_prefix_of_prefix (⟨b, heq⟩ : p <+: p' ++ b')
      (List.prefix_append p' b') with h | h
  · exact hp.eq_of_front hp' heq h
  · exact (hp'.eq_of_front hp heq.symm h).symm

/-- How a decoding begins. -/
theorem Decoded.cases_front {s t : Bytes} (h : Decoded s t) :
    s = [] ∧ t = [] ∨ (∃ c b u, s = c ++ b ∧ t = c ++ u ∧ Character c ∧ Decoded b u) ∨
      ∃ p b u, s = p ++ b ∧ t = replacement ++ u ∧ Part p b ∧ Decoded b u := by
  cases h with
  | nil => exact .inl ⟨rfl, rfl⟩
  | char hc h => exact .inr (.inl ⟨_, _, _, rfl, rfl, hc, h⟩)
  | part hp h => exact .inr (.inr ⟨_, _, _, rfl, rfl, hp, h⟩)

/-- **A string has one decoding.** -/
theorem Decoded.unique {s t t' : Bytes} (h : Decoded s t) (h' : Decoded s t') : t = t' := by
  induction h generalizing t' with
  | nil =>
    obtain ⟨-, rfl⟩ | ⟨c, b, u, hs, -, hc, -⟩ | ⟨p, b, u, hs, -, hp, -⟩ := h'.cases_front
    · rfl
    · exact absurd (List.append_eq_nil_iff.mp hs.symm).1 hc.ne_nil
    · exact absurd (List.append_eq_nil_iff.mp hs.symm).1 hp.begun
  | @char c b t hc _ ih =>
    obtain ⟨hs, -⟩ | ⟨c', b', u, hs, rfl, hc', hu⟩ | ⟨p, b', u, hs, -, hp, -⟩ := h'.cases_front
    · exact absurd (List.append_eq_nil_iff.mp hs).1 hc.ne_nil
    · have hsame : c = c' := by
        rcases List.prefix_or_prefix_of_prefix (⟨b, hs⟩ : c <+: c' ++ b')
            (List.prefix_append c' b') with hp | hp
        · exact hc.eq_of_prefix hc' hp
        · exact (hc'.eq_of_prefix hc hp).symm
      subst hsame
      rw [ih (List.append_cancel_left hs ▸ hu)]
    · exact (hp.not_character hc hs.symm).elim
  | @part p b t hp _ ih =>
    obtain ⟨hs, -⟩ | ⟨c, b', u, hs, -, hc, -⟩ | ⟨p', b', u, hs, rfl, hp', hu⟩ := h'.cases_front
    · exact absurd (List.append_eq_nil_iff.mp hs).1 hp.begun
    · exact (hp.not_character hc hs).elim
    · obtain rfl := hp.eq hp' hs
      rw [ih (List.append_cancel_left hs ▸ hu)]

/-- **`lossy` is the decoding**: it keeps every character and replaces every ill-formed part. -/
theorem decoded_iff {b t : Bytes} : Decoded b t ↔ t = lossy b := by
  constructor
  · exact fun h => h.unique (decoded_lossy b)
  · rintro rfl
    exact decoded_lossy b

end CdjEmu.Text
