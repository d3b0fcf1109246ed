/-
  TEXT AS BYTES — UTF-8 validity, lossy decoding, trimming and hexadecimal numbers, octet by octet.

  A byte string is a `List UInt8`; a text is a byte string that is valid UTF-8.  Everything here
  works on the octets and never builds characters, so a text can be compared with what a file
  holds, and the definitions compute.

  * `run` is the UTF-8 machine: its state says which octets the current character may still take.
    `Valid b` — the machine, started between characters, ends between characters.
  * `lossy b` replaces every MAXIMAL ill-formed part of `b` by U+FFFD, the way a decoder that never
    fails does: an octet that a started character cannot take ends that character and is looked at
    again as the first octet of the next one.  `lossy_of_valid` — a valid text is left alone;
    `valid_lossy` — what comes out is always valid.
  * `hexN n v` is `v` as `n` uppercase hexadecimal digits; `fromHex` reads a number back, accepting
    a leading `+` and both cases.  `fromHex_hexN` is the round trip.
-/
import CdjEmu.Lib.Except

namespace CdjEmu

/-- A byte string. -/
abbrev Bytes := List UInt8

instance : LawfulBEq Bytes := inferInstance

/-- The octets of a text literal. -/
def bytes (s : String) : Bytes := s.toUTF8.data.toList

namespace Text

/-- The octet that ends a line. -/
def newline : UInt8 := 10

/-! ## The UTF-8 machine -/

/-- Between characters, or inside one: the next octet lies in `lo..hi`, and `more` continuation
    octets follow it. -/
inductive State where
  | start
  | mid (lo hi : UInt8) (more : Nat)
  deriving DecidableEq

/-- The state after the first octet of a character. -/
def first (b : UInt8) : Option State :=
  if b < 0x80 then some .start
  else if 0xC2 ≤ b ∧ b ≤ 0xDF then some (.mid 0x80 0xBF 0)
  else if b = 0xE0 then some (.mid 0xA0 0xBF 1)
  else if b = 0xED then some (.mid 0x80 0x9F 1)
  else if 0xE1 ≤ b ∧ b ≤ 0xEF then some (.mid 0x80 0xBF 1)
  else if b = 0xF0 then some (.mid 0x90 0xBF 2)
  else if 0xF1 ≤ b ∧ b ≤ 0xF3 then some (.mid 0x80 0xBF 2)
  else if b = 0xF4 then some (.mid 0x80 0x8F 2)
  else none

/-- The state after one octet, `none` where no character holds it. -/
def step : State → UInt8 → Option State
  | .start, b => first b
  | .mid lo hi 0, b => if lo ≤ b ∧ b ≤ hi then some .start else none
  | .mid lo hi (n + 1), b => if lo ≤ b ∧ b ≤ hi then some (.mid 0x80 0xBF n) else none

/-- The state after every octet of `bs`. -/
def run : State → Bytes → Option State
  | q, [] => some q
  | q, b :: bs => (step q b).bind fun q' => run q' bs

/-- `b` is valid UTF-8. -/
def Valid (b : Bytes) : Prop := run .start b = some .start

instance (b : Bytes) : Decidable (Valid b) := inferInstanceAs (Decidable (_ = _))

/-- Reading octets behind octets. -/
theorem run_append (q : State) (a b : Bytes) :
    run q (a ++ b) = (run q a).bind fun q' => run q' b := by
  induction a generalizing q with
  | nil => rfl
  | cons x a ih =>
    simp only [List.cons_append, run]
    cases step q x with
    | none => rfl
    | some q' => exact ih q'

/-- The empty text is UTF-8. -/
theorem valid_nil : Valid [] := rfl

/-- Two UTF-8 texts put together are one. -/
theorem Valid.append {a b : Bytes} (ha : Valid a) (hb : Valid b) : Valid (a ++ b) := by
  show run .start (a ++ b) = some .start
  rw [run_append, show run .start a = some .start from ha]
  exact hb

/-- An ASCII octet is a character of its own. -/
theorem valid_cons_ascii {c : UInt8} (hc : c < 0x80) (b : Bytes) : Valid (c :: b) ↔ Valid b := by
  simp [Valid, run, step, first, hc]

/-- So is a text behind an ASCII octet. -/
theorem Valid.cons_ascii {c : UInt8} (hc : c < 0x80) {b : Bytes} (hb : Valid b) : Valid (c :: b) :=
  (valid_cons_ascii hc b).mpr hb

/-- ASCII is UTF-8. -/
theorem valid_of_ascii {b : Bytes} (h : ∀ c ∈ b, c < 0x80) : Valid b := by
  induction b with
  | nil => exact valid_nil
  | cons c b ih =>
    exact (ih fun d hd => h d (List.mem_cons_of_mem _ hd)).cons_ascii (h c List.mem_cons_self)

/-- Dropping leading ASCII octets keeps a text valid. -/
theorem Valid.dropWhile {p : UInt8 → Bool} (hp : ∀ c, p c = true → c < 0x80) {b : Bytes}
    (hb : Valid b) : Valid (b.dropWhile p) := by
  induction b with
  | nil => exact hb
  | cons c b ih =>
    rw [List.dropWhile_cons]
    split
    · rename_i hc
      exact ih ((valid_cons_ascii (hp c hc) b).mp hb)
    · exact hb

/-- Inside a character the next octet is not ASCII. -/
def State.High : State → Prop
  | .start => True
  | .mid lo .. => 0x80 ≤ lo

instance : DecidablePred State.High
  | .start => .isTrue trivial
  | .mid lo .. => inferInstanceAs (Decidable (0x80 ≤ lo))

/-- Every state but the first is within a character. -/
theorem high_of_step {q q' : State} {x : UInt8} (h : step q x = some q') : q'.High := by
  unfold step first at h
  split at h
  · split_ifs at h <;> cases h <;> decide
  · split_ifs at h
    cases h
    trivial
  · split_ifs at h
    cases h
    exact (by decide : (0x80 : UInt8) ≤ 0x80)

theorem high_of_run {q q' : State} {b : Bytes} (hq : q.High) (h : run q b = some q') : q'.High := by
  induction b generalizing q with
  | nil =>
    cases h
    exact hq
  | cons x b ih =>
    obtain ⟨q₁, hq₁, hb⟩ := Option.bind_eq_some_iff.mp h
    exact ih (high_of_step hq₁) hb

/-- Only between characters is an ASCII octet taken. -/
theorem step_ascii {q : State} {c : UInt8} (hq : q.High) (hc : c < 0x80) :
    step q c = if q = .start then some .start else none := by
  cases q with
  | start => simp [step, first, hc]
  | mid lo hi n =>
    have hgap : ¬ lo ≤ c := fun hle => absurd (UInt8.le_trans hq hle) (UInt8.not_le.mpr hc)
    cases n <;> simp [step, hgap]

/-- An ASCII octet cuts a valid text into two. -/
theorem Valid.cut {a b : Bytes} {c : UInt8} (hc : c < 0x80) (h : Valid (a ++ c :: b)) :
    Valid a ∧ Valid b := by
  rw [Valid, run_append] at h
  obtain ⟨q, hq, hlast⟩ := Option.bind_eq_some_iff.mp h
  rw [run, step_ascii (high_of_run (q := .start) trivial hq) hc] at hlast
  split_ifs at hlast with hstart
  · rw [hstart] at hq
    exact ⟨hq, hlast⟩
  · cases hlast

/-- Dropping a trailing ASCII octet keeps a text valid. -/
theorem Valid.of_append_ascii {b : Bytes} {c : UInt8} (hc : c < 0x80) (h : Valid (b ++ [c])) :
    Valid b := (h.cut hc).1

/-! ## Lossy decoding -/

/-- U+FFFD, the replacement character. -/
def replacement : Bytes := [0xEF, 0xBF, 0xBD]

/-- Decode from state `q`, with the octets `p` of the current character pending. -/
def lossyFrom : State → Bytes → Bytes → Bytes
  | .start, _, [] => []
  | .mid .., _, [] => replacement
  | q, p, b :: bs =>
    match step q b with
    | some .start => p ++ b :: lossyFrom .start [] bs
    | some q' => lossyFrom q' (p ++ [b]) bs
    | none =>
      -- a first octet that starts no character is an ill-formed part of its own
      if q = .start then replacement ++ lossyFrom .start [] bs
      else match first b with
        | some .start => replacement ++ b :: lossyFrom .start [] bs
        | some q' => replacement ++ lossyFrom q' [b] bs
        | none => replacement ++ (replacement ++ lossyFrom .start [] bs)

/-- `b` with every maximal ill-formed part replaced by U+FFFD. -/
def lossy (b : Bytes) : Bytes := lossyFrom .start [] b

/-- An ASCII octet ends whatever is pending. -/
theorem lossyFrom_append_ascii {q : State} {p : Bytes} {c : UInt8} (hq : q.High)
    (hp : q = .start → p = []) (hc : c < 0x80) (b rest : Bytes) :
    lossyFrom q p (b ++ c :: rest) = lossyFrom q p b ++ c :: lossyFrom .start [] rest := by
  induction b generalizing q p with
  | nil =>
    have hstep := step_ascii hq hc
    have hfirst : first c = some .start := by simp [first, hc]
    cases q with
    | start =>
      rw [if_pos rfl] at hstep
      simp [lossyFrom, hstep, hp rfl]
    | mid lo hi n =>
      rw [if_neg (by simp)] at hstep
      simp [lossyFrom, hstep, hfirst]
  | cons x b ih =>
    rw [List.cons_append, lossyFrom, lossyFrom]
    have hnil := ih (q := .start) (p := []) trivial (fun _ => rfl)
    cases hs : step q x with
    | some q' =>
      cases q' with
      | start => simp [hnil]
      | mid lo hi n => exact ih (high_of_step hs) (fun h => by cases h)
    | none =>
      dsimp only
      split_ifs with hstart
      · rw [hnil, List.append_assoc]
      · cases hf : first x with
        | some q' =>
          cases q' with
          | start => simp [hnil]
          | mid lo hi n =>
            dsimp only
            rw [ih (high_of_step (q := .start) hf) (fun h => by cases h), List.append_assoc]
        | none => simp [hnil]

/-- Nothing is replaced across an ASCII octet. -/
theorem lossy_append_ascii {c : UInt8} (hc : c < 0x80) (b rest : Bytes) :
    lossy (b ++ c :: rest) = lossy b ++ c :: lossy rest :=
  lossyFrom_append_ascii (q := .start) trivial (fun _ => rfl) hc b rest

/-- UTF-8 is shown as it is. -/
theorem lossyFrom_of_run {q : State} {p b : Bytes} (hp : q = .start → p = [])
    (h : run q b = some .start) : lossyFrom q p b = p ++ b := by
  induction b generalizing q p with
  | nil =>
    cases h
    rw [hp rfl]
    rfl
  | cons x b ih =>
    obtain ⟨q', hq', hb⟩ := Option.bind_eq_some_iff.mp h
    rw [lossyFrom, hq']
    cases q' with
    | start => rw [ih (fun _ => rfl) hb, List.nil_append]
    | mid lo hi n =>
      show lossyFrom (.mid lo hi n) (p ++ [x]) b = p ++ x :: b
      rw [ih (fun h => by cases h) hb, List.append_assoc, List.singleton_append]

/-- A valid text is decoded to itself. -/
theorem lossy_of_valid {b : Bytes} (h : Valid b) : lossy b = b :=
  lossyFrom_of_run (fun _ => rfl) h

theorem valid_replacement : Valid replacement := by decide

/-- Whatever is pending, the decoder completes it to a valid text. -/
theorem valid_lossyFrom {q : State} {p : Bytes} (hp : run .start p = some q) (b : Bytes) :
    (q = .start → p = []) → Valid (lossyFrom q p b) := by
  intro hq
  induction b generalizing q p with
  | nil =>
    cases q with
    | start => exact valid_nil
    | mid lo hi n => exact valid_replacement
  | cons x b ih =>
    have hnil : Valid (lossyFrom .start [] b) := ih rfl (fun _ => rfl)
    -- the pending octets followed by `x`, when the machine takes it
    have htake : ∀ q', step q x = some q' → run .start (p ++ [x]) = some q' := by
      intro q' h
      rw [run_append, hp]
      simp [run, h]
    rw [lossyFrom]
    split
    · rename_i h
      have := (show Valid (p ++ [x]) from htake _ h).append hnil
      rwa [List.append_assoc, List.singleton_append] at this
    · rename_i q' hne h
      exact ih (htake _ h) (fun h' => absurd h' hne)
    · split
      · exact valid_replacement.append hnil
      · split
        · rename_i h
          have := (show Valid [x] by simp [Valid, run, step, h]).append hnil
          exact valid_replacement.append this
        · rename_i q' hne h
          exact valid_replacement.append (ih (by simp [run, step, h]) (fun h' => absurd h' hne))
        · exact valid_replacement.append (valid_replacement.append hnil)

/-- Decoding always gives a valid text. -/
theorem valid_lossy (b : Bytes) : Valid (lossy b) := valid_lossyFrom rfl b (fun _ => rfl)

/-! ### How much decoding can add

A predicate on octets is counted before and after: decoding adds no ASCII octet, at most triples the
others, and adds at most one replacement when what it is given is the front of a valid text. -/

section Count

variable {P : UInt8 → Bool}

theorem countP_head (P : UInt8 → Bool) (x : UInt8) (b : Bytes) :
    (x :: b).countP P = [x].countP P + b.countP P := by
  rw [← List.countP_append]
  rfl

/-- An octet that starts no character of its own is not ASCII. -/
theorem not_ascii_of_first {b : UInt8} (h : first b ≠ some .start) : ¬ b < 0x80 :=
  fun hb => h (by rw [first, if_pos hb])

/-- The text that is shown has no more octets of a kind than the original, unless the replacement
    character has such an octet. -/
theorem countP_lossyFrom_ascii (hP : P 0xEF = false ∧ P 0xBF = false ∧ P 0xBD = false) (q : State)
    (p b : Bytes) : (lossyFrom q p b).countP P ≤ p.countP P + b.countP P := by
  have hrep : replacement.countP P = 0 := by simp [replacement, hP]
  induction b generalizing q p with
  | nil =>
    cases q with
    | start => exact Nat.zero_le _
    | mid lo hi n =>
      show replacement.countP P ≤ _
      omega
  | cons x b ih =>
    have hstart := ih .start []
    have hx := countP_head P x b
    rw [List.countP_nil] at hstart
    rw [lossyFrom]
    split
    · rw [List.countP_append, countP_head]
      omega
    · rename_i q' hne h
      have := ih q' (p ++ [x])
      rw [List.countP_append] at this
      omega
    · split
      · rw [List.countP_append]
        omega
      · split
        · rw [List.countP_append, countP_head]
          omega
        · rename_i q' hne h
          have := ih q' [x]
          rw [List.countP_append]
          omega
        · rw [List.countP_append, List.countP_append]
          omega

/-- Decoding adds no ASCII octet. -/
theorem countP_lossy_ascii (hP : P 0xEF = false ∧ P 0xBF = false ∧ P 0xBD = false) (b : Bytes) :
    (lossy b).countP P ≤ b.countP P := by
  have := countP_lossyFrom_ascii hP .start [] b
  rwa [List.countP_nil, Nat.zero_add] at this

theorem countP_replacement_le : replacement.countP P ≤ 3 := List.countP_le_length

/-- And at most three for one otherwise. -/
theorem countP_lossyFrom_le (hP : ∀ c, ¬ c < 0x80 → P c = true) (q : State) (p b : Bytes)
    (hp : q ≠ .start → 1 ≤ p.countP P) :
    (lossyFrom q p b).countP P ≤ 3 * (p.countP P + b.countP P) := by
  have hrep := countP_replacement_le (P := P)
  induction b generalizing q p with
  | nil =>
    cases q with
    | start => exact Nat.zero_le _
    | mid lo hi n =>
      have := hp (fun h => by cases h)
      show replacement.countP P ≤ _
      omega
  | cons x b ih =>
    have hstart := ih .start [] (fun h => absurd rfl h)
    have hx := countP_head P x b
    -- an octet that does not finish a character counts
    have hcount : ¬ x < 0x80 → [x].countP P = 1 := fun h => by simp [hP x h]
    rw [List.countP_nil] at hstart
    rw [lossyFrom]
    split
    · rw [List.countP_append, countP_head]
      omega
    · rename_i q' hne h
      have hmore : 1 ≤ (p ++ [x]).countP P := by
        rw [List.countP_append]
        by_cases hq : q = .start
        · subst hq
          have := hcount (not_ascii_of_first fun h' => hne (Option.some.inj (h.symm.trans h')))
          omega
        · have := hp hq
          omega
      have := ih q' (p ++ [x]) (fun _ => hmore)
      rw [List.countP_append] at this
      omega
    · rename_i hnone
      split
      · rename_i hq
        subst hq
        have := hcount (not_ascii_of_first fun h' => by rw [step, h'] at hnone; cases hnone)
        rw [List.countP_append]
        omega
      · rename_i hq
        have hpend := hp hq
        split
        · rw [List.countP_append, countP_head]
          omega
        · rename_i q' hne h
          have hone := hcount (not_ascii_of_first fun h' => hne (Option.some.inj (h.symm.trans h')))
          have := ih q' [x] (fun _ => by omega)
          rw [List.countP_append]
          omega
        · rename_i h
          have := hcount (not_ascii_of_first fun h' => by rw [h'] at h; cases h)
          rw [List.countP_append, List.countP_append]
          omega

/-- Decoding at most triples the octets that are not ASCII. -/
theorem countP_lossy_le (hP : ∀ c, ¬ c < 0x80 → P c = true) (b : Bytes) :
    (lossy b).countP P ≤ 3 * b.countP P := by
  have := countP_lossyFrom_le hP .start [] b (fun h => absurd rfl h)
  rwa [List.countP_nil, Nat.zero_add] at this

/-- In a text that breaks off nothing but its end is replaced. -/
theorem countP_lossyFrom_front {q q' : State} (p : Bytes) {b : Bytes} (h : run q b = some q') :
    (lossyFrom q p b).countP P ≤ p.countP P + b.countP P + 3 := by
  have hrep := countP_replacement_le (P := P)
  induction b generalizing q p with
  | nil =>
    cases q with
    | start => exact Nat.zero_le _
    | mid lo hi n =>
      show replacement.countP P ≤ _
      omega
  | cons x b ih =>
    obtain ⟨q₁, hq₁, hb⟩ := Option.bind_eq_some_iff.mp h
    have hx := countP_head P x b
    rw [lossyFrom, hq₁]
    cases q₁ with
    | start =>
      have := ih [] hb
      rw [List.countP_nil] at this
      rw [List.countP_append, countP_head]
      omega
    | mid lo hi n =>
      have := ih (p ++ [x]) hb
      rw [List.countP_append] at this
      show (lossyFrom (.mid lo hi n) (p ++ [x]) b).countP P ≤ _
      omega

/-- The front of a valid text is decoded with at most one replacement. -/
theorem countP_lossy_take {b : Bytes} (h : Valid b) (n : Nat) :
    (lossy (b.take n)).countP P ≤ (b.take n).countP P + 3 := by
  have hrun : run .start (b.take n ++ b.drop n) = some .start := by
    rw [List.take_append_drop]
    exact h
  rw [run_append] at hrun
  obtain ⟨q, hq, -⟩ := Option.bind_eq_some_iff.mp hrun
  have := countP_lossyFrom_front (P := P) [] hq
  rwa [List.countP_nil, Nat.zero_add] at this

end Count

example : lossy [0x61, 0xF0, 0x90, 0x28] = [0x61, 0xEF, 0xBF, 0xBD, 0x28] := by decide

/-- A text: a byte string that is valid UTF-8. -/
def Str : Type := { b : Bytes // Valid b }

instance : DecidableEq Str := inferInstanceAs (DecidableEq { b : Bytes // Valid b })

/-- The octets of a text. -/
def Str.bytes (s : Str) : Bytes := s.val

/-- A string of Rust is UTF-8. -/
theorem Str.valid (s : Str) : Valid s.bytes := s.2

/-- Lossy decoding as a text. -/
def Str.ofLossy (b : Bytes) : Str := ⟨lossy b, valid_lossy b⟩

/-- So it is shown as it is. -/
theorem Str.ofLossy_bytes (s : Str) : Str.ofLossy s.bytes = s := Subtype.ext (lossy_of_valid s.2)

/-! ## Trimming -/

/-- The characters with the Unicode `White_Space` property, encoded. -/
def whitespace : List Bytes :=
  [[0x09], [0x0A], [0x0B], [0x0C], [0x0D], [0x20], [0xC2, 0x85], [0xC2, 0xA0], [0xE1, 0x9A, 0x80],
    [0xE2, 0x80, 0x80], [0xE2, 0x80, 0x81], [0xE2, 0x80, 0x82], [0xE2, 0x80, 0x83],
    [0xE2, 0x80, 0x84], [0xE2, 0x80, 0x85], [0xE2, 0x80, 0x86], [0xE2, 0x80, 0x87],
    [0xE2, 0x80, 0x88], [0xE2, 0x80, 0x89], [0xE2, 0x80, 0x8A], [0xE2, 0x80, 0xA8],
    [0xE2, 0x80, 0xA9], [0xE2, 0x80, 0xAF], [0xE2, 0x81, 0x9F], [0xE3, 0x80, 0x80]]

/-- Drop members of `ws` from the front, at most `fuel` of them. -/
def stripFront (ws : List Bytes) : Nat → Bytes → Bytes
  | 0, s => s
  | fuel + 1, s =>
    match ws.find? (·.isPrefixOf s) with
    | some w => stripFront ws fuel (s.drop w.length)
    | none => s

/-- A text without its leading and trailing white space. -/
def trim (s : Bytes) : Bytes :=
  let front := stripFront whitespace s.length s
  (stripFront (whitespace.map List.reverse) front.length front.reverse).reverse

/-- Nothing is stripped in front of an octet that no prefix starts with. -/
theorem stripFront_of_head {ws : List Bytes} {c : UInt8} {s : Bytes}
    (h : ∀ w ∈ ws, ∃ d v, w = d :: v ∧ d ≠ c) (fuel : Nat) :
    stripFront ws fuel (c :: s) = c :: s := by
  cases fuel with
  | zero => rfl
  | succ n =>
    have hnone : ws.find? (·.isPrefixOf (c :: s)) = none := by
      rw [List.find?_eq_none]
      intro w hw
      obtain ⟨d, v, rfl, hd⟩ := h w hw
      simp [List.isPrefixOf, hd]
    rw [stripFront, hnone]

/-! ## Hexadecimal numbers -/

/-- The uppercase digit of `d < 16`. -/
def hexDigit (d : Nat) : UInt8 := if d < 10 then UInt8.ofNat (48 + d) else UInt8.ofNat (55 + d)

/-- `v` as `n` uppercase digits. -/
def hexN : Nat → Nat → Bytes
  | 0, _ => []
  | n + 1, v => hexN n (v / 16) ++ [hexDigit (v % 16)]

/-- The value of a digit, in either case. -/
def hexVal (c : UInt8) : Option Nat :=
  if 48 ≤ c ∧ c ≤ 57 then some (c.toNat - 48)
  else if 65 ≤ c ∧ c ≤ 70 then some (c.toNat - 55)
  else if 97 ≤ c ∧ c ≤ 102 then some (c.toNat - 87)
  else none

/-- Read digits onto `acc`. -/
def hexFold : Nat → Bytes → Option Nat
  | acc, [] => some acc
  | acc, c :: cs => (hexVal c).bind fun d => hexFold (acc * 16 + d) cs

/-- The digits after an optional `+`; a lone `+` has none and is left to fail as a digit. -/
def unsigned : Bytes → Bytes
  | 43 :: c :: cs => c :: cs
  | s => s

/-- A number below `2 ^ w` in base 16: digits of either case, after an optional `+`. -/
def fromHex (w : Nat) (s : Bytes) : Option Nat :=
  if s = [] then none else (hexFold 0 (unsigned s)).filter (· < 2 ^ w)

/-- `n` digits are written. -/
@[simp] theorem length_hexN (n v : Nat) : (hexN n v).length = n := by
  induction n generalizing v with
  | zero => rfl
  | succ n ih => simp [hexN, ih]

/-- A digit has the value it was written for. -/
theorem hexVal_hexDigit {d : Nat} (h : d < 16) : hexVal (hexDigit d) = some d := by
  revert d
  decide

theorem hexDigit_mem {c : UInt8} {n v : Nat} (h : c ∈ hexN n v) : ∃ d < 16, c = hexDigit d := by
  induction n generalizing v with
  | zero => cases h
  | succ n ih =>
    rcases List.mem_append.mp h with h | h
    · exact ih h
    · exact ⟨v % 16, by omega, List.mem_singleton.mp h⟩

/-- Digits behind digits are read on. -/
theorem hexFold_append (acc : Nat) (a b : Bytes) :
    hexFold acc (a ++ b) = (hexFold acc a).bind fun acc' => hexFold acc' b := by
  induction a generalizing acc with
  | nil => rfl
  | cons c a ih =>
    simp only [List.cons_append, hexFold]
    cases hexVal c with
    | none => rfl
    | some d => exact ih _

/-- What is written in hexadecimal is read. -/
theorem hexFold_hexN (acc n v : Nat) :
    hexFold acc (hexN n v) = some (acc * 16 ^ n + v % 16 ^ n) := by
  induction n generalizing v with
  | zero => simp [hexN, hexFold, Nat.mod_one]
  | succ n ih =>
    have hd := hexVal_hexDigit (show v % 16 < 16 by omega)
    rw [hexN, hexFold_append, ih, Option.bind_some]
    simp only [hexFold, hd, Option.bind_some]
    have hmod : v % 16 ^ (n + 1) = v / 16 % 16 ^ n * 16 + v % 16 := by
      rw [pow_succ', Nat.mod_mul]
      ring
    rw [hmod, pow_succ]
    congr 1
    ring

theorem hexN_ne_nil {n : Nat} (hn : 0 < n) (v : Nat) : hexN n v ≠ [] := by
  intro h
  have := congrArg List.length h
  rw [length_hexN, List.length_nil] at this
  omega

/-- The first digit of a number is not `+`. -/
theorem unsigned_hexN (n v : Nat) : unsigned (hexN n v) = hexN n v := by
  unfold unsigned
  split
  · rename_i c cs h
    obtain ⟨d, hd, hc⟩ := hexDigit_mem (show (43 : UInt8) ∈ hexN n v by simp [h])
    have hplus : ∀ d < 16, (43 : UInt8) ≠ hexDigit d := by decide
    exact absurd hc (hplus d hd)
  · rfl

/-- **The round trip**: a number written with enough digits is read back. -/
theorem fromHex_hexN {w n v : Nat} (hn : 0 < n) (hv : v < 16 ^ n) (hw : v < 2 ^ w) :
    fromHex w (hexN n v) = some v := by
  rw [fromHex, if_neg (hexN_ne_nil hn v), unsigned_hexN, hexFold_hexN, Nat.mod_eq_of_lt hv]
  simp [hw]

/-- The octets of a number are ASCII. -/
theorem valid_hexN (n v : Nat) : Valid (hexN n v) := by
  apply valid_of_ascii
  intro c hc
  obtain ⟨d, hd, rfl⟩ := hexDigit_mem hc
  exact (show ∀ d < 16, hexDigit d < 0x80 by decide) d hd

/-- No digit starts or ends a white-space character. -/
theorem hexDigit_not_whitespace {d : Nat} (hd : d < 16) :
    (∀ w ∈ whitespace, ∃ c v, w = c :: v ∧ c ≠ hexDigit d) ∧
    ∀ w ∈ whitespace.map List.reverse, ∃ c v, w = c :: v ∧ c ≠ hexDigit d := by
  have h : ∀ d < 16, (∀ w ∈ whitespace, w ≠ [] ∧ w.head? ≠ some (hexDigit d)) ∧
      ∀ w ∈ whitespace.map List.reverse, w ≠ [] ∧ w.head? ≠ some (hexDigit d) := by decide
  have hcons : ∀ (w : Bytes), w ≠ [] ∧ w.head? ≠ some (hexDigit d) →
      ∃ c v, w = c :: v ∧ c ≠ hexDigit d := by
    rintro (_ | ⟨c, v⟩) ⟨hne, hh⟩
    · exact absurd rfl hne
    · exact ⟨c, v, rfl, fun h => hh (by rw [h]; rfl)⟩
  exact ⟨fun w hw => hcons w ((h d hd).1 w hw), fun w hw => hcons w ((h d hd).2 w hw)⟩

/-- Digits have no white space around them. -/
theorem trim_hexN {n : Nat} (hn : 0 < n) (v : Nat) : trim (hexN n v) = hexN n v := by
  have hstrip : ∀ {ws : List Bytes} {s : Bytes}, s ≠ [] →
      (∀ c ∈ s, ∀ w ∈ ws, ∃ d v, w = d :: v ∧ d ≠ c) → ∀ fuel, stripFront ws fuel s = s := by
    rintro ws (_ | ⟨c, s⟩) hne h fuel
    · exact absurd rfl hne
    · exact stripFront_of_head (h c (List.mem_cons_self ..)) fuel
  have hne : hexN n v ≠ [] := hexN_ne_nil hn v
  have hfront : stripFront whitespace (hexN n v).length (hexN n v) = hexN n v := by
    refine hstrip hne (fun c hc => ?_) _
    obtain ⟨d, hd, rfl⟩ := hexDigit_mem hc
    exact (hexDigit_not_whitespace hd).1
  have hback : ∀ fuel, stripFront (whitespace.map List.reverse) fuel (hexN n v).reverse =
      (hexN n v).reverse := by
    refine hstrip (fun h => hne (List.reverse_eq_nil_iff.mp h)) (fun c hc => ?_)
    obtain ⟨d, hd, rfl⟩ := hexDigit_mem (List.mem_reverse.mp hc)
    exact (hexDigit_not_whitespace hd).2
  rw [trim, hfront]
  show (stripFront _ _ (hexN n v).reverse).reverse = _
  rw [hback, List.reverse_reverse]

/-! ## Numbers in texts -/

/-- `n` in decimal. -/
def decimal (n : Nat) : Bytes := (Nat.toDigits 10 n).map fun c => UInt8.ofNat c.toNat

/-- An octet as two lowercase hexadecimal digits. -/
def hexByte (c : UInt8) : Bytes :=
  let digit (d : Nat) : UInt8 := UInt8.ofNat (if d < 10 then 48 + d else 87 + d)
  [digit (c.toNat / 16), digit (c.toNat % 16)]

/-- A decimal number is written in digits. -/
theorem digit_of_mem_decimal {c : UInt8} {n : Nat} (h : c ∈ decimal n) : 48 ≤ c ∧ c ≤ 57 := by
  obtain ⟨d, hd, rfl⟩ := List.mem_map.mp h
  have hdigit := Nat.isDigit_of_mem_toDigits (by decide) (by decide) hd
  rw [Char.isDigit, Bool.and_eq_true, decide_eq_true_eq, decide_eq_true_eq] at hdigit
  have hlo : 48 ≤ d.toNat := UInt32.le_iff_toNat_le.mp hdigit.1
  have hhi : d.toNat ≤ 57 := UInt32.le_iff_toNat_le.mp hdigit.2
  rw [UInt8.le_iff_toNat_le, UInt8.le_iff_toNat_le, UInt8.toNat_ofNat']
  change 48 ≤ _ ∧ _ ≤ 57
  omega

end Text

end CdjEmu
