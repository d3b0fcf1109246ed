/-
  OCTET ARRAYS — arrays of a fixed number of octets, written octet by octet, word by word and bit by
  bit.

  `byte_store` says what an octet is after a store, and the words and bits are stores of one or two
  octets.  A bit is named by its octet and its mask; `isSet_setBits` and `isSet_clearBits` say which
  bits a list of writes leaves set, whatever the list repeats.

  A `Field` is a value in its place.  Fields that do not share a bit are written in any order and
  all of them read back (`reads_puts`).
-/
import CdjEmu.Lib.Text

namespace CdjEmu

/-- A buffer of `n` octets. -/
abbrev Octets (n : Nat) := Vector UInt8 n

namespace Octets

variable {n : Nat} (f : Octets n)

/-- The octet at `i`; it is only asked for inside the array. -/
def byte (i : Nat) : UInt8 := f[i]?.getD 0

def zero (n : Nat) : Octets n := Vector.replicate n 0

/-- One octet is written; outside the buffer nothing is. -/
def store (i : Nat) (v : UInt8) : Octets n := f.setIfInBounds i v

/-- The array that begins with `b`. -/
def ofBytes (n : Nat) (b : Bytes) : Octets n := Vector.ofFn fun i => b.getD i 0

/-- The octets in front of `k`. -/
def front (k : Nat) : Bytes := f.toList.take k

/-- A 16-bit word, low octet first. -/
def putLe (i : Nat) (v : UInt16) : Octets n := (f.store i v.toUInt8).store (i + 1) (v >>> 8).toUInt8

/-- A 16-bit word, high octet first. -/
def putBe (i : Nat) (v : UInt16) : Octets n := (f.store i (v >>> 8).toUInt8).store (i + 1) v.toUInt8

/-- The word at `i`, its low octet first. -/
def wordLe (i : Nat) : UInt16 := UInt16.ofNat ((f.byte i).toNat + 256 * (f.byte (i + 1)).toNat)

/-- The word at `i`, its high octet first. -/
def wordBe (i : Nat) : UInt16 := UInt16.ofNat (256 * (f.byte i).toNat + (f.byte (i + 1)).toNat)

/-- Whether a bit is set. -/
def isSet (b : Nat × UInt8) : Prop := f.byte b.1 &&& b.2 ≠ 0

instance (b : Nat × UInt8) : Decidable (f.isSet b) := inferInstanceAs (Decidable (_ ≠ _))

/-- A bit of one octet is set or cleared. -/
def setBit (b : Nat × UInt8) (on : Bool) : Octets n :=
  f.store b.1 (if on then f.byte b.1 ||| b.2 else f.byte b.1 &&& ~~~b.2)

/-- Several bits, one after the other. -/
def setBits (l : List (Nat × UInt8)) (on : Bool) : Octets n := l.foldl (fun f b => f.setBit b on) f

/-! ## Octets -/

variable {f} {g : Octets n}

/-- Inside the buffer `byte` is the element. -/
theorem byte_of_lt {i : Nat} (h : i < n) : f.byte i = f[i] := by
  rw [byte, Vector.getElem?_eq_getElem h, Option.getD_some]

/-- Outside it is 0. -/
theorem byte_of_ge {i : Nat} (h : n ≤ i) : f.byte i = 0 := by
  rw [byte, Vector.getElem?_eq_none h, Option.getD_none]

/-- An array is its octets. -/
theorem ext_byte (h : ∀ i < n, f.byte i = g.byte i) : f = g := by
  apply Vector.ext
  intro i hi
  have := h i hi
  rwa [byte_of_lt hi, byte_of_lt hi] at this

@[simp] theorem byte_store (i j : Nat) (v : UInt8) :
    (f.store i v).byte j = if i = j ∧ i < n then v else f.byte j := by
  rw [byte, store, Vector.getElem?_setIfInBounds]
  by_cases hij : i = j
  · subst hij
    by_cases hi : i < n
    · simp [hi]
    · simp [hi, byte_of_ge (Nat.le_of_not_lt hi)]
  · simp [hij, byte]

/-- A store leaves the other octets alone. -/
theorem byte_store_of_ne {i j : Nat} (v : UInt8) (h : j ≠ i) : (f.store i v).byte j = f.byte j := by
  rw [byte_store, if_neg fun hij => h hij.1.symm]

/-- Nothing in front of `k` is touched by a store behind it. -/
theorem front_congr {k : Nat} (h : ∀ i < k, f.byte i = g.byte i) : f.front k = g.front k := by
  apply List.ext_getElem?
  intro i
  rw [front, front, List.getElem?_take, List.getElem?_take]
  split
  · rename_i hi
    by_cases hn : i < n
    · have := h i hi
      rw [byte_of_lt hn, byte_of_lt hn] at this
      simp [hn, this]
    · simp [hn]
  · rfl

@[simp] theorem ofBytes_toList (f : Octets n) : ofBytes n f.toList = f := by
  apply Vector.ext
  intro i hi
  simp [ofBytes]

/-- The front of the whole buffer is the buffer. -/
theorem front_of_le {k : Nat} (h : n ≤ k) : f.front k = f.toList := by
  rw [front, List.take_of_length_le]
  simpa using h

/-! ## Words -/

/-- A word leaves all octets alone but its two. -/
theorem byte_putLe_of_ne {i j : Nat} (v : UInt16) (h0 : j ≠ i) (h1 : j ≠ i + 1) :
    (f.putLe i v).byte j = f.byte j := by
  rw [putLe, byte_store_of_ne _ h1, byte_store_of_ne _ h0]

theorem byte_putBe_of_ne {i j : Nat} (v : UInt16) (h0 : j ≠ i) (h1 : j ≠ i + 1) :
    (f.putBe i v).byte j = f.byte j := by
  rw [putBe, byte_store_of_ne _ h1, byte_store_of_ne _ h0]

/-- A word is its two octets put together. -/
theorem ofNat_octets (v : UInt16) :
    UInt16.ofNat (v.toUInt8.toNat + 256 * (v >>> 8).toUInt8.toNat) = v := by
  have hlt : v.toNat < 65536 := v.toNat_lt
  have hhigh : (v >>> 8).toUInt8.toNat = v.toNat / 256 % 256 := by
    rw [UInt16.toNat_toUInt8, UInt16.toNat_shiftRight]
    exact congrArg (· % 256) (Nat.shiftRight_eq_div_pow _ _)
  have hlow : v.toUInt8.toNat = v.toNat % 256 := v.toNat_toUInt8
  apply UInt16.toNat_inj.mp
  rw [hhigh, hlow, UInt16.toNat_ofNat']
  omega

/-- So two octets that are a word's are read as that word. -/
theorem wordLe_of_byte {i : Nat} {v : UInt16} (h0 : f.byte i = v.toUInt8)
    (h1 : f.byte (i + 1) = (v >>> 8).toUInt8) :
    f.wordLe i = v := by
  rw [wordLe, h0, h1, ofNat_octets]

theorem wordBe_of_byte {i : Nat} {v : UInt16} (h0 : f.byte i = (v >>> 8).toUInt8)
    (h1 : f.byte (i + 1) = v.toUInt8) :
    f.wordBe i = v := by
  rw [wordBe, h0, h1, Nat.add_comm, ofNat_octets]

/-- A word reads back. -/
theorem wordLe_putLe {i : Nat} (h : i + 1 < n) (v : UInt16) : (f.putLe i v).wordLe i = v := by
  apply wordLe_of_byte
  · rw [putLe, byte_store_of_ne _ (by omega), byte_store, if_pos ⟨rfl, by omega⟩]
  · rw [putLe, byte_store, if_pos ⟨rfl, h⟩]

/-- What is put is read. -/
theorem wordBe_putBe {i : Nat} (h : i + 1 < n) (v : UInt16) : (f.putBe i v).wordBe i = v := by
  apply wordBe_of_byte
  · rw [putBe, byte_store_of_ne _ (by omega), byte_store, if_pos ⟨rfl, by omega⟩]
  · rw [putBe, byte_store, if_pos ⟨rfl, h⟩]

/-- A word that is stored again stays. -/
theorem putLe_wordLe (i : Nat) : f.putLe i (f.wordLe i) = f := by
  have hlow : (f.wordLe i).toUInt8 = f.byte i := by
    apply UInt8.toNat_inj.mp
    have h0 := (f.byte i).toNat_lt
    have h1 := (f.byte (i + 1)).toNat_lt
    rw [UInt16.toNat_toUInt8, wordLe, UInt16.toNat_ofNat']
    omega
  have hhigh : (f.wordLe i >>> 8).toUInt8 = f.byte (i + 1) := by
    apply UInt8.toNat_inj.mp
    have h0 := (f.byte i).toNat_lt
    have h1 := (f.byte (i + 1)).toNat_lt
    rw [UInt16.toNat_toUInt8, UInt16.toNat_shiftRight, wordLe, UInt16.toNat_ofNat']
    show ((_ : Nat) >>> 8) % 2 ^ 8 = _
    rw [Nat.shiftRight_eq_div_pow]
    omega
  apply ext_byte
  intro j hj
  rw [putLe, hlow, hhigh, byte_store, byte_store]
  split
  · rename_i h
    rw [h.1]
  · split
    · rename_i h
      rw [h.1]
    · rfl

/-- Zeros over zeros. -/
theorem putLe_zero {i : Nat} (h0 : f.byte i = 0) (h1 : f.byte (i + 1) = 0) : f.putLe i 0 = f := by
  have hword : f.wordLe i = 0 := by
    rw [wordLe, h0, h1]
    rfl
  rw [← hword, putLe_wordLe]

/-- And putting what is read changes nothing. -/
theorem putBe_wordBe (i : Nat) : f.putBe i (f.wordBe i) = f := by
  have hhigh : (f.wordBe i >>> 8).toUInt8 = f.byte i := by
    apply UInt8.toNat_inj.mp
    have h0 := (f.byte i).toNat_lt
    have h1 := (f.byte (i + 1)).toNat_lt
    rw [UInt16.toNat_toUInt8, UInt16.toNat_shiftRight, wordBe, UInt16.toNat_ofNat']
    show ((_ : Nat) >>> 8) % 2 ^ 8 = _
    rw [Nat.shiftRight_eq_div_pow]
    omega
  have hlow : (f.wordBe i).toUInt8 = f.byte (i + 1) := by
    apply UInt8.toNat_inj.mp
    have h0 := (f.byte i).toNat_lt
    have h1 := (f.byte (i + 1)).toNat_lt
    rw [UInt16.toNat_toUInt8, wordBe, UInt16.toNat_ofNat']
    omega
  apply ext_byte
  intro j hj
  rw [putBe, hlow, hhigh, byte_store, byte_store]
  split
  · rename_i h
    rw [h.1]
  · split
    · rename_i h
      rw [h.1]
    · rfl

/-! ## Bits -/

theorem or_and_distrib (a b c : UInt8) : (a ||| b) &&& c = a &&& c ||| b &&& c :=
  UInt8.toBitVec_inj.mp BitVec.and_or_distrib_right

theorem and_or_distrib (a b c : UInt8) : a &&& (b ||| c) = a &&& b ||| a &&& c :=
  UInt8.toBitVec_inj.mp BitVec.and_or_distrib_left

/-- A mask of a single bit. -/
def OneBit (m : UInt8) : Prop := ∃ k < 8, m.toNat = 2 ^ k

instance (m : UInt8) : Decidable (OneBit m) := inferInstanceAs (Decidable (∃ _, _ ∧ _))

/-- One bit of an octet is either there or not. -/
theorem OneBit.and_eq {m : UInt8} (h : OneBit m) (x : UInt8) : x &&& m = 0 ∨ x &&& m = m := by
  obtain ⟨k, -, hk⟩ := h
  have hand : (x &&& m).toNat = (x.toNat.testBit k).toNat * 2 ^ k := by
    rw [UInt8.toNat_and, hk, Nat.and_two_pow]
  cases hbit : x.toNat.testBit k with
  | false => exact .inl (UInt8.toNat_inj.mp (by rw [hand, hbit]; simp))
  | true => exact .inr (UInt8.toNat_inj.mp (by rw [hand, hbit, hk]; simp))

theorem OneBit.ne_zero {m : UInt8} (h : OneBit m) : m ≠ 0 := by
  obtain ⟨k, -, hk⟩ := h
  rintro rfl
  have : 0 < 2 ^ k := Nat.two_pow_pos k
  rw [← hk] at this
  exact absurd this (by decide)

/-- Single bits meet only when they are the same. -/
theorem OneBit.and_ne_zero_iff {m k : UInt8} (hm : OneBit m) (hk : OneBit k) :
    m &&& k ≠ 0 ↔ m = k := by
  constructor
  · intro h
    have hk : m &&& k = k := (hk.and_eq m).resolve_left h
    have hm : k &&& m = m := (hm.and_eq k).resolve_left (by rwa [UInt8.and_comm])
    rw [← hm, UInt8.and_comm, hk]
  · rintro rfl
    rw [UInt8.and_self]
    exact hm.ne_zero

theorem byte_setBit_of_ne {b : Nat × UInt8} {i : Nat} (on : Bool) (h : i ≠ b.1) :
    (f.setBit b on).byte i = f.byte i :=
  byte_store_of_ne _ h

/-- Setting a bit sets that bit and no other. -/
theorem isSet_setBit_true {b c : Nat × UInt8} (hb : b.1 < n) :
    (f.setBit b true).isSet c ↔ f.isSet c ∨ b.1 = c.1 ∧ b.2 &&& c.2 ≠ 0 := by
  unfold isSet setBit
  rw [byte_store]
  by_cases hbc : b.1 = c.1
  · rw [if_pos ⟨hbc, hb⟩, if_pos rfl, hbc, or_and_distrib]
    simp only [ne_eq, UInt8.or_eq_zero_iff, true_and]
    exact not_and_or
  · rw [if_neg fun h => hbc h.1]
    simp [hbc]

/-- A bit keeps its value when another one is written. -/
theorem isSet_setBit_of_apart {b c : Nat × UInt8} (on : Bool) (h : b.1 = c.1 → b.2 &&& c.2 = 0) :
    (f.setBit b on).isSet c ↔ f.isSet c := by
  by_cases hbc : b.1 = c.1 ∧ b.1 < n
  · have hkeep : c.2 &&& ~~~b.2 = c.2 := by
      have hsplit : c.2 = c.2 &&& b.2 ||| c.2 &&& ~~~b.2 := by
        rw [← and_or_distrib]
        simp
      rw [UInt8.and_comm c.2 b.2, h hbc.1, UInt8.zero_or] at hsplit
      exact hsplit.symm
    unfold isSet setBit
    rw [byte_store, if_pos hbc, hbc.1]
    cases on with
    | true => rw [if_pos rfl, or_and_distrib, h hbc.1, UInt8.or_zero]
    | false => rw [if_neg Bool.false_ne_true, UInt8.and_assoc, UInt8.and_comm (~~~b.2), hkeep]
  · unfold isSet setBit
    rw [byte_store, if_neg hbc]

/-- A bit reads back. -/
theorem isSet_setBit_self {b : Nat × UInt8} (on : Bool) (hb : b.1 < n) (hne : b.2 ≠ 0) :
    (f.setBit b on).isSet b ↔ on = true := by
  unfold isSet setBit
  rw [byte_store, if_pos ⟨rfl, hb⟩]
  cases on with
  | true => simp [or_and_distrib, hne]
  | false => simp [UInt8.and_assoc]

/-- Clearing a bit clears that bit and no other. -/
theorem isSet_setBit_false {b c : Nat × UInt8} (hb : b.1 < n) (hone : OneBit b.2)
    (hc : OneBit c.2) :
    (f.setBit b false).isSet c ↔ f.isSet c ∧ ¬ b = c := by
  by_cases hbc : b = c
  · subst hbc
    simp [isSet_setBit_self false hb hone.ne_zero]
  · rw [isSet_setBit_of_apart false fun h1 => ?_]
    · simp [hbc]
    · by_contra h2
      exact hbc (Prod.ext h1 ((hone.and_ne_zero_iff hc).mp h2))

/-- Setting bits leaves the other octets alone. -/
theorem byte_setBits_of_ne {l : List (Nat × UInt8)} {i : Nat} (on : Bool) (h : ∀ b ∈ l, i ≠ b.1) :
    (f.setBits l on).byte i = f.byte i := by
  induction l generalizing f with
  | nil => rfl
  | cons b l ih =>
    rw [setBits, List.foldl_cons]
    exact (ih fun c hc => h c (List.mem_cons_of_mem _ hc)).trans
      (byte_setBit_of_ne on (h b List.mem_cons_self))

/-- A bit is set when it was or when the list names it. -/
theorem isSet_setBits {l : List (Nat × UInt8)} {c : Nat × UInt8}
    (hl : ∀ b ∈ l, b.1 < n ∧ OneBit b.2) (hc : OneBit c.2) :
    (f.setBits l true).isSet c ↔ f.isSet c ∨ c ∈ l := by
  induction l generalizing f with
  | nil => simp [setBits]
  | cons b l ih =>
    obtain ⟨hb, hone⟩ := hl b List.mem_cons_self
    have hrest : (f.setBits (b :: l) true).isSet c ↔ (f.setBit b true).isSet c ∨ c ∈ l :=
      ih fun d hd => hl d (List.mem_cons_of_mem _ hd)
    rw [hrest, isSet_setBit_true hb, hone.and_ne_zero_iff hc, List.mem_cons, or_assoc,
      ← Prod.ext_iff, eq_comm]

/-- A bit stays set unless the list names it. -/
theorem isSet_clearBits {l : List (Nat × UInt8)} {c : Nat × UInt8}
    (hl : ∀ b ∈ l, b.1 < n ∧ OneBit b.2) (hc : OneBit c.2) :
    (f.setBits l false).isSet c ↔ f.isSet c ∧ c ∉ l := by
  induction l generalizing f with
  | nil => simp [setBits]
  | cons b l ih =>
    obtain ⟨hb, hone⟩ := hl b List.mem_cons_self
    have hrest : (f.setBits (b :: l) false).isSet c ↔ (f.setBit b false).isSet c ∧ c ∉ l :=
      ih fun d hd => hl d (List.mem_cons_of_mem _ hd)
    rw [hrest, isSet_setBit_false hb hone hc, List.mem_cons, not_or, and_assoc, eq_comm]

/-- Whatever is cleared, no bit is added. -/
theorem byte_clearBits (l : List (Nat × UInt8)) (i : Nat) :
    (f.setBits l false).byte i = (f.setBits l false).byte i &&& f.byte i := by
  induction l generalizing f with
  | nil => simp [setBits]
  | cons b l ih =>
    have hone : (f.setBit b false).byte i = (f.setBit b false).byte i &&& f.byte i := by
      rw [setBit, byte_store]
      split
      · rename_i h
        rw [if_neg Bool.false_ne_true, h.1, UInt8.and_comm, UInt8.and_assoc, UInt8.and_self]
      · rw [UInt8.and_self]
    have hrest : (f.setBits (b :: l) false).byte i = _ := ih (f := f.setBit b false)
    calc (f.setBits (b :: l) false).byte i
        = (f.setBits (b :: l) false).byte i &&& (f.setBit b false).byte i := hrest
      _ = (f.setBits (b :: l) false).byte i &&& ((f.setBit b false).byte i &&& f.byte i) := by
        rw [← hone]
      _ = (f.setBits (b :: l) false).byte i &&& f.byte i := by
          rw [← UInt8.and_assoc]
          exact congrArg (· &&& f.byte i) hrest.symm

/-- A bit stays set unless a mask of the list takes it. -/
theorem isSet_clearMasks {l : List (Nat × UInt8)} {c : Nat × UInt8} (hl : ∀ b ∈ l, b.1 < n)
    (hc : OneBit c.2) :
    (f.setBits l false).isSet c ↔ f.isSet c ∧ ∀ b ∈ l, b.1 = c.1 → b.2 &&& c.2 = 0 := by
  induction l generalizing f with
  | nil => simp [setBits]
  | cons b l ih =>
    have hrest : (f.setBits (b :: l) false).isSet c ↔
        (f.setBit b false).isSet c ∧ ∀ d ∈ l, d.1 = c.1 → d.2 &&& c.2 = 0 :=
      ih fun d hd => hl d (List.mem_cons_of_mem _ hd)
    rw [hrest, List.forall_mem_cons]
    by_cases happart : b.1 = c.1 → b.2 &&& c.2 = 0
    · rw [isSet_setBit_of_apart false happart, and_iff_right happart]
    · have hgone : ¬ (f.setBit b false).isSet c := by
        obtain ⟨heq, hand⟩ := Classical.not_imp.mp happart
        have hmask : b.2 &&& c.2 = c.2 := (hc.and_eq b.2).resolve_left hand
        rw [isSet, setBit, byte_store, if_pos ⟨heq, hl b List.mem_cons_self⟩,
          if_neg Bool.false_ne_true, ← hmask, ← UInt8.and_assoc, UInt8.and_assoc (f.byte b.1),
          UInt8.not_and_self]
        simp
      simp [hgone, happart]

/-- A bit of an octet that nothing writes stays as it is. -/
theorem isSet_congr {c : Nat × UInt8} (h : f.byte c.1 = g.byte c.1) : f.isSet c ↔ g.isSet c := by
  rw [isSet, isSet, h]

/-! ## Fields -/

/-- A value in its place. -/
inductive Field where
  | octet (i : Nat) (v : UInt8)
  | le (i : Nat) (v : UInt16)
  | be (i : Nat) (v : UInt16)
  | bit (b : Nat × UInt8) (on : Bool)

namespace Field

/-- The bits that the field takes, octet by octet. -/
def bits : Field → List (Nat × UInt8)
  | octet i _ => [(i, 0xff)]
  | le i _ => [(i, 0xff), (i + 1, 0xff)]
  | be i _ => [(i, 0xff), (i + 1, 0xff)]
  | bit b _ => [b]

/-- The array has the value in the field. -/
def Reads (f : Octets n) : Field → Prop
  | octet i v => f.byte i = v
  | le i v => f.wordLe i = v
  | be i v => f.wordBe i = v
  | bit b on => f.isSet b ↔ on = true

/-- A field is written. -/
def put (f : Octets n) : Field → Octets n
  | octet i v => f.store i v
  | le i v => f.putLe i v
  | be i v => f.putBe i v
  | bit b on => f.setBit b on

/-- Several fields, one after the other. -/
def puts (f : Octets n) (l : List Field) : Octets n := l.foldl put f

/-- Whether a field reads back depends on its own bits only. -/
theorem reads_congr {fd : Field} (h : ∀ b ∈ fd.bits, f.byte b.1 = g.byte b.1) (hg : fd.Reads g) :
    fd.Reads f := by
  cases fd with
  | octet i v => exact (h (i, 0xff) (by simp [bits])).trans hg
  | le i v =>
    have h0 : f.byte i = g.byte i := h (i, 0xff) (by simp [bits])
    have h1 : f.byte (i + 1) = g.byte (i + 1) := h (i + 1, 0xff) (by simp [bits])
    show f.wordLe i = v
    rw [wordLe, h0, h1]
    exact hg
  | be i v =>
    have h0 : f.byte i = g.byte i := h (i, 0xff) (by simp [bits])
    have h1 : f.byte (i + 1) = g.byte (i + 1) := h (i + 1, 0xff) (by simp [bits])
    show f.wordBe i = v
    rw [wordBe, h0, h1]
    exact hg
  | bit b on => exact (isSet_congr (h b (by simp [bits]))).trans hg

/-- A field leaves the octets alone that it has no bit in. -/
theorem byte_put_of_ne {fd : Field} {i : Nat} (h : ∀ b ∈ fd.bits, i ≠ b.1) :
    (fd.put f).byte i = f.byte i := by
  cases fd with
  | octet j v => exact byte_store_of_ne _ (h (j, 0xff) (by simp [bits]))
  | le j v =>
    exact byte_putLe_of_ne _ (h (j, 0xff) (by simp [bits]))
      (h (j + 1, 0xff) (by simp [bits]))
  | be j v =>
    exact byte_putBe_of_ne _ (h (j, 0xff) (by simp [bits]))
      (h (j + 1, 0xff) (by simp [bits]))
  | bit b on => exact byte_setBit_of_ne _ (h b (by simp [bits]))

theorem byte_puts_of_ne {l : List Field} {i : Nat} (h : ∀ fd ∈ l, ∀ b ∈ fd.bits, i ≠ b.1) :
    (puts f l).byte i = f.byte i := by
  induction l generalizing f with
  | nil => rfl
  | cons fd l ih =>
    exact (ih fun e he => h e (List.mem_cons_of_mem _ he)).trans
      (byte_put_of_ne (h fd List.mem_cons_self))

/-- The bits are inside an array of `n` octets. -/
def Fits (n : Nat) (l : List (Nat × UInt8)) : Prop := ∀ b ∈ l, b.1 < n ∧ b.2 ≠ 0

/-- No bit is shared. -/
def Apart (l k : List (Nat × UInt8)) : Prop := ∀ b ∈ l, ∀ c ∈ k, b.1 = c.1 → b.2 &&& c.2 = 0

instance (n : Nat) (l : List (Nat × UInt8)) : Decidable (Fits n l) :=
  inferInstanceAs (Decidable (∀ _ ∈ _, _))

instance (l k : List (Nat × UInt8)) : Decidable (Apart l k) :=
  inferInstanceAs (Decidable (∀ _ ∈ _, _))

/-- A field that fits reads back. -/
theorem reads_put {fd : Field} (h : Fits n fd.bits) : fd.Reads (fd.put f) := by
  cases fd with
  | octet i v =>
    have h0 := h (i, 0xff) (by simp [bits])
    show (f.store i v).byte i = v
    rw [byte_store, if_pos ⟨rfl, h0.1⟩]
  | le i v => exact wordLe_putLe (h (i + 1, 0xff) (by simp [bits])).1 v
  | be i v => exact wordBe_putBe (h (i + 1, 0xff) (by simp [bits])).1 v
  | bit b on =>
    have h0 := h b (by simp [bits])
    exact isSet_setBit_self on h0.1 h0.2

/-- A field is a bit or takes whole octets. -/
theorem bit_or_whole (fd : Field) : (∃ b on, fd = bit b on) ∨ ∀ b ∈ fd.bits, b.2 = 0xff := by
  cases fd with
  | octet i v => exact .inr (by simp [bits])
  | le i v => exact .inr (by simp [bits])
  | be i v => exact .inr (by simp [bits])
  | bit b on => exact .inl ⟨b, on, rfl⟩

/-- Nothing is apart from an octet but the other octets. -/
theorem ne_of_apart {b c : Nat × UInt8} (h : b.1 = c.1 → b.2 &&& c.2 = 0) (hb : b.2 ≠ 0)
    (hc : c.2 ≠ 0) (hwhole : b.2 = 0xff ∨ c.2 = 0xff) : c.1 ≠ b.1 := by
  have hall : (0xff : UInt8) = -1 := rfl
  intro heq
  have hand := h heq.symm
  obtain hb' | hc' := hwhole
  · rw [hb', hall, UInt8.neg_one_and] at hand
    exact hc hand
  · rw [hc', hall, UInt8.and_neg_one] at hand
    exact hb hand

/-- A field keeps its value when one apart from it is written. -/
theorem reads_put_of_apart {e fd : Field} (hfit : Fits n e.bits) (hfit' : Fits n fd.bits)
    (h : Apart e.bits fd.bits) (hf : fd.Reads f) : fd.Reads (e.put f) := by
  have hbytes : (∀ b ∈ e.bits, b.2 = 0xff) ∨ (∀ c ∈ fd.bits, c.2 = 0xff) → fd.Reads (e.put f) := by
    intro hwhole
    refine reads_congr (fun c hc => byte_put_of_ne fun b hb => ?_) hf
    exact ne_of_apart (h b hb c hc) (hfit b hb).2 (hfit' c hc).2 (hwhole.imp (· b hb) (· c hc))
  obtain ⟨b, on, rfl⟩ | he := bit_or_whole e
  · obtain ⟨c, on', rfl⟩ | hfd := bit_or_whole fd
    · exact (isSet_setBit_of_apart on
        (h b (List.mem_singleton_self _) c (List.mem_singleton_self _))).trans hf
    · exact hbytes (.inr hfd)
  · exact hbytes (.inl he)

/-- And still does after fields apart from it. -/
theorem reads_puts_of_apart {l : List Field} {fd : Field} (hfit : ∀ e ∈ l, Fits n e.bits)
    (hfit' : Fits n fd.bits) (h : ∀ e ∈ l, Apart e.bits fd.bits) (hf : fd.Reads f) :
    fd.Reads (puts f l) := by
  induction l generalizing f with
  | nil => exact hf
  | cons e l ih =>
    exact ih (fun d hd => hfit d (List.mem_cons_of_mem _ hd))
      (fun d hd => h d (List.mem_cons_of_mem _ hd))
      (reads_put_of_apart (hfit e List.mem_cons_self) hfit' (h e List.mem_cons_self) hf)

/-- **All that is written reads back**: fields that do not share a bit, written in any order. -/
theorem reads_puts {l : List Field} (hfit : ∀ fd ∈ l, Fits n fd.bits)
    (h : (l.map bits).Pairwise Apart) :
    ∀ fd ∈ l, fd.Reads (puts f l) := by
  induction l generalizing f with
  | nil => nofun
  | cons e l ih =>
    have hfit' : ∀ fd ∈ l, Fits n fd.bits := fun d hd => hfit d (List.mem_cons_of_mem _ hd)
    obtain ⟨hapart, hrest⟩ := List.pairwise_cons.mp h
    intro fd hfd
    obtain rfl | hfd := List.mem_cons.mp hfd
    · show fd.Reads (puts (fd.put f) l)
      refine reads_puts_of_apart hfit' (hfit fd List.mem_cons_self) (fun d hd b hb c hc heq => ?_)
        (reads_put (hfit fd List.mem_cons_self))
      rw [UInt8.and_comm]
      exact hapart _ (List.mem_map_of_mem hd) c hc b hb heq.symm
    · exact ih hfit' hrest fd hfd

end Field

end Octets

end CdjEmu
