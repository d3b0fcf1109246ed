/-
  A STREAM IN PIECES — what `read` and `write` make of a byte stream, call by call.

  A `Source` is a stream with SIGNS between its elements: where a read ends although more would fit,
  where one is interrupted, times out, or fails.  With them it says what every read will return, so
  a reader is a function of it; the end of the list is the end of the stream.  `content` is the
  stream without the signs.

  `readExact` goes on until it has everything.  On a source without time-outs and failures its
  result depends on `content` alone: `readExact_calm`, `readExact_short`.  `writeAll` is its
  counterpart: a write takes some of what it is given, or has to be made again.

  Both have a variant that looks at a STOP FLAG, which someone else may set at any time:
  `readExactUntil` before every read, `writeAllUntil` before a write is made again.  All that counts
  of that time is how many looks come before it, so a `Stop` is that number.  While the flag is
  clear they are the plain ones; when it is found set they give up where they are.
-/
import Mathlib

namespace CdjEmu

/-- What comes between the elements of a stream. -/
inductive Sign where
  /-- A read ends here. -/
  | cut
  | interrupted
  | timedOut
  | failed
  deriving DecidableEq

inductive Item (α : Type) where
  | byte (a : α)
  | sign (x : Sign)
  deriving DecidableEq

abbrev Source (α : Type) := List (Item α)

/-- When the flag is set: never, or after so many looks.  Once set it stays set. -/
inductive Stop where
  | never
  | after (looks : Nat)
  deriving DecidableEq

namespace Stop

/-- A look at the flag. -/
def look : Stop → Bool × Stop
  | .never => (false, .never)
  | .after 0 => (true, .after 0)
  | .after (n + 1) => (false, .after n)

/-- The flag is set. -/
def Asked (stop : Stop) : Prop := stop = .after 0

instance (stop : Stop) : Decidable stop.Asked := inferInstanceAs (Decidable (_ = _))

/-- Only a flag that is set is found so. -/
theorem look_set {stop : Stop} (h : stop.look.1 = true) : stop.look.2.Asked := by
  match stop with
  | .never => cases h
  | .after 0 => rfl
  | .after (_ + 1) => cases h

end Stop

namespace Source

variable {α : Type}

/-- What a read returns. -/
inductive Got (α : Type) where
  | data (bs : List α)
  | interrupted
  | timedOut
  | failed

/-- The stream without the signs. -/
def content : Source α → List α
  | [] => []
  | .byte a :: src => a :: content src
  | .sign _ :: src => content src

/-- The elements up to the first sign, at most `n`. -/
def upTo : Nat → Source α → List α × Source α
  | n + 1, .byte a :: src => (a :: (upTo n src).1, (upTo n src).2)
  | _, src => ([], src)

/-- `read` into a buffer of `n`: no data is the end of the stream. -/
def read (n : Nat) : Source α → Got α × Source α
  | .sign .cut :: src => read n src
  | .sign .interrupted :: src => (.interrupted, src)
  | .sign .timedOut :: src => (.timedOut, src)
  | .sign .failed :: src => (.failed, src)
  | src => (.data (upTo n src).1, (upTo n src).2)

/-- No read times out or fails. -/
def Calm (src : Source α) : Prop := .sign .timedOut ∉ src ∧ .sign .failed ∉ src

instance [DecidableEq α] (src : Source α) : Decidable src.Calm :=
  inferInstanceAs (Decidable (_ ∧ _))

/-- The stream of a descriptor whose read timeout has been taken away. -/
def withoutTimeout [DecidableEq α] (src : Source α) : Source α := src.filter (· ≠ .sign .timedOut)

/-! ## One read -/

theorem upTo_spec (n : Nat) (src : Source α) :
    content src = (upTo n src).1 ++ content (upTo n src).2 ∧ (upTo n src).1.length ≤ n ∧
    (upTo n src).2 <:+ src ∧
      (upTo n src).2.length + (upTo n src).1.length = src.length := by
  induction n, src using upTo.induct with
  | case1 n a src ih =>
    obtain ⟨hbytes, hlen, hsuffix, hcount⟩ := ih
    rw [upTo]
    exact ⟨congrArg (a :: ·) hbytes, Nat.succ_le_succ hlen, hsuffix.trans (List.suffix_cons _ _),
      congrArg Nat.succ hcount⟩
  | case2 n src hnone =>
    rw [upTo]
    · exact ⟨rfl, Nat.zero_le _, List.suffix_rfl, rfl⟩
    · exact hnone

/-- What a read returns and what it leaves. -/
structure Read (n : Nat) (src : Source α) (got : Got α) (rest : Source α) : Prop where
  suffix : rest <:+ src
  data : ∀ bs, got = .data bs → content src = bs ++ content rest ∧ bs.length ≤ n ∧
    rest.length + bs.length ≤ src.length ∧
    (bs = [] → 0 < n → content src = [])
  /-- An error takes its sign and nothing else. -/
  error : (∀ bs, got ≠ .data bs) → content src = content rest ∧ rest.length < src.length
  timedOut : got = .timedOut → .sign .timedOut ∈ src
  failed : got = .failed → .sign .failed ∈ src

theorem read_spec (n : Nat) (src : Source α) : Read n src (read n src).1 (read n src).2 := by
  induction src using read.induct with
  | case1 src ih =>
    rw [read]
    refine ⟨ih.suffix.trans (List.suffix_cons _ _), ?_, ?_, ?_, ?_⟩
    · intro bs hbs
      obtain ⟨hbytes, hlen, hcount, hend⟩ := ih.data bs hbs
      exact ⟨hbytes, hlen, Nat.le_succ_of_le hcount, hend⟩
    · intro herr
      exact ⟨(ih.error herr).1, Nat.lt_succ_of_lt (ih.error herr).2⟩
    · intro h
      exact List.mem_cons_of_mem _ (ih.timedOut h)
    · intro h
      exact List.mem_cons_of_mem _ (ih.failed h)
  | case2 src =>
    exact ⟨List.suffix_cons _ _, fun bs hbs => (by cases hbs), fun _ => ⟨rfl, Nat.lt_succ_self _⟩,
      fun h => (by cases h), fun h => (by cases h)⟩
  | case3 src =>
    exact ⟨List.suffix_cons _ _, fun bs hbs => (by cases hbs), fun _ => ⟨rfl, Nat.lt_succ_self _⟩,
      fun _ => List.mem_cons_self, fun h => (by cases h)⟩
  | case4 src =>
    exact ⟨List.suffix_cons _ _, fun bs hbs => (by cases hbs), fun _ => ⟨rfl, Nat.lt_succ_self _⟩,
      fun h => (by cases h), fun _ => List.mem_cons_self⟩
  | case5 src hcut hint htime hfail =>
    obtain ⟨hbytes, hlen, hsuffix, hcount⟩ := upTo_spec n src
    rw [read]
    · refine ⟨hsuffix, ?_, fun herr => absurd rfl (herr _), fun h => (by cases h),
        fun h => (by cases h)⟩
      rintro bs ⟨⟩
      refine ⟨hbytes, hlen, Nat.le_of_eq hcount, fun hnil hpos => ?_⟩
      match src, n with
      | [], _ => rfl
      | .byte a :: src, n + 1 => exact absurd hnil (List.cons_ne_nil _ _)
      | .sign .cut :: src, _ => exact absurd rfl (hcut src)
      | .sign .interrupted :: src, _ => exact absurd rfl (hint src)
      | .sign .timedOut :: src, _ => exact absurd rfl (htime src)
      | .sign .failed :: src, _ => exact absurd rfl (hfail src)
    · exact hcut
    · exact hint
    · exact htime
    · exact hfail

/-! ## Reading until everything is there -/

/-- What comes of reading exactly so much. -/
inductive Exact (α : Type) where
  | done (bs : List α)
  /-- The stream has ended. -/
  | eof
  | failed

/-- Read exactly `n`; an interrupted read is made again. -/
def readExact (n : Nat) (src : Source α) : Exact α × Source α :=
  if n = 0 then (.done [], src)
  else match _hr : read n src with
    | (.interrupted, rest) => readExact n rest
    | (.data [], rest) => (.eof, rest)
    | (.data (b :: bs), rest) => match readExact (n - (b :: bs).length) rest with
      | (.done more, rest) => (.done (b :: bs ++ more), rest)
      | (e, rest) => (e, rest)
    | (.timedOut, rest) => (.failed, rest)
    | (.failed, rest) => (.failed, rest)
termination_by src.length
decreasing_by
  · have hread := read_spec n src
    rw [_hr] at hread
    exact (hread.error fun bs h => by cases h).2
  · have hread := read_spec n src
    rw [_hr] at hread
    exact Nat.lt_of_lt_of_le (Nat.lt_add_of_pos_right (Nat.succ_pos _)) (hread.data _ rfl).2.2.1

theorem readExact_step {n : Nat} (hn : n ≠ 0) (src : Source α) :
    readExact n src = match read n src with
      | (.interrupted, rest) => readExact n rest
      | (.data [], rest) => (.eof, rest)
      | (.data (b :: bs), rest) => match readExact (n - (b :: bs).length) rest with
        | (.done more, rest) => (.done (b :: bs ++ more), rest)
        | (e, rest) => (e, rest)
      | (.timedOut, rest) => (.failed, rest)
      | (.failed, rest) => (.failed, rest) := by
  rw [readExact, if_neg hn]
  split <;> rename_i h <;> rw [h]

theorem Calm.suffix {src rest : Source α} (h : src.Calm) (hs : rest <:+ src) : rest.Calm :=
  ⟨fun hm => h.1 (hs.mem hm), fun hm => h.2 (hs.mem hm)⟩

/-- What comes of `readExact`: all `n`, or the stream ends in front of them, or a
    read times out or fails. -/
def ExactSpec (n : Nat) (src : Source α) : Exact α → Source α → Prop
  | .done bs, rest => content src = bs ++ content rest ∧ bs.length = n ∧
      rest.length + n ≤ src.length
  | .eof, _ => (content src).length < n
  | .failed, _ => ¬ src.Calm

theorem readExact_spec (n : Nat) (src : Source α) :
    (readExact n src).2 <:+ src ∧ ExactSpec n src (readExact n src).1 (readExact n src).2 := by
  induction hlen : src.length using Nat.strong_induction_on generalizing n src with
  | _ len ih =>
    by_cases hn : n = 0
    · rw [readExact, if_pos hn]
      exact ⟨List.suffix_rfl, rfl, hn.symm, by rw [hn]; exact Nat.le_refl _⟩
    · have hread := read_spec n src
      rw [readExact_step hn]
      obtain ⟨got, rest, hgot⟩ : ∃ got rest, read n src = (got, rest) := ⟨_, _, rfl⟩
      rw [hgot] at hread ⊢
      dsimp only at hread
      have herror : (∀ bs, got ≠ .data bs) → content src = content rest ∧
          rest.length < src.length := hread.error
      cases got with
      | interrupted =>
        -- the read is made again
        obtain ⟨hsame, hlt⟩ := herror fun bs h => by cases h
        obtain ⟨hsuffix, hspec⟩ := ih rest.length (by omega) n rest rfl
        refine ⟨hsuffix.trans hread.suffix, ?_⟩
        dsimp only at hspec ⊢
        revert hspec
        cases (readExact n rest).1 with
        | done bs =>
          rintro ⟨hbytes, hcount, hle⟩
          exact ⟨hsame.trans hbytes, hcount, by omega⟩
        | eof =>
          intro hend
          rw [ExactSpec, hsame]
          exact hend
        | failed =>
          intro hnot hcalm
          exact hnot (hcalm.suffix hread.suffix)
      | timedOut => exact ⟨hread.suffix, fun hcalm => hcalm.1 (hread.timedOut rfl)⟩
      | failed => exact ⟨hread.suffix, fun hcalm => hcalm.2 (hread.failed rfl)⟩
      | data bs =>
        obtain ⟨hbytes, hle, hcount, hend⟩ := hread.data bs rfl
        cases bs with
        | nil =>
          refine ⟨hread.suffix, ?_⟩
          rw [ExactSpec, hend rfl (Nat.pos_of_ne_zero hn)]
          exact Nat.pos_of_ne_zero hn
        | cons b bs =>
          -- the rest of it comes from the next reads
          rw [List.length_cons] at hle hcount
          obtain ⟨hsuffix, hspec⟩ := ih rest.length (by omega) (n - (b :: bs).length) rest rfl
          dsimp only
          obtain ⟨e, last, hmore⟩ : ∃ e last, readExact (n - (b :: bs).length) rest = (e, last) :=
            ⟨_, _, rfl⟩
          rw [hmore] at hsuffix hspec ⊢
          dsimp only at hsuffix hspec
          cases e with
          | done more =>
            obtain ⟨hmoreBytes, hmoreCount, hmoreLe⟩ := hspec
            rw [List.length_cons] at hmoreCount hmoreLe
            refine ⟨hsuffix.trans hread.suffix, ?_, ?_, ?_⟩
            · rw [hbytes, hmoreBytes, List.append_assoc]
            · rw [List.length_append, List.length_cons]
              omega
            · dsimp only
              omega
          | eof =>
            refine ⟨hsuffix.trans hread.suffix, ?_⟩
            rw [ExactSpec] at hspec ⊢
            rw [hbytes, List.length_append]
            omega
          | failed =>
            exact ⟨hsuffix.trans hread.suffix, fun hcalm => hspec (hcalm.suffix hread.suffix)⟩

theorem readExact_done {n : Nat} {src rest : Source α} {bs : List α}
    (h : readExact n src = (.done bs, rest)) :
    content src = bs ++ content rest ∧ bs.length = n ∧ rest <:+ src ∧
    rest.length + n ≤ src.length := by
  obtain ⟨hsuffix, hspec⟩ := readExact_spec n src
  rw [h] at hsuffix hspec
  exact ⟨hspec.1, hspec.2.1, hsuffix, hspec.2.2⟩

/-- **On a calm source `readExact` takes what comes first**, as long as there is enough. -/
theorem readExact_calm {n : Nat} {src : Source α} (hcalm : src.Calm) {bs tail : List α}
    (hbytes : content src = bs ++ tail) (hn : bs.length = n) :
    ∃ rest, readExact n src = (.done bs, rest) ∧ content rest = tail ∧ rest <:+ src := by
  obtain ⟨e, rest, he⟩ : ∃ e rest, readExact n src = (e, rest) := ⟨_, _, rfl⟩
  obtain ⟨hsuffix, hspec⟩ := readExact_spec n src
  rw [he] at hsuffix hspec
  cases e with
  | done cs =>
    obtain ⟨hcs, hlen, -⟩ := hspec
    obtain ⟨rfl, htail⟩ := List.append_inj (hbytes.symm.trans hcs) (hn.trans hlen.symm)
    exact ⟨rest, he, htail.symm, hsuffix⟩
  | eof =>
    have hshort : (content src).length < n := hspec
    rw [hbytes, List.length_append] at hshort
    omega
  | failed => exact absurd hcalm hspec

/-- Where too little is left, it finds the end of the stream. -/
theorem readExact_short {n : Nat} {src : Source α} (hcalm : src.Calm)
    (hshort : (content src).length < n) :
    (readExact n src).1 = .eof := by
  obtain ⟨e, rest, he⟩ : ∃ e rest, readExact n src = (e, rest) := ⟨_, _, rfl⟩
  obtain ⟨-, hspec⟩ := readExact_spec n src
  rw [he] at hspec ⊢
  cases e with
  | done bs =>
    have hbytes := congrArg List.length hspec.1
    rw [List.length_append, hspec.2.1] at hbytes
    omega
  | eof => rfl
  | failed => exact absurd hcalm hspec

/-! ## Reading until everything is there or a stop is asked for -/

/-- `readExact` with a look at the flag before every read. -/
def readExactUntil (stop : Stop) (n : Nat) (src : Source α) : Exact α × Source α × Stop :=
  if n = 0 then (.done [], src, stop)
  else if stop.look.1 then (.failed, src, stop.look.2)
  else match _hr : read n src with
    | (.interrupted, rest) => readExactUntil stop.look.2 n rest
    | (.data [], rest) => (.eof, rest, stop.look.2)
    | (.data (b :: bs), rest) => match readExactUntil stop.look.2 (n - (b :: bs).length) rest with
      | (.done more, rest, stop) => (.done (b :: bs ++ more), rest, stop)
      | (e, rest, stop) => (e, rest, stop)
    | (.timedOut, rest) => (.failed, rest, stop.look.2)
    | (.failed, rest) => (.failed, rest, stop.look.2)
termination_by src.length
decreasing_by
  · have hread := read_spec n src
    rw [_hr] at hread
    exact (hread.error fun bs h => by cases h).2
  · have hread := read_spec n src
    rw [_hr] at hread
    exact Nat.lt_of_lt_of_le (Nat.lt_add_of_pos_right (Nat.succ_pos _)) (hread.data _ rfl).2.2.1

theorem readExactUntil_step {stop : Stop} {n : Nat} (hn : n ≠ 0) (hstop : stop.look.1 = false)
    (src : Source α) :
    readExactUntil stop n src = match read n src with
      | (.interrupted, rest) => readExactUntil stop.look.2 n rest
      | (.data [], rest) => (.eof, rest, stop.look.2)
      | (.data (b :: bs), rest) => match readExactUntil stop.look.2 (n - (b :: bs).length) rest with
        | (.done more, rest, stop) => (.done (b :: bs ++ more), rest, stop)
        | (e, rest, stop) => (e, rest, stop)
      | (.timedOut, rest) => (.failed, rest, stop.look.2)
      | (.failed, rest) => (.failed, rest, stop.look.2) := by
  rw [readExactUntil, if_neg hn, if_neg (by rw [hstop]; exact Bool.false_ne_true)]
  split <;> rename_i h <;> rw [h]

/-- **It is `readExact`, unless it finds the flag set**; then it has taken less than `n`. -/
theorem readExactUntil_eq (stop : Stop) (n : Nat) (src : Source α) :
    ∃ stop', readExactUntil stop n src = ((readExact n src).1, (readExact n src).2, stop') ∨
      ∃ bs rest, readExactUntil stop n src = (.failed, rest, stop') ∧ stop'.Asked ∧
        content src = bs ++ content rest ∧ bs.length < n ∧ rest <:+ src := by
  induction hlen : src.length using Nat.strong_induction_on generalizing stop n src with
  | _ len ih =>
    by_cases hn : n = 0
    · exact ⟨stop, .inl (by rw [readExactUntil, readExact, if_pos hn, if_pos hn])⟩
    · by_cases hstop : stop.look.1 = true
      · refine ⟨stop.look.2,
          .inr ⟨[], src, ?_, Stop.look_set hstop, rfl, Nat.pos_of_ne_zero hn, List.suffix_rfl⟩⟩
        rw [readExactUntil, if_neg hn, if_pos hstop]
      · have hread := read_spec n src
        rw [readExactUntil_step hn (Bool.eq_false_iff.mpr hstop), readExact_step hn]
        obtain ⟨got, rest, hgot⟩ : ∃ got rest, read n src = (got, rest) := ⟨_, _, rfl⟩
        rw [hgot] at hread ⊢
        dsimp only at hread ⊢
        cases got with
        | interrupted =>
          -- the read is made again
          obtain ⟨hsame, hlt⟩ := hread.error fun bs h => by cases h
          obtain ⟨stop', hplain | ⟨bs, last, hset, hasked, hbytes, hless, hsuffix⟩⟩ :=
            ih rest.length (by omega) stop.look.2 n rest rfl
          · exact ⟨stop', .inl hplain⟩
          · exact ⟨stop',
              .inr ⟨bs, last, hset, hasked, hsame.trans hbytes, hless, hsuffix.trans hread.suffix⟩⟩
        | timedOut | failed => exact ⟨stop.look.2, .inl rfl⟩
        | data bs =>
          cases bs with
          | nil => exact ⟨stop.look.2, .inl rfl⟩
          | cons b bs =>
            obtain ⟨hbytes, hle, hcount, -⟩ := hread.data _ rfl
            rw [List.length_cons] at hcount
            obtain ⟨stop', hplain | ⟨more, last, hset, hasked, hmore, hless, hsuffix⟩⟩ :=
              ih rest.length (by omega) stop.look.2 (n - (b :: bs).length) rest rfl
            · refine ⟨stop', .inl ?_⟩
              dsimp only
              rw [hplain]
              obtain ⟨e, last, he⟩ : ∃ e last, readExact (n - (b :: bs).length) rest = (e, last) :=
                ⟨_, _, rfl⟩
              rw [he]
              cases e <;> rfl
            · refine ⟨stop',
                .inr ⟨b :: bs ++ more, last, ?_, hasked, ?_, ?_, hsuffix.trans hread.suffix⟩⟩
              · dsimp only
                rw [hset]
              · rw [hbytes, hmore, List.append_assoc]
              · rw [List.length_append]
                omega

/-- On a calm source it takes what comes first, or a part of it and the flag is set. -/
theorem readExactUntil_calm (stop : Stop) {n : Nat} {src : Source α} (hcalm : src.Calm)
    {bs tail : List α} (hbytes : content src = bs ++ tail) (hn : bs.length = n) :
    ∃ rest stop', rest <:+ src ∧
      (readExactUntil stop n src = (.done bs, rest, stop') ∧ content rest = tail ∨
        readExactUntil stop n src = (.failed, rest, stop') ∧ stop'.Asked ∧
          ∃ left, left <:+ bs ∧ content rest = left ++ tail) := by
  obtain ⟨stop', hplain | ⟨taken, rest, hset, hasked, htaken, hless, hsuffix⟩⟩ :=
    readExactUntil_eq stop n src
  · obtain ⟨rest, hdone, htail, hsuffix⟩ := readExact_calm hcalm hbytes hn
    rw [hdone] at hplain
    exact ⟨rest, stop', hsuffix, .inl ⟨hplain, htail⟩⟩
  · -- what was taken is the front of what was to be taken
    have htake : taken <+: bs :=
      List.prefix_of_prefix_length_le ⟨_, htaken.symm⟩ ⟨_, hbytes.symm⟩ (by omega)
    obtain ⟨left, rfl⟩ := htake
    rw [List.append_assoc] at hbytes
    exact ⟨rest, stop', hsuffix, .inr ⟨hset, hasked, left, List.suffix_append _ _,
      List.append_cancel_left (htaken.symm.trans hbytes)⟩⟩

/-- A flag that is never set stays so. -/
theorem readExactUntil_never (n : Nat) (src : Source α) :
    (readExactUntil .never n src).2.2 = .never := by
  induction hlen : src.length using Nat.strong_induction_on generalizing n src with
  | _ len ih =>
    by_cases hn : n = 0
    · rw [readExactUntil, if_pos hn]
    · have hread := read_spec n src
      rw [readExactUntil_step hn rfl]
      obtain ⟨got, rest, hgot⟩ : ∃ got rest, read n src = (got, rest) := ⟨_, _, rfl⟩
      rw [hgot] at hread ⊢
      dsimp only at hread ⊢
      cases got with
      | interrupted =>
          exact ih rest.length (by have := (hread.error fun bs h => by cases h).2; omega) n rest rfl
      | timedOut | failed => rfl
      | data bs =>
        cases bs with
        | nil => rfl
        | cons b bs =>
          have hcount := (hread.data _ rfl).2.2.1
          rw [List.length_cons] at hcount
          have hmore := ih rest.length (by omega) (n - (b :: bs).length) rest rfl
          dsimp only [Stop.look]
          obtain ⟨e, last, stop', he⟩ : ∃ e last stop',
              readExactUntil .never (n - (b :: bs).length) rest = (e, last, stop') := ⟨_, _, _, rfl⟩
          rw [he] at hmore ⊢
          cases e <;> exact hmore

/-- Without the read timeout the stream is the same, and no read times out. -/
theorem content_withoutTimeout [DecidableEq α] (src : Source α) :
    content src.withoutTimeout = content src := by
  induction src with
  | nil => rfl
  | cons x src ih =>
    rw [withoutTimeout, List.filter_cons]
    split
    · cases x with
      | byte a => exact congrArg (a :: ·) ih
      | sign x => exact ih
    · rename_i hx
      obtain rfl : x = .sign .timedOut := by simpa using hx
      exact ih

theorem calm_withoutTimeout [DecidableEq α] {src : Source α} (h : .sign .failed ∉ src) :
    src.withoutTimeout.Calm := by
  constructor
  · intro hmem
    exact absurd rfl (of_decide_eq_true (List.mem_filter.mp hmem).2)
  · intro hmem
    exact h (List.mem_filter.mp hmem).1

end Source

/-! ## Writing everything -/

namespace Sink

/-- What a write does: it takes `n + 1` or all it is given, it has to be made again, or it fails. -/
inductive Took where
  | some (n : Nat)
  | again
  | failed
  deriving DecidableEq

/-- Write everything: whether it went well, and what was written.  When nothing more is said, a
    write takes all. -/
def writeAll {α : Type} : List Took → List α → Bool × List α × List Took
  | ts, [] => (true, [], ts)
  | [], bs => (true, bs, [])
  | .some n :: ts, bs =>
    let r := writeAll ts (bs.drop (n + 1))
    (r.1, bs.take (n + 1) ++ r.2.1, r.2.2)
  | .again :: ts, bs => writeAll ts bs
  | .failed :: ts, _ => (false, [], ts)

/-- When it went well, everything is written. -/
theorem writeAll_ok {α : Type} {ts : List Took} {bs : List α} (h : (writeAll ts bs).1 = true) :
    (writeAll ts bs).2.1 = bs := by
  induction ts, bs using writeAll.induct with
  | case1 ts => rw [writeAll]
  | case2 bs hne => rw [writeAll]; exact hne
  | case3 n ts bs hne ih =>
    rw [writeAll] at h ⊢
    · exact (congrArg (bs.take (n + 1) ++ ·) (ih h)).trans (List.take_append_drop _ _)
    all_goals exact hne
  | case4 ts bs hne ih =>
    rw [writeAll] at h ⊢
    · exact ih h
    all_goals exact hne
  | case5 ts bs hne =>
    rw [writeAll] at h
    · exact absurd h Bool.false_ne_true
    · exact hne

/-! ### Until a stop is asked for -/

/-- `writeAll` with a look at the flag before a write is made again. -/
def writeAllUntil {α : Type} : Stop → List Took → List α → Bool × List α × Stop × List Took
  | stop, ts, [] => (true, [], stop, ts)
  | stop, [], bs => (true, bs, stop, [])
  | stop, .some n :: ts, bs =>
    let r := writeAllUntil stop ts (bs.drop (n + 1))
    (r.1, bs.take (n + 1) ++ r.2.1, r.2.2)
  | stop, .again :: ts, bs =>
    if stop.look.1 then (false, [], stop.look.2, ts) else writeAllUntil stop.look.2 ts bs
  | stop, .failed :: ts, _ => (false, [], stop, ts)

theorem writeAllUntil_ok {α : Type} {stop : Stop} {ts : List Took} {bs : List α}
    (h : (writeAllUntil stop ts bs).1 = true) :
    (writeAllUntil stop ts bs).2.1 = bs := by
  induction stop, ts, bs using writeAllUntil.induct with
  | case1 stop ts => rw [writeAllUntil]
  | case2 stop bs hne => rw [writeAllUntil]; exact hne
  | case3 stop n ts bs hne ih =>
    rw [writeAllUntil] at h ⊢
    · exact (congrArg (bs.take (n + 1) ++ ·) (ih h)).trans (List.take_append_drop _ _)
    all_goals exact hne
  | case4 stop ts bs hne hset =>
    rw [writeAllUntil, if_pos hset] at h
    · exact absurd h Bool.false_ne_true
    · exact hne
  | case5 stop ts bs hne hclear ih =>
    rw [writeAllUntil, if_neg hclear] at h ⊢
    · exact ih h
    all_goals exact hne
  | case6 stop ts bs hne =>
    rw [writeAllUntil] at h
    · exact absurd h Bool.false_ne_true
    · exact hne

/-- Where no write fails, it goes well or it finds the flag set. -/
theorem writeAllUntil_of_not_failed {α : Type} (stop : Stop) {ts : List Took} (hts : .failed ∉ ts)
    (bs : List α) :
    (writeAllUntil stop ts bs).1 = true ∨ (writeAllUntil stop ts bs).2.2.1.Asked := by
  induction stop, ts, bs using writeAllUntil.induct with
  | case1 stop ts => rw [writeAllUntil]; exact .inl rfl
  | case2 stop bs hne => rw [writeAllUntil]; exacts [.inl rfl, hne]
  | case3 stop n ts bs hne ih =>
    rw [writeAllUntil]
    · exact ih fun hm => hts (List.mem_cons_of_mem _ hm)
    · exact hne
  | case4 stop ts bs hne hset =>
    rw [writeAllUntil, if_pos hset]
    · exact .inr (Stop.look_set hset)
    · exact hne
  | case5 stop ts bs hne hclear ih =>
    rw [writeAllUntil, if_neg hclear]
    · exact ih fun hm => hts (List.mem_cons_of_mem _ hm)
    · exact hne
  | case6 stop ts bs hne => exact absurd List.mem_cons_self hts

theorem writeAllUntil_never {α : Type} (ts : List Took) (bs : List α) :
    (writeAllUntil .never ts bs).2.2.1 = .never := by
  induction ts generalizing bs with
  | nil => cases bs <;> rfl
  | cons t ts ih =>
    match t, bs with
    | _, [] => rw [writeAllUntil]
    | .some n, b :: bs => exact ih _
    | .again, b :: bs => exact ih _
    | .failed, b :: bs => rfl

end Sink

end CdjEmu
