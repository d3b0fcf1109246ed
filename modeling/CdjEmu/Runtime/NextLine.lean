/-
  LINES FROM THE GUEST — `next_line` on a stream that arrives in chunks.

  1. **Program** — one turn of the loop takes what the reader has buffered, up to the newline.  A
     line that grows beyond `LINE_MAX` is given up: nothing of it is held from then on, and it is
     returned empty.  A reader is the chunks that `fill_buf` gives one after the other; none is
     empty before the end of the stream.

  2. **Specification** — the lines are the `pieces` of the stream, each as `Shown` has it: an
     oversize piece is empty, and any other is its decoding by the table of UTF-8 (`Decoded`)
     without the carriage returns at its end.  Neither speaks of chunks, of the buffer or of the
     flag.  `Held` is what the buffer has at some moment, also inside the turn that returns the
     line.

  3. **The crux** — what a turn leaves depends on the begun line alone and not on how it came in:
     the buffer and the `over` flag are `begun p` for the part `p` that has been read
     (`begun_take`).  So a call returns the next piece (`loop_of_newline`, `loop_of_end`), and all
     calls return all pieces.

  4. **Bridge** — the loop ends since a turn that goes on leaves a chunk less in the reader.  For
     the bound on the memory every turn is looked at, also the one that returns: before the
     newline's part is taken the buffer may hold a whole line, and with it at most one chunk more
     than the limit.
-/
import CdjEmu.Lib.Lossy
import CdjEmu.Lib.Split
import CdjEmu.Lib.Text

namespace CdjEmu.Runtime.NextLine

open Text

/-! ## The program -/

/-- `LINE_MAX`. -/
def lineMax : Nat := 64 * 1024

/-- What `fill_buf` gives. -/
abbrev Chunk := { c : Bytes // c ≠ [] }

/-- The octets that a reader still gives. -/
def stream (reader : List Chunk) : Bytes := (reader.map Subtype.val).flatten

/-- A call under way. -/
structure Reading where
  buf : Bytes
  long : Bool
  reader : List Chunk

/-- A call begins. -/
def Reading.start (reader : List Chunk) : Reading := ⟨[], false, reader⟩

/-- `consume`: what is left of a chunk comes next. -/
def consume (used : Nat) (chunk : Chunk) (rest : List Chunk) : List Chunk :=
  if h : chunk.val.drop used = [] then rest else ⟨chunk.val.drop used, h⟩ :: rest

/-- `from_utf8_lossy` and `trim_end_matches('\r')`. -/
def decode (buf : Bytes) : Bytes := (lossy buf).rdropWhile (· = 13)

/-- A part of the line is taken: a line that is too long is given up. -/
def Reading.take (r : Reading) (part : Bytes) (reader : List Chunk) : Reading :=
  if r.long = true ∨
  lineMax < r.buf.length + part.length then ⟨[], true, reader⟩ else ⟨r.buf ++ part, r.long, reader⟩

/-- Where the chunk has its first newline. -/
def Chunk.stop (chunk : Chunk) : Option Nat := chunk.val.findIdx? (· = newline)

/-- A turn up to its last test: what the chunk has of the line is taken, and consumed. -/
def Reading.grown (r : Reading) (chunk : Chunk) (rest : List Chunk) : Reading :=
  r.take (chunk.val.take (chunk.stop.getD chunk.val.length))
    (consume (chunk.stop.elim chunk.val.length (· + 1)) chunk rest)

/-- One turn of the loop: it goes on, or returns a line and leaves the rest of the stream. -/
def Reading.turn (r : Reading) : Reading ⊕ Option Bytes × List Chunk :=
  match r.reader with
  | [] => .inr (if r.buf = [] ∧ r.long = false then none else some (decode r.buf), [])
  | chunk :: rest =>
    let r := r.grown chunk rest
    if chunk.stop.isSome then .inr (some (decode r.buf), r.reader) else .inl r

/-- Taking a part leaves the reader where it is. -/
theorem take_reader (r : Reading) (part : Bytes) (reader : List Chunk) :
    (r.take part reader).reader = reader := by
  unfold Reading.take
  split <;> rfl

/-- A chunk with a newline gives its front. -/
theorem grown_of_stop {chunk : Chunk} {i : Nat} (h : chunk.stop = some i) (r : Reading)
    (rest : List Chunk) :
    r.grown chunk rest = r.take (chunk.val.take i) (consume (i + 1) chunk rest) := by
  rw [Reading.grown, h]
  rfl

/-- A chunk that is consumed as a whole is gone. -/
theorem consume_all (chunk : Chunk) (rest : List Chunk) :
    consume chunk.val.length chunk rest = rest :=
  dif_pos List.drop_length

/-- A chunk without one is taken as a whole. -/
theorem grown_of_none {chunk : Chunk} (h : chunk.stop = none) (r : Reading) (rest : List Chunk) :
    r.grown chunk rest = r.take chunk.val rest := by
  rw [Reading.grown, h]
  show r.take (chunk.val.take chunk.val.length) (consume chunk.val.length chunk rest) = _
  rw [consume_all, List.take_length]

/-- A turn that goes on has taken a chunk. -/
theorem Reading.turn_shorter {r r' : Reading} (h : r.turn = .inl r') :
    r'.reader.length < r.reader.length := by
  unfold Reading.turn at h
  split at h
  · cases h
  · rename_i chunk rest hr
    dsimp only at h
    split at h
    · cases h
    · rename_i hstop
      rw [Option.not_isSome_iff_eq_none] at hstop
      obtain rfl := Sum.inl.inj h
      rw [grown_of_none hstop, take_reader, hr]
      exact Nat.lt_succ_self _

/-- The turns of `next_line`. -/
def loop (r : Reading) : Option Bytes × List Chunk :=
  match h : r.turn with
  | .inl r' => loop r'
  | .inr result => result
  termination_by r.reader.length
  decreasing_by exact Reading.turn_shorter h

/-- The next line, and what the reader gives after it. -/
def nextLine (reader : List Chunk) : Option Bytes × List Chunk := loop (.start reader)

/-! ## The begun line -/

/-- The buffer and the flag when `p` of the line has been read. -/
def begun (p : Bytes) (reader : List Chunk) : Reading :=
  if lineMax < p.length then ⟨[], true, reader⟩ else ⟨p, false, reader⟩

/-- What the loop returns for a line. -/
def returned (line : Bytes) : Bytes := decode (if lineMax < line.length then [] else line)

/-- What has been read of a line is what would be returned of it. -/
theorem begun_buf (p : Bytes) (reader : List Chunk) : decode (begun p reader).buf = returned p := by
  unfold begun returned
  split <;> rfl

theorem begun_reader (p : Bytes) (reader : List Chunk) : (begun p reader).reader = reader := by
  unfold begun
  split <;> rfl

/-- **One more part** is read: what is held depends on the whole of the begun line alone. -/
theorem begun_take (p part : Bytes) (reader reader' : List Chunk) :
    (begun p reader).take part reader' = begun (p ++ part) reader' := by
  unfold begun Reading.take
  rw [List.length_append]
  by_cases hp : lineMax < p.length
  · rw [if_pos hp, if_pos (Or.inl rfl), if_pos (by omega)]
  · rw [if_neg hp]
    by_cases hall : lineMax < p.length + part.length
    · rw [if_pos (Or.inr hall), if_pos hall]
    · rw [if_neg (by simpa using hall), if_neg hall]

theorem findIdx?_of_notMem {l : Bytes} (h : newline ∉ l) : l.findIdx? (· = newline) = none := by
  rw [List.findIdx?_eq_none_iff]
  intro c hc
  apply decide_eq_false
  rintro rfl
  exact h hc

/-- A turn at a chunk without a newline goes on. -/
theorem turn_of_notMem {p : Bytes} {chunk : Chunk} {rest : List Chunk} (h : newline ∉ chunk.val) :
    (begun p (chunk :: rest)).turn = .inl (begun (p ++ chunk.val) rest) := by
  have hstop : chunk.stop = none := findIdx?_of_notMem h
  rw [Reading.turn, begun_reader]
  dsimp only
  rw [hstop, grown_of_none hstop, begun_take]
  rfl

/-- One at a chunk with a newline returns the line. -/
theorem turn_of_mem {p l t : Bytes} {chunk : Chunk} {rest : List Chunk} (hl : newline ∉ l)
    (h : chunk.val = l ++ newline :: t) :
    ∃ reader, (begun p (chunk :: rest)).turn = .inr (some (returned (p ++ l)), reader) ∧
      stream reader = t ++ stream rest := by
  have hstop : chunk.stop = some l.length := by
    rw [Chunk.stop, h, List.findIdx?_append, findIdx?_of_notMem hl]
    simp [List.findIdx?_cons]
  have hpart : chunk.val.take l.length = l := by rw [h, List.take_left]
  have htail : chunk.val.drop (l.length + 1) = t := by
    rw [h, ← List.drop_drop, List.drop_left]
    rfl
  refine ⟨consume (l.length + 1) chunk rest, ?_, ?_⟩
  · rw [Reading.turn, begun_reader]
    dsimp only
    rw [hstop, grown_of_stop hstop, take_reader, hpart, begun_take, begun_buf]
    rfl
  · unfold consume
    split
    · rename_i hnil
      rw [htail] at hnil
      rw [hnil]
      rfl
    · show (chunk.val.drop (l.length + 1)) ++ stream rest = _
      rw [htail]

/-- At the end the rest is returned, if there is any. -/
theorem turn_of_nil (p : Bytes) :
    (begun p []).turn = .inr (if p = [] then none else some (returned p), []) := by
  unfold begun
  split
  · rename_i hover
    have hne : p ≠ [] := by
      rintro rfl
      cases hover
    rw [if_neg hne, returned, if_pos hover]
    rfl
  · rename_i hover
    rw [returned, if_neg hover]
    show Sum.inr (if p = [] ∧ false = false then none else some (decode p), []) = _
    simp

/-! ## One call -/

theorem loop_inl {r r' : Reading} (h : r.turn = .inl r') : loop r = loop r' := by
  rw [loop]
  split
  · rename_i r'' h'
    cases h.symm.trans h'
    rfl
  · rename_i result h'
    cases h.symm.trans h'

theorem loop_inr {r : Reading} {result : Option Bytes × List Chunk} (h : r.turn = .inr result) :
    loop r = result := by
  rw [loop]
  split
  · rename_i r' h'
    cases h.symm.trans h'
  · rename_i result' h'
    cases h.symm.trans h'
    rfl

/-- The stream is its chunks. -/
theorem stream_cons (chunk : Chunk) (rest : List Chunk) :
    stream (chunk :: rest) = chunk.val ++ stream rest := rfl

/-- A newline is ahead: the line up to it is returned. -/
theorem loop_of_newline {p l t : Bytes} {reader : List Chunk} (hl : newline ∉ l)
    (h : stream reader = l ++ newline :: t) :
    ∃ reader', loop (begun p reader) = (some (returned (p ++ l)), reader') ∧
    stream reader' = t := by
  induction reader generalizing p l with
  | nil => exact absurd h.symm (by simp [stream])
  | cons chunk rest ih =>
    rw [stream_cons] at h
    rcases List.append_eq_append_iff.mp h with ⟨l', rfl, hrest⟩ | ⟨t', hchunk, ht⟩
    · -- the chunk is a part of the line
      rw [List.mem_append, not_or] at hl
      obtain ⟨reader', hloop, hstream⟩ := ih (p := p ++ chunk.val) hl.2 hrest
      refine ⟨reader', ?_, hstream⟩
      rw [loop_inl (turn_of_notMem hl.1), hloop, List.append_assoc]
    · cases t' with
      | nil =>
        -- the line ends with the chunk, and the newline comes with the next
        rw [List.append_nil] at hchunk
        rw [List.nil_append] at ht
        obtain ⟨reader', hloop, hstream⟩ :=
          ih (p := p ++ chunk.val) (l := []) List.not_mem_nil ht.symm
        refine ⟨reader', ?_, hstream⟩
        rw [loop_inl (turn_of_notMem (hchunk ▸ hl)), hloop, List.append_nil, hchunk]
      | cons c t' =>
        obtain ⟨rfl, ht'⟩ := List.cons.inj ht
        obtain ⟨reader', hturn, hstream⟩ := @turn_of_mem p _ _ _ rest hl hchunk
        exact ⟨reader', loop_inr hturn, hstream.trans ht'.symm⟩

/-- No newline is ahead: what is left is the last line, if it is not empty. -/
theorem loop_of_end {p : Bytes} {reader : List Chunk} (h : newline ∉ stream reader) :
    loop (begun p reader) =
      (if p ++ stream reader = [] then none else some (returned (p ++ stream reader)), []) := by
  induction reader generalizing p with
  | nil =>
    rw [loop_inr (turn_of_nil p)]
    show _ = (if p ++ [] = [] then none else some (returned (p ++ [])), [])
    rw [List.append_nil]
  | cons chunk rest ih =>
    rw [stream_cons, List.mem_append, not_or] at h
    rw [loop_inl (turn_of_notMem h.1), ih h.2, stream_cons, List.append_assoc]

theorem start_eq (reader : List Chunk) : Reading.start reader = begun [] reader := rfl

/-- A line that was returned has taken something off the stream. -/
theorem nextLine_shorter {reader reader' : List Chunk} {line : Bytes}
    (h : nextLine reader = (some line, reader')) :
    (stream reader').length < (stream reader).length := by
  rw [nextLine, start_eq] at h
  by_cases hmem : newline ∈ stream reader
  · obtain ⟨l, t, heq, hl⟩ := List.append_of_mem hmem |>.elim fun _ _ =>
      List.eq_append_cons_of_mem hmem
    obtain ⟨reader'', hloop, hstream⟩ := loop_of_newline (p := []) hl heq
    obtain ⟨-, rfl⟩ := Prod.mk.inj (hloop.symm.trans h)
    rw [hstream, heq, List.length_append, List.length_cons]
    omega
  · rw [loop_of_end hmem, List.nil_append] at h
    split at h
    · cases h
    · rename_i hne
      obtain ⟨-, rfl⟩ := Prod.mk.inj h
      exact List.length_pos_iff.mpr hne

/-! ## All calls -/

/-- `while let Ok(Some(line)) = next_line(..)`: the lines of all calls. -/
def readLines (reader : List Chunk) : List Bytes :=
  match h : nextLine reader with
  | (none, _) => []
  | (some line, reader') => line :: readLines reader'
  termination_by (stream reader).length
  decreasing_by exact nextLine_shorter h

/-- The pieces of a stream between its newlines, but for an empty last one. -/
def pieces (s : Bytes) : List Bytes :=
  (s.splitOn newline).dropLast ++ ((s.splitOn newline).getLast?.filter (· ≠ [])).toList

/-- `Shown line t` — `t` is how the line is to be returned: nothing of an oversize one, else its
    lossy decoding without the carriage returns at its end. -/
structure Shown (line t : Bytes) : Prop where
  long : lineMax < line.length → t = []
  decoded : line.length ≤ lineMax → ∃ k, Decoded line (t ++ List.replicate k 13)
  bare : t.getLast? ≠ some 13

/-- A moment of some call while the stream of `reader` is read: between two turns. -/
inductive Moment (reader : List Chunk) : Reading → Prop
  | start : Moment reader (.start reader)
  | turn {r r' : Reading} : Moment reader r → r.turn = .inl r' → Moment reader r'
  | next {r : Reading} {line : Bytes} {rest : List Chunk} :
    Moment reader r → r.turn = .inr (some line, rest) → Moment reader (.start rest)

/-- What the buffer has at some moment, between two turns or inside one. -/
inductive Held (reader : List Chunk) : Bytes → Prop
  | between {r : Reading} : Moment reader r → Held reader r.buf
  | inside {r : Reading} {chunk : Chunk} {rest : List Chunk} :
    Moment reader r → r.reader = chunk :: rest → Held reader (r.grown chunk rest).buf

/-- The lines of a stream: first the one up to its newline. -/
theorem pieces_line {l t : Bytes} (hl : newline ∉ l) :
    pieces (l ++ newline :: t) = l :: pieces t := by
  obtain ⟨q, qs, hq⟩ := List.exists_cons_of_ne_nil (splitOn_ne_nil newline t)
  rw [pieces, pieces, splitOn_append_cons hl, hq, List.getLast?_cons_cons]
  rfl

/-- What has no newline is one line, if it is anything. -/
theorem pieces_end {s : Bytes} (h : newline ∉ s) : pieces s = if s = [] then [] else [s] := by
  have hone : s.splitOn newline = [s] := splitOn_of_notMem h
  rw [pieces, hone]
  show [] ++ (Option.filter (· ≠ []) (some s)).toList = _
  by_cases hs : s = []
  · simp [hs]
  · simp [hs]

/-- Reading ends with the stream. -/
theorem readLines_none {reader reader' : List Chunk} (h : nextLine reader = (none, reader')) :
    readLines reader = [] := by
  rw [readLines]
  split
  · rfl
  · rename_i h'
    cases h.symm.trans h'

/-- And goes on behind a line. -/
theorem readLines_some {reader reader' : List Chunk} {line : Bytes}
    (h : nextLine reader = (some line, reader')) :
    readLines reader = line :: readLines reader' := by
  rw [readLines]
  split
  · rename_i h'
    cases h.symm.trans h'
  · rename_i h'
    cases h.symm.trans h'
    rfl

/-- The lines read are those of the stream. -/
theorem readLines_eq (reader : List Chunk) :
    readLines reader = (pieces (stream reader)).map returned := by
  induction hn : (stream reader).length using Nat.strong_induction_on generalizing reader with
  | _ n ih =>
    by_cases hmem : newline ∈ stream reader
    · obtain ⟨l, t, heq, hl⟩ := List.eq_append_cons_of_mem hmem
      obtain ⟨reader', hloop, hstream⟩ := loop_of_newline (p := []) hl heq
      have hshort := @nextLine_shorter reader _ _ hloop
      rw [readLines_some hloop, ih _ (hn ▸ hshort) reader' rfl, hstream, heq, pieces_line hl]
      rfl
    · have hloop := loop_of_end (p := []) hmem
      rw [List.nil_append] at hloop
      rw [pieces_end hmem]
      split at hloop
      · rename_i hnil
        rw [readLines_none hloop, if_pos hnil]
        rfl
      · rename_i hne
        have hempty : readLines [] = [] :=
          readLines_none (show nextLine [] = (none, []) from loop_inr rfl)
        rw [readLines_some hloop, if_neg hne, hempty]
        rfl

/-- What a turn has taken is no more than `LINE_MAX` octets, whether the
    line ends with it or not. -/
theorem take_held (r : Reading) (part : Bytes) (reader : List Chunk) :
    (r.take part reader).buf.length ≤ lineMax := by
  unfold Reading.take
  split
  · exact Nat.zero_le _
  · rename_i hfits
    rw [not_or] at hfits
    rw [List.length_append]
    omega

/-- No turn that goes on holds more than the limit. -/
theorem turn_held {r r' : Reading} (h : r.turn = .inl r') : r'.buf.length ≤ lineMax := by
  unfold Reading.turn at h
  split at h
  · cases h
  · dsimp only at h
    split at h
    · cases h
    · obtain rfl := Sum.inl.inj h
      exact take_held _ _ _

/-- So at no moment is there more in the buffer. -/
theorem Moment.held {reader : List Chunk} {r : Reading} (h : Moment reader r) :
    r.buf.length ≤ lineMax := by
  cases h with
  | start => exact Nat.zero_le _
  | turn _ hturn => exact turn_held hturn
  | next _ _ => exact Nat.zero_le _

/-- Dropping the carriage returns at the end leaves none there. -/
theorem rdropWhile_cr (t : Bytes) :
    ∃ k, t = t.rdropWhile (· = 13) ++ List.replicate k 13 ∧
    (t.rdropWhile (· = 13)).getLast? ≠ some 13 := by
  induction t using List.reverseRecOn with
  | nil => exact ⟨0, rfl, nofun⟩
  | append_singleton t c ih =>
    rw [List.rdropWhile_concat]
    split
    · rename_i hc
      obtain ⟨k, ht, hlast⟩ := ih
      obtain rfl : c = 13 := of_decide_eq_true hc
      refine ⟨k + 1, ?_, hlast⟩
      rw [List.replicate_succ', ← List.append_assoc, ← ht]
    · rename_i hc
      refine ⟨0, (List.append_nil _).symm, ?_⟩
      rw [List.getLast?_concat]
      rintro ⟨⟩
      exact hc rfl

/-- What is returned shows the line. -/
theorem returned_shown (line : Bytes) : Shown line (returned line) := by
  unfold returned decode
  by_cases hlong : lineMax < line.length
  · rw [if_pos hlong]
    exact ⟨fun _ => rfl, fun h => absurd hlong (Nat.not_lt.mpr h), nofun⟩
  · rw [if_neg hlong]
    obtain ⟨k, hall, hlast⟩ := rdropWhile_cr (lossy line)
    exact ⟨fun h => absurd h hlong, fun _ => ⟨k, decoded_iff.mpr hall.symm⟩, hlast⟩

/-- The specification leaves no choice. -/
theorem Shown.unique {line t t' : Bytes} (h : Shown line t) (h' : Shown line t') : t = t' := by
  have hback : ∀ {u : Bytes} {k : Nat}, u.getLast? ≠ some 13 →
      (u ++ List.replicate k 13).rdropWhile (· = 13) = u := by
    intro u k hu
    induction k with
    | zero =>
      rw [List.replicate_zero, List.append_nil, List.rdropWhile_eq_self_iff]
      intro hne hlast
      exact hu (by rw [List.getLast?_eq_some_getLast hne, of_decide_eq_true hlast])
    | succ k ih =>
        rw [List.replicate_succ', ← List.append_assoc,
          List.rdropWhile_concat_pos _ _ _ (by decide), ih]
  by_cases hlong : lineMax < line.length
  · rw [h.long hlong, h'.long hlong]
  · obtain ⟨k, hk⟩ := h.decoded (Nat.le_of_not_lt hlong)
    obtain ⟨k', hk'⟩ := h'.decoded (Nat.le_of_not_lt hlong)
    rw [← hback h.bare (k := k), hk.unique hk', hback h'.bare]

/-- And nothing else does. -/
theorem shown_iff (reader : List Chunk) (lines : List Bytes) :
    List.Forall₂ Shown (pieces (stream reader)) lines ↔ lines = readLines reader := by
  rw [readLines_eq]
  induction pieces (stream reader) generalizing lines with
  | nil =>
    rw [List.forall₂_nil_left_iff]
    rfl
  | cons line pieces ih =>
    rw [List.forall₂_cons_left_iff]
    constructor
    · rintro ⟨t, rest, ht, hrest, rfl⟩
      rw [ht.unique (returned_shown line), (ih rest).mp hrest]
      rfl
    · rintro rfl
      exact ⟨_, _, returned_shown line, (ih _).mpr rfl, rfl⟩

/-- **`next_line` does not depend on how the octets arrive**: the calls return the pieces of
    the stream as they are to be shown, and nothing else; and at no moment is more than
    `LINE_MAX` of a line held. -/
theorem next_line_reads_pieces (reader : List Chunk) :
    (∀ lines, List.Forall₂ Shown (pieces (stream reader)) lines ↔ lines = readLines reader) ∧
      ∀ buf, Held reader buf → buf.length ≤ lineMax := by
  refine ⟨shown_iff reader, ?_⟩
  intro buf hbuf
  cases hbuf with
  | between hr => exact hr.held
  | inside _ _ => exact take_held _ _ _

end CdjEmu.Runtime.NextLine
