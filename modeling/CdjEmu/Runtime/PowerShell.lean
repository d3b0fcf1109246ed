/-
  THE ELEVATED SCRIPTS — whether a path stays in the literal it is written in.

  `ps_quote` doubles the apostrophes of a text and puts it between two.  PowerShell knows five
  single quotes, each of which opens a literal and each of which closes it, whichever opened it; two
  in a row, whichever they are, stand for the second.

  1. **The lexer** — `readLiteral` reads one literal; `tokens` cuts a whole script into its literals
     and the characters between them.  Whatever the tokens between literals are, they are made of
     those characters.

  2. **The length of what is read** (`weight`) — a token tells how long its text was.  A text with
     one of the other four quotes in it comes out of `ps_quote` too short for the literal it is
     meant to be, so it is read as something else.

  3. **Templates** — a script is fixed texts and places for values (`Piece`).  It is cut as the
     template says, one literal a value, just if no value has one of the other four quotes
     (`tokens_render_iff`).

  4. **The command line** — the script goes to PowerShell in base64 of its 16-bit units
     (`Runtime/EncodedCommand`), so that nothing in front of PowerShell's own lexer reads it: the
     last word of the line decodes to the script, whatever is in it.

  The values are the user's SID, the disk, the volumes, the image's path and the file for the error;
  of these the paths may hold any character.  `Plain` is the condition on each: none of the four
  typographic quotes.
-/
import CdjEmu.Runtime.EncodedCommand

namespace CdjEmu.Elevate

open Chars

/-! ## The scripts -/

/-- U+0027, the quote that `ps_quote` writes and doubles. -/
def apostrophe : Char := Char.ofNat 0x27

/-- `ps_quote`. -/
def psQuote (s : Chars) : Chars :=
  apostrophe :: (s.flatMap fun c => if c = apostrophe then [apostrophe, apostrophe] else [c]) ++
    [apostrophe]

/-! The texts of `grant_script` between its values. -/

/-- The script of `grant_raw_disk` up to the user's SID; each further piece ends where
    the next value stands. -/
def grantSid : Chars :=
  chars "$ErrorActionPreference='Stop';" ++
  chars "$sid=New-Object Security.Principal.SecurityIdentifier("

def grantDisk : Chars :=
  chars ");" ++
  chars "$rights=[Security.AccessControl.FileSystemRights]'Read,Write,Synchronize';" ++
  chars "$open=[Security.AccessControl.FileSystemRights]'ReadPermissions,ChangePermissions';" ++
  chars "function Grant($p)\x7b" ++
  chars "$f=New-Object IO.FileStream($p,'Open',$open,'ReadWrite',8,'None');" ++
  chars "try\x7b$a=$f.GetAccessControl();" ++
  chars "$a.AddAccessRule((New-Object Security.AccessControl.FileSystemAccessRule($sid,$rights,'Allow')));" ++
  chars "$f.SetAccessControl($a)\x7dfinally\x7b$f.Dispose()\x7d\x7d;" ++
  chars "try\x7bGrant "

def grantVolumes : Chars :=
  chars ";" ++
  chars "foreach($v in @("

def grantError : Chars :=
  chars "))\x7btry\x7bGrant $v\x7dcatch\x7b\x7d\x7d\x7d" ++
  chars "catch\x7b[IO.File]::WriteAllText("

def grantEnd : Chars := chars ",$_.Exception.Message);exit 1\x7d"

/-- `grant_raw_disk`: the script that gives the user the raw disk and its volumes,
    with every value quoted. -/
def grantScript (sid disk : Chars) (volumes : List Chars) (errFile : Chars) : Chars :=
  grantSid ++ psQuote sid ++ grantDisk ++ psQuote disk ++ grantVolumes ++
    [','].intercalate (volumes.map psQuote) ++ grantError ++ psQuote errFile ++ grantEnd

/-! Those of `format_script`. -/

/-- The script of `format_image` up to the image's path. -/
def formatImage : Chars := chars "$ErrorActionPreference='Stop';$p="

def formatError : Chars :=
  chars ";$m=$null;" ++
  chars "try\x7b" ++
  chars "$m=Mount-DiskImage -ImagePath $p -StorageType VHDX -NoDriveLetter -PassThru;" ++
  chars "$d=$m|Get-Disk;" ++
  chars "$d|Initialize-Disk -PartitionStyle MBR;" ++
  chars "$d|New-Partition -UseMaximumSize -Offset 1048576 -MbrType IFS|" ++
  chars "Format-Volume -FileSystem exFAT -NewFileSystemLabel REKORDBOX -Confirm:$false|Out-Null\x7d" ++
  chars "catch\x7b[IO.File]::WriteAllText("

def formatEnd : Chars :=
  chars ",$_.Exception.Message);exit 1\x7d" ++
  chars "finally\x7bif($m)\x7bDismount-DiskImage -ImagePath $p|Out-Null\x7d\x7d"

/-- `format_image`: the script that partitions and formats the image. -/
def formatScript (image errFile : Chars) : Chars :=
  formatImage ++ psQuote image ++ formatError ++ psQuote errFile ++ formatEnd

/-! ## PowerShell's lexer -/

/-- A single quote: the apostrophe, or one of U+2018, U+2019, U+201A and U+201B. -/
def isQuote (c : Char) : Bool := c = apostrophe || (0x2018 ≤ c.toNat && c.toNat ≤ 0x201B)

/-- The literal behind its opening quote: its value, and what follows it.  `none`
    where it does not end. -/
def readBody : Chars → Option (Chars × Chars)
  | [] => none
  | [c] => if isQuote c then some ([], []) else none
  | c :: d :: s =>
    if isQuote c then
      if isQuote d then (readBody s).map fun (v, t) => (d :: v, t) else some ([], d :: s)
    else (readBody (d :: s)).map fun (v, t) => (c :: v, t)

/-- One literal. -/
def readLiteral : Chars → Option (Chars × Chars)
  | [] => none
  | c :: s => if isQuote c then readBody s else none

/-- What PowerShell sees of a script: literals with their values, and the characters around them. -/
inductive Token where
  | literal (value : Chars)
  /-- A literal that the script ends in. -/
  | unterminated (value : Chars)
  /-- A character outside the literals. -/
  | plain (c : Char)
  deriving DecidableEq

/-- Outside a literal, in one with what it has so far, or behind a quote in it. -/
inductive Lexer where
  | outside
  | inside (value : Chars)
  | quoted (value : Chars)
  deriving DecidableEq

namespace Lexer

/-- The lexer's state after one character.  A quote inside a literal may close it or be the first of
    a doubled one; the next character tells. -/
def next : Lexer → Char → Lexer
  | outside, c => if isQuote c then inside [] else outside
  | inside v, c => if isQuote c then quoted v else inside (v ++ [c])
  | quoted v, c => if isQuote c then inside (v ++ [c]) else outside

/-- What that character completes. -/
def emits : Lexer → Char → List Token
  | outside, c => if isQuote c then [] else [.plain c]
  | inside _, _ => []
  | quoted v, c => if isQuote c then [] else [.literal v, .plain c]

/-- What the end of the script completes. -/
def finish : Lexer → List Token
  | outside => []
  | inside v => [.unterminated v]
  | quoted v => [.literal v]

/-- The state after a whole text. -/
def run (q : Lexer) (s : Chars) : Lexer := s.foldl next q

/-- What a text shows, from any state of the lexer. -/
def tokens (q : Lexer) : Chars → List Token
  | [] => q.finish
  | c :: s => q.emits c ++ (q.next c).tokens s

end Lexer

/-- The tokens of a script. -/
def tokens (s : Chars) : List Token := Lexer.outside.tokens s

/-- No quote but apostrophes. -/
def Plain (s : Chars) : Prop := ∀ c ∈ s, isQuote c = true → c = apostrophe

/-- No quote comes first. -/
def Open (t : Chars) : Prop := ∀ c ∈ t.head?, isQuote c = false

variable {s t : Chars}

/-! ## Reading a literal -/

theorem isQuote_apostrophe : isQuote apostrophe = true := by
  decide

/-- A character that is no quote belongs to the literal. -/
theorem readBody_cons {c : Char} (h : isQuote c = false) (s : Chars) :
    readBody (c :: s) = (readBody s).map fun (v, t) => (c :: v, t) := by
  rcases s with _ | ⟨d, s⟩
  · simp only [readBody]
    rw [h, if_neg Bool.false_ne_true]
    rfl
  · rw [readBody, h, if_neg Bool.false_ne_true]

/-- A quote with none behind it closes it. -/
theorem readBody_close (h : Open t) : readBody (apostrophe :: t) = some ([], t) := by
  rcases t with _ | ⟨d, t⟩
  · rfl
  · rw [readBody, if_pos isQuote_apostrophe, h d rfl, if_neg Bool.false_ne_true]

/-- A text without the other four quotes is read back. -/
theorem readLiteral_psQuote (h : Plain s) (ht : Open t) :
    readLiteral (psQuote s ++ t) = some (s, t) := by
  show readBody ((s.flatMap fun c => if c = apostrophe then [apostrophe, apostrophe] else [c]) ++
      [apostrophe] ++ t) = _
  rw [List.append_assoc]
  induction s with
  | nil => exact readBody_close ht
  | cons c s ih =>
    have hs := ih fun d hd => h d (List.mem_cons_of_mem _ hd)
    rw [List.flatMap_cons, List.append_assoc]
    by_cases hc : c = apostrophe
    · rw [if_pos hc, List.cons_append, List.singleton_append, readBody, if_pos isQuote_apostrophe,
        if_pos isQuote_apostrophe, hs, hc]
      rfl
    · have hplain : isQuote c = false := Bool.eq_false_iff.mpr fun hq =>
        hc (h c List.mem_cons_self hq)
      rw [if_neg hc, List.singleton_append, readBody_cons hplain, hs]
      rfl

/-! ## The tokens of a script -/

/-- A text that the lexer leaves where it began is cut by itself. -/
theorem Lexer.tokens_append {q : Lexer} (h : q.run s = .outside) (t : Chars) :
    q.tokens (s ++ t) = q.tokens s ++ Elevate.tokens t := by
  induction s generalizing q with
  | nil =>
    have hq : q = .outside := h
    rw [hq]
    rfl
  | cons c s ih =>
    have hnext : (q.next c).run s = .outside := h
    rw [List.cons_append, tokens, tokens, ih hnext, List.append_assoc]

/-- The lexer reads a literal as `readBody` does. -/
theorem Lexer.tokens_inside {v w : Chars} (h : readBody s = some (w, t)) :
    (Lexer.inside v).tokens s = .literal (v ++ w) :: Elevate.tokens t := by
  fun_induction readBody s generalizing v w with
  | case1 => exact absurd h (by simp)
  | case2 c hc =>
    obtain ⟨rfl, rfl⟩ := Prod.mk.inj (Option.some.inj h)
    simp [tokens, Elevate.tokens, emits, next, hc, finish]
  | case3 c hc => exact absurd h (by simp)
  | case4 c d s hc hd ih =>
    obtain ⟨⟨w', t'⟩, hread, heq⟩ := Option.map_eq_some_iff.mp h
    obtain ⟨rfl, rfl⟩ := Prod.mk.inj heq
    simp [tokens, emits, next, hc, hd, ih hread]
  | case5 c d s hc hd =>
    obtain ⟨rfl, rfl⟩ := Prod.mk.inj (Option.some.inj h)
    simp [tokens, Elevate.tokens, emits, next, hc, hd]
  | case6 c d s hc ih =>
    obtain ⟨⟨w', t'⟩, hread, heq⟩ := Option.map_eq_some_iff.mp h
    obtain ⟨rfl, rfl⟩ := Prod.mk.inj heq
    have htail := ih (v := v ++ [c]) hread
    rw [tokens]
    simp [emits, next, hc, htail]

/-- The lexer and the reader of one literal agree. -/
theorem tokens_readLiteral {v : Chars} (h : readLiteral s = some (v, t)) :
    tokens s = .literal v :: tokens t := by
  rcases s with _ | ⟨c, s⟩
  · exact absurd h (by simp [readLiteral])
  · rw [readLiteral] at h
    by_cases hc : isQuote c = true
    · rw [if_pos hc] at h
      unfold tokens
      rw [Lexer.tokens]
      simp only [Lexer.emits, Lexer.next, hc, if_true]
      exact Lexer.tokens_inside h
    · rw [if_neg hc] at h
      exact absurd h (by simp)

/-! ## The length of what is read -/

/-- The quotes of a literal's value were two in the text. -/
def valueWeight (v : Chars) : Nat := v.length + v.countP isQuote

/-- The characters that a token took up, when every quote inside is a doubled apostrophe. -/
def Token.weight : Token → Nat
  | literal v => valueWeight v + 2
  | unterminated v => valueWeight v + 1
  | plain _ => 1

/-- And those that the state still holds. -/
def Lexer.weight : Lexer → Nat
  | outside => 0
  | inside v => valueWeight v + 1
  | quoted v => valueWeight v + 2

/-- The characters behind a list of tokens. -/
def weight (l : List Token) : Nat := (l.map Token.weight).sum

theorem weight_append (l k : List Token) : weight (l ++ k) = weight l + weight k := by
  unfold weight
  rw [List.map_append, List.sum_append]

theorem valueWeight_concat (v : Chars) (c : Char) :
    valueWeight (v ++ [c]) = valueWeight v + if isQuote c then 2 else 1 := by
  unfold valueWeight
  rw [List.length_append, List.countP_append, List.countP_singleton]
  show v.length + 1 + _ = _
  split
  · omega
  · omega

/-- One character. -/
theorem Lexer.weight_step (q : Lexer) (c : Char) :
    Elevate.weight (q.emits c) + (q.next c).weight = q.weight + 1 := by
  rcases Bool.eq_false_or_eq_true (isQuote c) with hc | hc
  · rcases q with _ | v | v
    · simp [emits, next, hc, Elevate.weight, weight, valueWeight]
    · simp [emits, next, hc, Elevate.weight, weight]
    · simp [emits, next, hc, Elevate.weight, weight, valueWeight_concat]
  · rcases q with _ | v | v
    · simp [emits, next, hc, Elevate.weight, weight, Token.weight]
    · simp [emits, next, hc, Elevate.weight, weight, valueWeight_concat]
    · simp [emits, next, hc, Elevate.weight, weight, Token.weight]

/-- No character is lost: the tokens weigh what the text and the state held. -/
theorem Lexer.weight_tokens (q : Lexer) (s : Chars) :
    Elevate.weight (q.tokens s) = q.weight + s.length := by
  induction s generalizing q with
  | nil =>
    rcases q with _ | v | v
    · rfl
    · rfl
    · rfl
  | cons c s ih =>
    have hstep := q.weight_step c
    rw [tokens, weight_append, ih, List.length_cons]
    omega

/-- The tokens of a script are as long as the script. -/
theorem weight_tokens (s : Chars) : weight (tokens s) = s.length := by
  have h := Lexer.outside.weight_tokens s
  rw [Lexer.weight, Nat.zero_add] at h
  exact h

/-- `ps_quote` adds the two quotes and one character for each apostrophe. -/
theorem length_psQuote (s : Chars) :
    (psQuote s).length = s.length + s.countP (· = apostrophe) + 2 := by
  have hbody : (s.flatMap fun c =>
      if c = apostrophe then [apostrophe, apostrophe] else [c]).length =
      s.length + s.countP (· = apostrophe) := by
    induction s with
    | nil => rfl
    | cons c s ih =>
      rw [List.flatMap_cons, List.length_append, ih, List.length_cons, List.countP_cons]
      by_cases hc : c = apostrophe
      · simp [hc]
        omega
      · simp [hc]
        omega
  unfold psQuote
  rw [List.length_append, List.length_cons, hbody]
  rfl

/-- A text has at least as many quotes as apostrophes, and no more just if it has no other quote. -/
theorem countP_apostrophe (s : Chars) :
    s.countP (· = apostrophe) ≤ s.countP isQuote ∧
    (s.countP isQuote ≤ s.countP (· = apostrophe) ↔ Plain s) := by
  induction s with
  | nil => exact ⟨Nat.le_refl _, ⟨fun _ c hc => absurd hc List.not_mem_nil, fun _ => Nat.le_refl _⟩⟩
  | cons c s ih =>
    obtain ⟨hle, hiff⟩ := ih
    have hcons : Plain (c :: s) ↔ (isQuote c = true → c = apostrophe) ∧ Plain s :=
      List.forall_mem_cons
    rw [List.countP_cons, List.countP_cons, hcons, ← hiff]
    by_cases hc : c = apostrophe
    · rw [hc, isQuote_apostrophe]
      simp
      omega
    · by_cases hq : isQuote c = true
      · simp [hc, hq]
        omega
      · simp [hc, hq]
        omega

/-! ## Templates -/

/-- A fixed text, or the place of a value. -/
inductive Piece where
  | text (s : Chars)
  | value (s : Chars)

namespace Piece

/-- A piece of a script as text. -/
def render : Piece → Chars
  | text s => s
  | value s => psQuote s

/-- A value is one literal. -/
def tokens : Piece → List Token
  | text s => Elevate.tokens s
  | value s => [.literal s]

end Piece

def render (pieces : List Piece) : Chars := pieces.flatMap Piece.render

/-- Every literal of the fixed texts ends in them, and no value is followed by a quote. -/
def Sound : List Piece → Prop
  | [] => True
  | .text s :: pieces => Lexer.outside.run s = .outside ∧ Sound pieces
  | .value _ :: pieces => Open (render pieces) ∧ Sound pieces

/-- The values are plain. -/
def AllPlain (pieces : List Piece) : Prop := ∀ s, .value s ∈ pieces → Plain s

/-- A piece's tokens are no shorter than the piece, and no longer just if its value is plain. -/
theorem Piece.weight_tokens (p : Piece) :
    p.render.length ≤ weight p.tokens ∧ (weight p.tokens ≤ p.render.length ↔ AllPlain [p]) := by
  rcases p with s | s
  · have hw : weight (Piece.text s).tokens = (Piece.text s).render.length := Elevate.weight_tokens s
    refine ⟨hw.ge, fun _ v hv => ?_, fun _ => hw.le⟩
    exact absurd hv (by simp)
  · have hw : weight (Piece.value s).tokens = s.length + s.countP isQuote + 2 := rfl
    have hlen : (Piece.value s).render.length = s.length + s.countP (· = apostrophe) + 2 :=
      length_psQuote s
    obtain ⟨hle, hiff⟩ := countP_apostrophe s
    have hall : AllPlain [.value s] ↔ Plain s := by
      constructor
      · intro h
        exact h s List.mem_cons_self
      · intro h v hv
        obtain rfl : v = s := by simpa using hv
        exact h
    rw [hw, hlen, hall, ← hiff]
    omega

/-- Whether all values are plain is decided piece by piece. -/
theorem allPlain_cons (p : Piece) (pieces : List Piece) :
    AllPlain (p :: pieces) ↔ AllPlain [p] ∧ AllPlain pieces := by
  constructor
  · intro h
    refine ⟨fun s hs => h s ?_, fun s hs => h s (List.mem_cons_of_mem _ hs)⟩
    rw [List.mem_singleton] at hs
    rw [hs]
    exact List.mem_cons_self
  · rintro ⟨hp, hpieces⟩ s hs
    rcases List.mem_cons.mp hs with heq | hmem
    · exact hp s (List.mem_singleton.mpr heq)
    · exact hpieces s hmem

/-- And the tokens of a template. -/
theorem weight_pieces (pieces : List Piece) :
    (render pieces).length ≤ weight (pieces.flatMap Piece.tokens) ∧
      (weight (pieces.flatMap Piece.tokens) ≤ (render pieces).length ↔ AllPlain pieces) := by
  induction pieces with
  | nil => exact ⟨Nat.le_refl _, fun _ s hs => absurd hs List.not_mem_nil, fun _ => Nat.le_refl _⟩
  | cons p pieces ih =>
    obtain ⟨hp, hpiff⟩ := p.weight_tokens
    obtain ⟨hle, hiff⟩ := ih
    have hlen : (render (p :: pieces)).length = p.render.length + (render pieces).length := by
      unfold render
      rw [List.flatMap_cons, List.length_append]
    rw [List.flatMap_cons, weight_append, hlen, allPlain_cons, ← hpiff, ← hiff]
    omega

/-- A script is cut as its template says just if the values are plain. -/
theorem tokens_render_iff {pieces : List Piece} (h : Sound pieces) :
    tokens (render pieces) = pieces.flatMap Piece.tokens ↔ AllPlain pieces := by
  constructor
  · intro heq
    rw [← (weight_pieces pieces).2, ← heq, weight_tokens]
  · intro hplain
    induction pieces with
    | nil => rfl
    | cons p pieces ih =>
      obtain ⟨hp, hpieces⟩ := (allPlain_cons p pieces).mp hplain
      show tokens (p.render ++ render pieces) = _
      rw [List.flatMap_cons]
      rcases p with s | s
      · obtain ⟨hclosed, hsound⟩ := h
        show Lexer.outside.tokens (s ++ render pieces) = _
        rw [Lexer.tokens_append hclosed, ih hsound hpieces]
        rfl
      · obtain ⟨hopen, hsound⟩ := h
        have hread := readLiteral_psQuote (hp s List.mem_cons_self) hopen
        show tokens (psQuote s ++ render pieces) = _
        rw [tokens_readLiteral hread, ih hsound hpieces]
        rfl

/-! ## The two scripts -/

/-- The volumes' places, with commas between them. -/
def volumePieces (volumes : List Chars) : List Piece :=
  (volumes.map Piece.value).intersperse (.text [','])

/-- The grant script cut into its own text and the values. -/
def grantPieces (sid disk : Chars) (volumes : List Chars) (errFile : Chars) : List Piece :=
  [.text grantSid, .value sid, .text grantDisk, .value disk, .text grantVolumes] ++
    volumePieces volumes ++
    [.text grantError, .value errFile, .text grantEnd]

/-- The format script cut likewise. -/
def formatPieces (image errFile : Chars) : List Piece :=
  [.text formatImage, .value image, .text formatError, .value errFile, .text formatEnd]

/-- The literal is read as one of value `s`, and what follows is left. -/
def LiteralHolds (s : Chars) : Prop := ∀ t, Open t → readLiteral (psQuote s ++ t) = some (s, t)

/-- `grant_script` is cut as its template says, with the arguments as the values of its literals. -/
def GrantHolds (sid disk : Chars) (volumes : List Chars) (errFile : Chars) : Prop :=
  tokens (grantScript sid disk volumes errFile) = (grantPieces sid disk volumes errFile).flatMap
    Piece.tokens

/-- PowerShell reads the format script as its own text with the two values as literals. -/
def FormatHolds (image errFile : Chars) : Prop :=
  tokens (formatScript image errFile) = (formatPieces image errFile).flatMap Piece.tokens

variable {sid disk image errFile : Chars} {volumes : List Chars}

theorem render_append (a b : List Piece) : render (a ++ b) = render a ++ render b :=
  List.flatMap_append

theorem render_volumePieces (volumes : List Chars) :
    render (volumePieces volumes) = [','].intercalate (volumes.map psQuote) := by
  unfold volumePieces
  induction volumes with
  | nil => rfl
  | cons v volumes ih =>
    rcases volumes with _ | ⟨w, volumes⟩
    · simp [render, Piece.render, List.intercalate]
    · have hsplit : render ((List.map Piece.value (v :: w :: volumes)).intersperse (.text [','])) =
          psQuote v ++ [','] ++ render
            ((List.map Piece.value (w :: volumes)).intersperse (.text [','])) := by
        simp [render, Piece.render]
      rw [hsplit, ih]
      simp [List.intercalate]

/-- The pieces put together are the script. -/
theorem grantScript_eq :
    grantScript sid disk volumes errFile = render (grantPieces sid disk volumes errFile) := by
  unfold grantScript grantPieces
  rw [render_append, render_append, render_volumePieces]
  simp [render, Piece.render]

theorem formatScript_eq : formatScript image errFile = render (formatPieces image errFile) := by
  unfold formatScript formatPieces
  simp [render, Piece.render]

/-- The volumes, with commas between them, keep the pieces sound. -/
theorem sound_volumePieces {pieces : List Piece} (hopen : Open (render pieces)) (h : Sound pieces)
    (volumes : List Chars) :
    Sound (volumePieces volumes ++ pieces) := by
  unfold volumePieces
  induction volumes with
  | nil => exact h
  | cons v volumes ih =>
    rcases volumes with _ | ⟨w, volumes⟩
    · exact ⟨hopen, h⟩
    · refine ⟨?_, by decide, ih⟩
      intro c hc
      obtain rfl : ',' = c := by simpa [render, Piece.render] using hc
      decide

/-- A text that begins with no quote, with whatever follows it. -/
theorem open_text {c : Char} {s : Chars} (hs : s.head? = some c) (hc : isQuote c = false)
    (pieces : List Piece) :
    Open (render (.text s :: pieces)) := by
  intro d hd
  rcases s with _ | ⟨e, s⟩
  · exact absurd hs (by simp)
  · obtain rfl : e = c := by simpa using hs
    obtain rfl : e = d := by simpa [render, Piece.render] using hd
    exact hc

/-- The source's own text never opens a literal that it does not close. -/
theorem grantPieces_sound : Sound (grantPieces sid disk volumes errFile) := by
  have hend : Sound [.text grantError, .value errFile, .text grantEnd] :=
    ⟨by decide, open_text (c := ',') (by decide) (by decide) _, by decide,
      trivial⟩
  have hvolumes := sound_volumePieces (open_text (c := ')') (by decide) (by decide) _)
      hend volumes
  exact ⟨by decide, open_text (c := ')') (by decide)
    (by decide) _, by decide +kernel,
    open_text (c := ';') (by decide) (by decide) _, by decide, hvolumes⟩

theorem formatPieces_sound : Sound (formatPieces image errFile) :=
  ⟨by decide +kernel, open_text (c := ';') (by decide +kernel) (by decide) _, by decide +kernel,
    open_text (c := ',') (by decide) (by decide) _, by decide, trivial⟩

/-! ## Their values -/

theorem allPlain_text (s : Chars) (pieces : List Piece) :
    AllPlain (.text s :: pieces) ↔ AllPlain pieces := by
  rw [allPlain_cons]
  constructor
  · intro h
    exact h.2
  · intro h
    refine ⟨fun v hv => ?_, h⟩
    exact absurd hv (by simp)

theorem allPlain_value (s : Chars) (pieces : List Piece) :
    AllPlain (.value s :: pieces) ↔ Plain s ∧ AllPlain pieces := by
  rw [allPlain_cons]
  apply and_congr_left'
  constructor
  · intro h
    exact h s List.mem_cons_self
  · intro h v hv
    obtain rfl : v = s := by simpa using hv
    exact h

theorem allPlain_volumePieces (volumes : List Chars) (pieces : List Piece) :
    AllPlain (volumePieces volumes ++ pieces) ↔ (∀ v ∈ volumes, Plain v) ∧ AllPlain pieces := by
  unfold volumePieces
  induction volumes with
  | nil =>
    rw [List.map_nil, List.intersperse_nil, List.nil_append]
    exact ⟨fun h => ⟨fun v hv => absurd hv List.not_mem_nil, h⟩, fun h => h.2⟩
  | cons v volumes ih =>
    rcases volumes with _ | ⟨w, volumes⟩
    · show AllPlain (.value v :: pieces) ↔ _
      rw [allPlain_value, List.forall_mem_singleton]
    · show AllPlain
          (.value v :: .text [','] ::
            ((List.map Piece.value (w :: volumes)).intersperse (.text [',']) ++ pieces)) ↔ _
      rw [allPlain_value, allPlain_text, ih, List.forall_mem_cons (a := v), and_assoc]

theorem allPlain_nil : AllPlain [] := fun _ h => absurd h List.not_mem_nil

/-- The grant script reads as it was meant exactly when no value has a typographic quote. -/
theorem grantHolds_iff :
    GrantHolds sid disk volumes errFile ↔ Plain sid ∧ Plain disk ∧ (∀ v ∈ volumes, Plain v) ∧
    Plain errFile := by
  unfold GrantHolds
  rw [grantScript_eq, tokens_render_iff grantPieces_sound]
  show AllPlain
      (.text grantSid :: .value sid :: .text grantDisk :: .value disk :: .text grantVolumes ::
    (volumePieces volumes ++ [.text grantError, .value errFile, .text grantEnd])) ↔ _
  rw [allPlain_text, allPlain_value, allPlain_text, allPlain_value, allPlain_text,
    allPlain_volumePieces, allPlain_text, allPlain_value, allPlain_text]
  simp only [allPlain_nil, and_true]

/-- The same of the format script. -/
theorem formatHolds_iff : FormatHolds image errFile ↔ Plain image ∧ Plain errFile := by
  unfold FormatHolds
  rw [formatScript_eq, tokens_render_iff formatPieces_sound]
  show AllPlain
      [.text formatImage, .value image, .text formatError, .value errFile, .text formatEnd] ↔ _
  rw [allPlain_text, allPlain_value, allPlain_text, allPlain_value, allPlain_text]
  simp only [allPlain_nil, and_true]

/-- And of one literal alone. -/
theorem literalHolds_iff : LiteralHolds s ↔ Plain s := by
  constructor
  · intro h
    have hread := tokens_readLiteral (h [] fun c hc => absurd hc (by simp))
    rw [← (countP_apostrophe s).2]
    -- the text is as long as the literal that was read from it
    have hlen := congrArg weight hread
    rw [weight_tokens, List.append_nil, length_psQuote] at hlen
    have hw : weight (.literal s :: tokens []) = s.length + s.countP isQuote + 2 := rfl
    omega
  · intro h t ht
    exact readLiteral_psQuote h ht

/-- A text stays in its literal, and the scripts are cut as their templates say, just if no text has
    one of the other four quotes; the command's last word gives the script back in any case. -/
theorem literals_hold_iff (s sid disk image errFile script : Chars) (volumes : List Chars) :
    (LiteralHolds s ↔ Plain s) ∧
    (GrantHolds sid disk volumes errFile ↔ Plain sid ∧ Plain disk ∧ (∀ v ∈ volumes, Plain v) ∧
      Plain errFile) ∧
    (FormatHolds image errFile ↔ Plain image ∧ Plain errFile) ∧
    (decode64 (lastWord (powershellCommand script))).bind Utf16.decodeLe = some script :=
  ⟨literalHolds_iff, grantHolds_iff, formatHolds_iff, decode_powershellCommand script⟩

/-- `U+2019` in a path: the literal ends there, and the rest of the path is script. -/
theorem typographic_quote_leaves : ¬ ∀ s t :
    Chars, Open t → readLiteral (psQuote s ++ t) = some (s, t) := by
  intro h
  have hread := h (chars "C:\\a\u2019;calc") [] fun c hc => absurd hc (by simp)
  exact absurd hread (by decide)

example : readLiteral (psQuote (chars "C:\\a\u2019;calc")) =
    some (chars "C:\\a", chars ";calc'") := by
  decide

end CdjEmu.Elevate
