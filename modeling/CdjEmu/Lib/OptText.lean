/-
  OPTION TEXTS — `name,key=value,key=value`, with `,,` for a comma.

  `pieces` cuts a text at its single commas, a doubled comma standing for one comma, and `readOpt`
  splits every piece at its first `=`.  `writeOpt` puts pieces one behind another and escapes
  NOTHING: it is what a program writes that splices values into such a text.

  When does the reader give back what was spliced in?  Reading keeps count: over the pieces of a
  text, length + 1 + number of commas adds up to the length of the text + 1 (`sum_weight_pieces`),
  while writing adds up length + 1 alone.  So a value with a comma can never be read back, whatever
  the other values are, and the answer is an equivalence (`readOpt_writeOpt_iff`).

  A value may be shown through a decoder first: `Val.path` is spliced in as `lossy`, and is read
  back as it was exactly when it also is valid UTF-8, because cutting a valid text at ASCII octets
  gives valid texts (`valid_of_mem_pieces`).
-/
import CdjEmu.Lib.Text

namespace CdjEmu.OptText

open Text

/-- The character between two options. -/
def comma : UInt8 := 44

/-- The character between a key and its value. -/
def equals : UInt8 := 61

/-- The pieces of a text. -/
def pieces : Bytes → List Bytes
  | [] => [[]]
  | [c] => if c = comma then [[], []] else [[c]]
  | c :: d :: t =>
    if c = comma then
      if d = comma then (pieces t).modifyHead (comma :: ·) else [] :: pieces (d :: t)
    else (pieces (d :: t)).modifyHead (c :: ·)

/-- A key, and the value behind the first `=` if there is one. -/
abbrev Piece := Bytes × Option Bytes

/-- A piece of an option text: the first equals sign ends the key. -/
def splitPiece (p : Bytes) : Piece :=
  match p.dropWhile (· ≠ equals) with
  | [] => (p, none)
  | _ :: value => (p.takeWhile (· ≠ equals), some value)

/-- What a text is read as. -/
def readOpt (t : Bytes) : List Piece := (pieces t).map splitPiece

/-- And as it was written. -/
def Piece.text : Piece → Bytes
  | (key, none) => key
  | (key, some value) => key ++ equals :: value

/-- The text that splices the pieces together. -/
def writeOpt : List Piece → Bytes
  | [] => []
  | [p] => p.text
  | p :: q :: ps => p.text ++ comma :: writeOpt (q :: ps)

/-- An option text is its pieces with commas between them. -/
theorem writeOpt_eq (ps : List Piece) : writeOpt ps = [comma].intercalate (ps.map Piece.text) := by
  fun_induction writeOpt ps with
  | case1 => rfl
  | case2 p => exact List.intercalate_singleton.symm
  | case3 p q ps ih =>
    rw [ih]
    simp only [List.map_cons, List.intercalate_cons_cons, List.append_assoc, List.singleton_append]

/-! ## Cutting -/

/-- There is always a piece. -/
theorem pieces_ne_nil (t : Bytes) : pieces t ≠ [] := by
  fun_induction pieces t with
  | case1 => simp
  | case2 => simp
  | case3 c h => simp
  | case4 t ih => simpa using ih
  | case5 d t hd ih => simp
  | case6 c d t hc ih => simpa using ih

/-- A character that is no comma belongs to the first piece. -/
theorem pieces_cons_of_ne {c : UInt8} (hc : c ≠ comma) (t : Bytes) :
    pieces (c :: t) = (pieces t).modifyHead (c :: ·) := by
  cases t with
  | nil => simp [pieces, hc]
  | cons d t => rw [pieces, if_neg hc]

/-- A single comma ends a piece. -/
theorem pieces_comma {t : Bytes} (ht : t.head? ≠ some comma) :
    pieces (comma :: t) = [] :: pieces t := by
  cases t with
  | nil => rfl
  | cons d t =>
    have hd : d ≠ comma := fun h => ht (by rw [h]; rfl)
    rw [pieces, if_pos rfl, if_neg hd]

/-- A single comma ends a piece. -/
theorem pieces_append_comma {p t : Bytes} (hp : comma ∉ p) (ht : t.head? ≠ some comma) :
    pieces (p ++ comma :: t) = p :: pieces t := by
  induction p with
  | nil => exact pieces_comma ht
  | cons c p ih =>
    rw [List.mem_cons, not_or] at hp
    rw [List.cons_append, pieces_cons_of_ne (Ne.symm hp.1), ih hp.2]
    rfl

/-- Without a comma there is only the one piece. -/
theorem pieces_of_notMem {p : Bytes} (hp : comma ∉ p) : pieces p = [p] := by
  induction p with
  | nil => rfl
  | cons c p ih =>
    rw [List.mem_cons, not_or] at hp
    rw [pieces_cons_of_ne (Ne.symm hp.1), ih hp.2]
    rfl

/-- Pieces without commas are read back from their text. -/
theorem pieces_intercalate {ps : List Bytes} (hne : ps ≠ []) (hempty : ∀ p ∈ ps, p ≠ [])
    (hcomma : ∀ p ∈ ps, comma ∉ p) : pieces ([comma].intercalate ps) = ps := by
  induction ps with
  | nil => exact absurd rfl hne
  | cons p ps ih =>
    have hp := hcomma p List.mem_cons_self
    cases ps with
    | nil =>
      rw [List.intercalate_singleton]
      exact pieces_of_notMem hp
    | cons q ps =>
      have ih := ih (List.cons_ne_nil _ _) (fun r hr => hempty r (List.mem_cons_of_mem _ hr))
        (fun r hr => hcomma r (List.mem_cons_of_mem _ hr))
      -- what follows the comma starts with the next piece, which is not a comma
      have hhead : ([comma].intercalate (q :: ps)).head? ≠ some comma := by
        have hq := hcomma q (List.mem_cons_of_mem _ List.mem_cons_self)
        obtain ⟨c, q', rfl⟩ := List.exists_cons_of_ne_nil
          (hempty q (List.mem_cons_of_mem _ List.mem_cons_self))
        have hc : c ≠ comma := fun h => hq (by rw [h]; exact List.mem_cons_self)
        cases ps with
        | nil =>
          rw [List.intercalate_singleton]
          exact fun h => hc (Option.some_inj.mp h)
        | cons r ps =>
          rw [List.intercalate_cons_cons]
          exact fun h => hc (Option.some_inj.mp h)
      rw [List.intercalate_cons_cons, List.append_assoc, List.singleton_append,
        pieces_append_comma hp hhead, ih]

/-! ## Counting -/

/-- What a piece adds to the count: its octets, the cut behind it, and once
    more every comma in it. -/
def weight (p : Bytes) : Nat := p.length + 1 + p.count comma

theorem sum_weight_modifyHead (c : UInt8) {ps : List Bytes} (h : ps ≠ []) :
    ((ps.modifyHead (c :: ·)).map weight).sum =
      (ps.map weight).sum + 1 + if c = comma then 1 else 0 := by
  obtain ⟨p, ps, rfl⟩ := List.exists_cons_of_ne_nil h
  rw [List.modifyHead_cons, List.map_cons, List.sum_cons, List.map_cons, List.sum_cons,
    weight, weight, List.length_cons, List.count_cons]
  simp only [beq_iff_eq]
  omega

/-- Nothing of a text is lost in its pieces. -/
theorem sum_weight_pieces (t : Bytes) : ((pieces t).map weight).sum = t.length + 1 := by
  fun_induction pieces t with
  | case1 => rfl
  | case2 => rfl
  | case3 c h =>
    rw [List.map_cons, List.map_nil, List.sum_cons, List.sum_nil, weight,
      List.count_eq_zero.mpr (by simpa using Ne.symm h)]
    rfl
  | case4 t ih =>
    rw [sum_weight_modifyHead comma (pieces_ne_nil t), ih, if_pos rfl, List.length_cons,
      List.length_cons]
  | case5 d t hd ih =>
    have hnil : weight [] = 1 := rfl
    simp only [List.map_cons, List.sum_cons, List.length_cons] at ih ⊢
    omega
  | case6 c d t hc ih =>
    rw [sum_weight_modifyHead c (pieces_ne_nil _), ih, if_neg hc]
    rfl

/-- The length of what is written. -/
theorem length_intercalate {ps : List Bytes} (hne : ps ≠ []) :
    ([comma].intercalate ps).length + 1 = (ps.map fun p => p.length + 1).sum := by
  induction ps with
  | nil => exact absurd rfl hne
  | cons p ps ih =>
    cases ps with
    | nil => rw [List.intercalate_singleton]; rfl
    | cons q ps =>
      rw [List.intercalate_cons_cons, List.length_append, List.length_append, List.length_singleton,
        List.map_cons, List.sum_cons, ← ih (List.cons_ne_nil _ _)]
      omega

/-- A comma in a piece weighs twice. -/
theorem sum_weight (ps : List Bytes) :
    (ps.map weight).sum = (ps.map fun p => p.length + 1).sum + (ps.map (·.count comma)).sum := by
  induction ps with
  | nil => rfl
  | cons p ps ih =>
    rw [List.map_cons, List.sum_cons, ih, List.map_cons, List.sum_cons, List.map_cons,
      List.sum_cons, weight]
    omega

/-- Pieces that are read back from their text have no commas. -/
theorem notMem_of_pieces_intercalate {ps : List Bytes} (hne : ps ≠ [])
    (h : pieces ([comma].intercalate ps) = ps) : ∀ p ∈ ps, comma ∉ p := by
  have hread := sum_weight_pieces ([comma].intercalate ps)
  rw [h, length_intercalate hne, sum_weight] at hread
  have hzero : (ps.map (·.count comma)).sum = 0 := by omega
  intro p hp
  rw [List.sum_eq_zero_iff] at hzero
  exact List.count_eq_zero.mp (hzero _ (List.mem_map_of_mem hp))

/-! ## Splitting a piece -/

/-- Splitting loses nothing. -/
theorem text_splitPiece (p : Bytes) : (splitPiece p).text = p := by
  have happ := List.takeWhile_append_dropWhile (p := fun c => decide (c ≠ equals)) (l := p)
  rw [splitPiece]
  split
  · rfl
  · rename_i c value h
    have hc : c = equals := by
      have := List.head?_dropWhile_not (fun c => decide (c ≠ equals)) p
      rw [h] at this
      simpa using this
    conv_rhs => rw [← happ, h, hc]
    rfl

/-- What is written is split at its own equals sign, unless the key has one. -/
theorem splitPiece_text {p : Piece} (h : equals ∉ p.1) : splitPiece p.text = p := by
  obtain ⟨key, value⟩ := p
  have hall : ∀ c ∈ key, decide (c ≠ equals) = true := by
    intro c hc
    exact decide_eq_true fun heq => h (heq ▸ hc)
  cases value with
  | none =>
    have hdrop : key.dropWhile (fun c => decide (c ≠ equals)) = [] :=
      List.dropWhile_eq_nil_iff.mpr hall
    rw [Piece.text, splitPiece, hdrop]
  | some value =>
    rw [Piece.text, splitPiece, List.dropWhile_append_of_pos hall,
      List.takeWhile_append_of_pos hall]
    simp

/-! ## Valid texts -/

/-- The pieces of a UTF-8 text are UTF-8. -/
theorem valid_pieces {t : Bytes} (a : Bytes) (h : Valid (a ++ t)) :
    ∃ p ps, pieces t = p :: ps ∧ Valid (a ++ p) ∧ ∀ r ∈ ps, Valid r := by
  have hcomma : comma < 0x80 := by decide
  fun_induction pieces t generalizing a with
  | case1 => exact ⟨[], [], rfl, h, fun r hr => (by cases hr)⟩
  | case2 =>
    refine ⟨[], [[]], rfl, ?_, ?_⟩
    · rw [List.append_nil]
      exact (h.cut hcomma).1
    · intro r hr
      rw [List.mem_singleton.mp hr]
      exact valid_nil
  | case3 c hc => exact ⟨[c], [], rfl, h, fun r hr => (by cases hr)⟩
  | case4 t ih =>
    obtain ⟨ha, ht⟩ := h.cut hcomma
    obtain ⟨p, ps, hp, hvalid, hps⟩ := ih [] ((valid_cons_ascii hcomma t).mp ht)
    exact ⟨comma :: p, ps, by rw [hp]; rfl, ha.append (hvalid.cons_ascii hcomma), hps⟩
  | case5 d t hd ih =>
    obtain ⟨ha, ht⟩ := h.cut hcomma
    obtain ⟨p, ps, hp, hvalid, hps⟩ := ih [] ht
    refine ⟨[], p :: ps, by rw [hp], by rw [List.append_nil]; exact ha, ?_⟩
    intro r hr
    rcases List.mem_cons.mp hr with rfl | hr
    · exact hvalid
    · exact hps r hr
  | case6 c d t hc ih =>
    rw [← List.singleton_append, ← List.append_assoc] at h
    obtain ⟨p, ps, hp, hvalid, hps⟩ := ih (a ++ [c]) h
    refine ⟨c :: p, ps, by rw [hp]; rfl, ?_, hps⟩
    rw [← List.singleton_append, ← List.append_assoc]
    exact hvalid

/-- Cutting a valid text gives valid texts. -/
theorem valid_of_mem_pieces {t p : Bytes} (h : Valid t) (hp : p ∈ pieces t) : Valid p := by
  obtain ⟨q, ps, hq, hvalid, hps⟩ := valid_pieces [] h
  rw [hq] at hp
  rcases List.mem_cons.mp hp with rfl | hp
  · exact hvalid
  · exact hps p hp

/-! ## Templates -/

/-- A text that can be spliced in without harm. -/
structure PlainText where
  bytes : Bytes
  valid : Valid bytes
  plain : comma ∉ bytes

/-- A literal. -/
def plain (s : String) (h : Valid (CdjEmu.bytes s) ∧ comma ∉ CdjEmu.bytes s := by decide) :
    PlainText :=
  ⟨CdjEmu.bytes s, h.1, h.2⟩

/-- Two such texts, one behind the other. -/
def PlainText.append (a b : PlainText) : PlainText where
  bytes := a.bytes ++ b.bytes
  valid := a.valid.append b.valid
  plain h := (List.mem_append.mp h).elim a.plain b.plain

/-- A number in decimal. -/
def PlainText.decimal (n : Nat) : PlainText where
  bytes := Text.decimal n
  valid := valid_of_ascii fun c hc =>
    UInt8.lt_of_le_of_lt (digit_of_mem_decimal hc).2 (by decide)
  plain h := absurd (digit_of_mem_decimal h).1 (by decide)

/-- The name of a key. -/
structure Key extends PlainText where
  ne_nil : bytes ≠ []
  no_equals : equals ∉ bytes

/-- A key of the source's own. -/
def key (s : String) (h : Valid (CdjEmu.bytes s) ∧ comma ∉ CdjEmu.bytes s := by decide)
    (h' : CdjEmu.bytes s ≠ [] ∧ equals ∉ CdjEmu.bytes s := by decide) : Key :=
  ⟨plain s h, h'.1, h'.2⟩

/-- A value: one that is fixed, a text that is spliced in, or a path that is shown. -/
inductive Val where
  | fixed (t : PlainText)
  | text (s : Str)
  | path (b : Bytes)

/-- The octets that are meant. -/
def Val.configured : Val → Bytes
  | .fixed t => t.bytes
  | .text s => s.bytes
  | .path b => b

/-- The octets that stand in the command line. -/
def Val.shown : Val → Bytes
  | .fixed t => t.bytes
  | .text s => s.bytes
  | .path b => lossy b

/-- A path that can be spliced in without harm. -/
def PlainPath (b : Bytes) : Prop := comma ∉ b ∧ Valid b

/-- The values that survive. -/
def Val.Plain : Val → Prop
  | .fixed _ => True
  | .text s => comma ∉ s.bytes
  | .path b => PlainPath b

/-- They are those without a comma that are UTF-8. -/
theorem Val.plain_iff {v : Val} : v.Plain ↔ comma ∉ v.configured ∧ Valid v.configured := by
  cases v with
  | fixed t => exact ⟨fun _ => ⟨t.plain, t.valid⟩, fun _ => trivial⟩
  | text s => exact ⟨fun h => ⟨h, s.valid⟩, fun h => h.1⟩
  | path b => exact Iff.rfl

/-- The keys of an option, in order, with their values. -/
abbrev Template := List (Key × Option Val)

/-- What a template means. -/
def Template.configured (t : Template) : List Piece :=
  t.map fun p => (p.1.bytes, p.2.map Val.configured)

/-- What it puts down. -/
def Template.shown (t : Template) : List Piece := t.map fun p => (p.1.bytes, p.2.map Val.shown)

/-- Every value of the template can be spliced in without harm. -/
def Template.Plain (t : Template) : Prop := ∀ p ∈ t, ∀ v, p.2 = some v → v.Plain

/-- A piece with a key is not empty. -/
theorem text_ne_nil {p : Piece} (h : p.1 ≠ []) : p.text ≠ [] := by
  obtain ⟨key, value⟩ := p
  cases value with
  | none => exact h
  | some value => simp [Piece.text]

/-- It has a comma where its key or its value has one. -/
theorem comma_notMem_text {p : Piece} :
    comma ∉ p.text ↔ comma ∉ p.1 ∧ ∀ v, p.2 = some v → comma ∉ v := by
  obtain ⟨key, value⟩ := p
  cases value with
  | none => simp [Piece.text]
  | some value =>
    have hne : comma ≠ equals := by decide
    simp [Piece.text, hne]

/-- It is UTF-8 where both are. -/
theorem valid_text {p : Piece} (hkey : Valid p.1) (hval : ∀ v, p.2 = some v → Valid v) :
    Valid p.text := by
  obtain ⟨key, value⟩ := p
  cases value with
  | none => exact hkey
  | some value => exact hkey.append ((hval value rfl).cons_ascii (by decide))

theorem valid_intercalate {ps : List Bytes} (h : ∀ p ∈ ps, Valid p) :
    Valid ([comma].intercalate ps) := by
  induction ps with
  | nil => exact valid_nil
  | cons p ps ih =>
    have hp := h p List.mem_cons_self
    have ih := ih fun q hq => h q (List.mem_cons_of_mem _ hq)
    cases ps with
    | nil =>
      rw [List.intercalate_singleton]
      exact hp
    | cons q ps =>
      rw [List.intercalate_cons_cons, List.append_assoc]
      exact hp.append (ih.cons_ascii (by decide))

/-- Spliced pieces are read back exactly when none has a comma. -/
theorem readOpt_writeOpt {ps : List Piece} (hne : ps ≠ []) (hkey : ∀ p ∈ ps, p.1 ≠ [])
    (hequals : ∀ p ∈ ps, equals ∉ p.1) :
    readOpt (writeOpt ps) = ps ↔ ∀ p ∈ ps, comma ∉ p.text := by
  have hne' : ps.map Piece.text ≠ [] := by simpa using hne
  constructor
  · intro h p hp
    have hback : pieces (writeOpt ps) = ps.map Piece.text := by
      have := congrArg (List.map Piece.text) h
      rw [readOpt, List.map_map] at this
      rw [← this]
      conv_lhs => rw [← List.map_id (pieces (writeOpt ps))]
      exact List.map_congr_left fun q _ => (text_splitPiece q).symm
    rw [writeOpt_eq] at hback
    exact notMem_of_pieces_intercalate hne' hback _ (List.mem_map_of_mem hp)
  · intro h
    have hcut : pieces (writeOpt ps) = ps.map Piece.text := by
      rw [writeOpt_eq]
      apply pieces_intercalate hne'
      · intro q hq
        obtain ⟨p, hp, rfl⟩ := List.mem_map.mp hq
        exact text_ne_nil (hkey p hp)
      · intro q hq
        obtain ⟨p, hp, rfl⟩ := List.mem_map.mp hq
        exact h p hp
    rw [readOpt, hcut, List.map_map]
    conv_rhs => rw [← List.map_id ps]
    exact List.map_congr_left fun p hp => splitPiece_text (hequals p hp)

/-- A value that is UTF-8 is shown as it is. -/
theorem Val.shown_eq {v : Val} (h : Valid v.configured) : v.shown = v.configured := by
  cases v with
  | fixed t => rfl
  | text s => rfl
  | path b => exact lossy_of_valid h

/-- So is a template of such values. -/
theorem Template.shown_eq {t : Template}
    (h : ∀ p ∈ t, ∀ v, p.2 = some v → Valid v.configured) : t.shown = t.configured := by
  apply List.map_congr_left
  rintro ⟨key, value⟩ hp
  cases value with
  | none => rfl
  | some v => rw [Option.map_some, Option.map_some, Val.shown_eq (h _ hp v rfl)]

/-- What stands in the command line is UTF-8 in any case. -/
theorem Template.valid_shown (t : Template) : Valid (writeOpt t.shown) := by
  rw [writeOpt_eq]
  apply valid_intercalate
  intro q hq
  obtain ⟨c, hc, rfl⟩ := List.mem_map.mp hq
  obtain ⟨⟨key, value⟩, hp, rfl⟩ := List.mem_map.mp hc
  refine valid_text key.valid ?_
  intro v hv
  obtain ⟨w, rfl, rfl⟩ := Option.map_eq_some_iff.mp hv
  cases w with
  | fixed t => exact t.valid
  | text s => exact s.valid
  | path b => exact valid_lossy b

/-- A value that is read back from the text is valid, as the text is. -/
theorem Template.valid_of_readOpt {t : Template} (h : readOpt (writeOpt t.shown) = t.configured) :
    ∀ p ∈ t, ∀ v, p.2 = some v → Valid v.configured := by
  rintro ⟨key, value⟩ hp v rfl
  have hmem : (key.bytes, some v.configured) ∈ readOpt (writeOpt t.shown) := by
    rw [h]
    exact List.mem_map.mpr ⟨_, hp, rfl⟩
  obtain ⟨q, hq, hsplit⟩ := List.mem_map.mp hmem
  have hvalid := valid_of_mem_pieces (Template.valid_shown t) hq
  rw [← text_splitPiece q, hsplit] at hvalid
  exact (hvalid.cut (by decide)).2

/-- The values of a template are read back exactly when they are plain. -/
theorem readOpt_writeOpt_iff {t : Template} (ht : t ≠ []) :
    readOpt (writeOpt t.shown) = t.configured ↔ t.Plain := by
  have hne : t.configured ≠ [] := by simpa [Template.configured] using ht
  have hkey : ∀ p ∈ t.configured, p.1 ≠ [] := by
    intro c hc
    obtain ⟨p, hp, rfl⟩ := List.mem_map.mp hc
    exact p.1.ne_nil
  have hequals : ∀ p ∈ t.configured, equals ∉ p.1 := by
    intro c hc
    obtain ⟨p, hp, rfl⟩ := List.mem_map.mp hc
    exact p.1.no_equals
  constructor
  · intro h
    have hvalid := Template.valid_of_readOpt h
    rw [Template.shown_eq hvalid, readOpt_writeOpt hne hkey hequals] at h
    intro p hp v hv
    have hplain := (comma_notMem_text.mp (h _ (List.mem_map_of_mem hp))).2
    exact Val.plain_iff.mpr ⟨hplain v.configured (by rw [hv]; rfl), hvalid p hp v hv⟩
  · intro h
    have hplain := fun p hp v hv => Val.plain_iff.mp (h p hp v hv)
    rw [Template.shown_eq fun p hp v hv => (hplain p hp v hv).2, readOpt_writeOpt hne hkey hequals]
    intro c hc
    obtain ⟨p, hp, rfl⟩ := List.mem_map.mp hc
    rw [comma_notMem_text]
    refine ⟨p.1.plain, ?_⟩
    intro v hv
    obtain ⟨w, hw, rfl⟩ := Option.map_eq_some_iff.mp hv
    exact (hplain p hp w hw).1

end CdjEmu.OptText
