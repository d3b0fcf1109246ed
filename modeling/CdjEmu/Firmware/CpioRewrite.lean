/-
  REWRITING AN ARCHIVE — what is lost when entries that were read are written and read again.

  The reader is lenient: it takes leading slashes, empty names, any spelling of a path and any
  octets in a name, which it decodes lossily.  The writer is not as lenient about what it stores: it
  turns every backslash into a slash, stores the entry `/TRAILER!!!` under the name that ends an
  archive, and cuts a size to 32 bits.  `Entry.Storable` excludes exactly these, and `rewrite_iff`
  says that nothing else is lost: the entries of an archive come back exactly when all of them are
  storable.

  The hard half is the sizes.  A name whose size wrapped is read as its own front, and a path can be
  equal to a front of itself when the rest is only slashes and dots; but the name came out of an
  archive, where it had fewer than `2 ^ 32 - 1` octets before decoding, and decoding adds no slash
  and no dot (`Text.countP_lossy_ascii`).  Counting the other octets (`Path.counts`) decides it.

  `normalise` is the path `read_handback` gives an entry of the guest's tar.

  1. **Program** — `read` and `write` of `Firmware/Cpio`, and `normalise` for the entries that come
     from the guest's tar, whose names were never in an archive of this kind.

  2. **Specification** — the entries that were read are read again from what was written of them
     (`ReadsAs`).  Which entries these can be is `Rewritten`: those of some archive, or those of a
     tar whose sizes fit.

  3. **The crux (`rewrite_iff`)** — for each entry by itself: a record gives its entry back exactly
     if the entry is storable, and a record that does not spoils the list, either by its own entry
     or by ending it.

  4. **Bridge** — a list of entries is read back when every record is, since the records stand one
     behind another; the first that is not decides what the list begins with.
-/
import CdjEmu.Firmware.Cpio

namespace CdjEmu.Cpio

open Text

/-! ## The condition -/

/-- The writer stores `e` under a name and with sizes that read back. -/
structure Entry.Storable (e : Entry) : Prop where
  backslash : 92 ∉ e.path
  trailer : archiveName e.path ≠ trailerName
  fits : e.Fits

/-- The path of an entry in the guest's tar: absolute, without a leading
    `./` and trailing slashes. -/
def normalise (path : Bytes) : Bytes :=
  let p := path.dropWhile (· = Path.dot)
  let p := if p.head? = some Path.sep then p else Path.sep :: p
  let trimmed := (p.reverse.dropWhile (· = Path.sep)).reverse
  if trimmed = [] then [Path.sep] else trimmed

/-- An entry as the reader makes it: its name was shorter than `2 ^ 32 - 1`
    octets in the archive. -/
structure Entry.WasRead (e : Entry) : Prop where
  path : ∃ raw : Bytes, raw.length < 2 ^ 32 - 1 ∧ e.path = entryPath (lossy raw)
  mode : e.mode &&& 0o7777 = e.mode

/-- An entry as `read_handback` makes it from the guest's tar. -/
structure Entry.HandedBack (e : Entry) : Prop where
  path : ∃ text : Str, e.path = normalise text.bytes
  mode : e.mode &&& 0o7777 = e.mode

/-! ## What reading gives -/

theorem intoEntry_ok {r : Record} {e : Entry} (h : r.intoEntry = .ok e) :
    e.path = entryPath r.name.bytes ∧ e.mode = r.rawMode &&& 0o7777 := by
  unfold Record.intoEntry at h
  obtain ⟨kind, -, h⟩ := bind_eq_ok.mp h
  cases h
  exact ⟨rfl, rfl⟩

theorem wasRead_of_parse {pos : Nat} {rest : Bytes} {r : Record} {e : Entry}
    (hr : Record.parse pos rest = .ok r) (he : r.intoEntry = .ok e) : e.WasRead := by
  obtain ⟨namesize, filesize, h0, -, hname, -, -⟩ := parse_ok hr
  obtain ⟨hpath, hmode⟩ := intoEntry_ok he
  constructor
  · refine ⟨slice rest headerLen (namesize.toNat - 1), ?_, ?_⟩
    · have hlt : namesize.toNat < 2 ^ 32 := namesize.toNat_lt
      have hpos : namesize.toNat ≠ 0 := fun h => h0 (UInt32.toNat_inj.mp h)
      have hlen : (slice rest headerLen (namesize.toNat - 1)).length ≤ namesize.toNat - 1 :=
        List.length_take_le ..
      omega
    · rw [hpath, hname]
      rfl
  · rw [hmode, UInt32.and_assoc, UInt32.and_self]

/-- Every entry that `read` returns was read. -/
theorem wasRead_of_readFrom {fuel pos : Nat} {rest : Bytes} {es : List Entry}
    (h : readFrom fuel pos rest = .ok es) : ∀ e ∈ es, e.WasRead := by
  induction fuel generalizing pos rest es with
  | zero => cases h
  | succ fuel ih =>
    rw [readFrom] at h
    split at h
    · cases h
    obtain ⟨r, hr, h⟩ := bind_eq_ok.mp h
    split at h
    · cases h
      exact fun e he => absurd he List.not_mem_nil
    obtain ⟨e, he, h⟩ := bind_eq_ok.mp h
    obtain ⟨es', hes', h⟩ := bind_eq_ok.mp h
    cases h
    intro e' he'
    rcases List.mem_cons.mp he' with rfl | he'
    · exact wasRead_of_parse hr he
    · exact ih hes' e' he'

/-- A path of either source is rooted as soon as it has no backslash. -/
theorem Entry.WasRead.rooted {e : Entry} (h : e.WasRead) (hb : 92 ∉ e.path) : Rooted e.path := by
  obtain ⟨raw, -, hraw⟩ := h.path
  refine ⟨⟨_, hraw⟩, ?_, hb⟩
  rw [hraw, entryPath]
  refine ((valid_lossy raw).dropWhile fun c hc => ?_).cons_ascii (by decide)
  rw [show c = Path.sep by simpa using hc]
  decide

/-- Trailing slashes can be dropped from a text. -/
theorem valid_trimEnd {b : Bytes} (h : Valid b) :
    Valid (b.reverse.dropWhile (· = Path.sep)).reverse := by
  induction b using List.reverseRecOn with
  | nil => exact h
  | append_singleton b c ih =>
    rw [List.reverse_append, List.reverse_singleton, List.singleton_append, List.dropWhile_cons]
    split
    · rename_i hc
      exact ih (h.of_append_ascii (by rw [show c = Path.sep by simpa using hc]; decide))
    · rw [List.reverse_cons, List.reverse_reverse]
      exact h

theorem Entry.HandedBack.rooted {e : Entry} (h : e.HandedBack) (hb : 92 ∉ e.path) :
    Rooted e.path := by
  obtain ⟨text, htext⟩ := h.path
  have hdrop : Valid (text.bytes.dropWhile (· = Path.dot)) :=
    text.valid.dropWhile fun c hc => by rw [show c = Path.dot by simpa using hc]; decide
  -- the path before its trailing slashes are trimmed
  obtain ⟨n, hn, hp⟩ : ∃ n,
      (if (text.bytes.dropWhile (· = Path.dot)).head? = some Path.sep then
        text.bytes.dropWhile (· = Path.dot)
      else Path.sep :: text.bytes.dropWhile (· = Path.dot)) = Path.sep :: n ∧
      Valid (Path.sep :: n) := by
    split
    · rename_i hhead
      obtain ⟨n, hn⟩ := List.head?_eq_some_iff.mp hhead
      exact ⟨n, hn, hn ▸ hdrop⟩
    · exact ⟨_, rfl, hdrop.cons_ascii (by decide)⟩
  have heq : e.path =
      if ((Path.sep :: n).reverse.dropWhile (· = Path.sep)).reverse = [] then [Path.sep]
      else ((Path.sep :: n).reverse.dropWhile (· = Path.sep)).reverse := by
    rw [htext, normalise, hn]
  split at heq
  · exact ⟨⟨[], heq⟩, by rw [heq]; decide, hb⟩
  · rename_i hne
    refine ⟨?_, by rw [heq]; exact valid_trimEnd hp, hb⟩
    obtain ⟨c, m, hm⟩ := List.exists_cons_of_ne_nil hne
    have hfront : ((Path.sep :: n).reverse.dropWhile (· = Path.sep)).reverse <+: Path.sep :: n := by
      have := List.reverse_prefix.mpr
        (List.dropWhile_suffix (fun c => decide (c = Path.sep)) (l := (Path.sep :: n).reverse))
      rwa [List.reverse_reverse] at this
    rw [hm] at hfront heq
    exact ⟨m, by rw [heq, (List.cons_prefix_cons.mp hfront).1]⟩

/-! ## What one record loses -/

theorem notMem_archiveName (p : Bytes) : 92 ∉ archiveName p := by
  unfold archiveName
  dsimp only
  split
  · decide
  · intro h
    have hmem := (List.dropWhile_sublist _).subset h
    obtain ⟨c, -, hc⟩ := List.mem_map.mp hmem
    split at hc
    · exact absurd hc (by decide)
    · rename_i hne
      exact hne hc

theorem notMem_lossy {b : Bytes} (h : 92 ∉ b) : 92 ∉ lossy b := by
  have hle := countP_lossy_ascii (P := fun c => c = 92) (by decide) b
  have hzero : b.countP (fun c => c = 92) = 0 := by
    rw [List.countP_eq_zero]
    intro c hc heq
    exact h (by simpa using of_decide_eq_true heq ▸ hc)
  intro hmem
  have hpos : 0 < (lossy b).countP (fun c => c = 92) :=
    List.countP_pos_iff.mpr ⟨92, hmem, by decide⟩
  omega

theorem countP_entryPath (b : Bytes) : (entryPath b).countP Path.counts = b.countP Path.counts := by
  rw [entryPath, List.countP_cons_of_neg (by decide)]
  induction b with
  | nil => rfl
  | cons c b ih =>
    rw [List.dropWhile_cons]
    split
    · rename_i hc
      rw [ih, show c = Path.sep by simpa using hc, List.countP_cons_of_neg (by decide)]
    · rfl

/-- The size field of a name of `n` octets. -/
theorem namesize_toNat (n : Nat) : (UInt32.ofNat n + 1).toNat = (n + 1) % 2 ^ 32 := by
  rw [UInt32.toNat_add, UInt32.toNat_ofNat', UInt32.toNat_one]
  omega

/-- What the reader makes of the record of an entry of any size: the name is the front of the
    archive name that the size field covers. -/
theorem read_record {e e' : Entry} {ino : UInt32} {fuel pos : Nat} {s : Bytes} {es : List Entry}
    (h : readFrom (fuel + 1) pos (writeRecord e ino ++ s) = .ok (e' :: es)) :
    ∃ r, Record.parse pos (writeRecord e ino ++ s) = .ok r ∧ r.intoEntry = .ok e' ∧
      r.name.bytes ≠ trailerName ∧ r.rawMode = e.kind.typeBits ||| (e.mode &&& 0o7777) ∧
      r.name.bytes =
        lossy ((archiveName e.path).take (((archiveName e.path).length + 1) % 2 ^ 32 - 1)) ∧
      r.data = slice (writeRecord e ino ++ s)
        (pad4 (110 + ((archiveName e.path).length + 1) % 2 ^ 32))
          (e.kind.payload.length % 2 ^ 32) := by
  obtain ⟨nuls, hrec⟩ := writeRecord_eq e ino s
  rw [hrec] at h ⊢
  rw [readFrom_header] at h
  obtain ⟨r, hr, h⟩ := bind_eq_ok.mp h
  -- The record that was read is the first of the archive, whatever follows it.
  split at h
  · cases h
  rename_i hname
  obtain ⟨e₁, he₁, h⟩ := bind_eq_ok.mp h
  have hhead : e₁ = e' := by
    revert h
    generalize readFrom fuel (pos + r.next) _ = rest
    cases rest with
    | error err => intro h; cases h
    | ok es₁ => intro h; exact (List.cons.inj (Except.ok.inj h)).1
  subst hhead
  refine ⟨r, hr, he₁, hname, ?_⟩
  -- The header's checks have passed, so its fields are those that were written.
  rw [parse_header (length_fields e ino)] at hr
  split at hr
  · cases hr
  split at hr
  · cases hr
  split at hr
  · cases hr
  cases hr
  refine ⟨rfl, ?_, ?_⟩
  · -- the size field never covers more than the name and its NUL
    have hle := Nat.mod_le ((archiveName e.path).length + 1) (2 ^ 32)
    show lossy (List.take ((UInt32.ofNat (archiveName e.path).length + 1).toNat - 1) _) = _
    rw [namesize_toNat, List.append_assoc, List.append_assoc, List.append_assoc,
      List.take_append_of_le_length (by omega)]
  · show slice _ (pad4 (110 + (UInt32.ofNat (archiveName e.path).length + 1).toNat))
      (UInt32.ofNat e.kind.payload.length).toNat = _
    rw [namesize_toNat, UInt32.toNat_ofNat']

/-- A path that comes back has no backslash: the writer leaves none. -/
theorem backslash_of_same {e e' : Entry} {name : Bytes} (hname : 92 ∉ name)
    (hpath : e'.path = entryPath (lossy name)) (h : e.Same e') : 92 ∉ e.path := by
  intro hmem
  obtain ⟨c, hc, hx⟩ := (Path.mem_parts_iff (by decide) (by decide) e.path).mp hmem
  rw [h.path.parts] at hc
  have hback : 92 ∈ e'.path := (Path.mem_parts_iff (by decide) (by decide) e'.path).mpr ⟨c, hc, hx⟩
  rw [hpath, entryPath] at hback
  rcases List.mem_cons.mp hback with h | h
  · exact absurd h (by decide)
  · exact notMem_lossy hname ((List.dropWhile_sublist _).subset h)

/-- The octets that do not matter for what a path names. -/
theorem length_eq_counts (b : Bytes) :
    b.length = b.countP Path.counts + b.countP (fun c => ¬ Path.counts c) :=
  List.length_eq_countP_add_countP Path.counts

theorem counts_of_not_ascii (c : UInt8) (h : ¬ c < 0x80) : Path.counts c = true := by
  have hsep : c ≠ Path.sep := by
    rintro rfl
    exact h (by decide)
  have hdot : c ≠ Path.dot := by
    rintro rfl
    exact h (by decide)
  simp [Path.counts, hsep, hdot]

/-- **A name whose size wrapped does not come back.**  `raw` is the name before decoding, `n` the
    archive name: the front of `n` that is read has too few octets that count. -/
theorem name_fits_of_eqv {raw n : Bytes} (hraw : raw.length < 2 ^ 32 - 1) (hv : Valid n)
    (hn : n = (lossy raw).dropWhile (· = Path.sep))
    (h : n.countP Path.counts = (lossy (n.take ((n.length + 1) % 2 ^ 32 - 1))).countP Path.counts) :
    n.length + 1 < 2 ^ 32 := by
  have hsub : n.countP (fun c => ¬ Path.counts c) ≤ (lossy raw).countP
      (fun c => ¬ Path.counts c) := by
    rw [hn]
    exact (List.dropWhile_sublist _).countP_le
  have hcount : n.countP Path.counts = (lossy raw).countP Path.counts := by
    have := countP_entryPath (lossy raw)
    rwa [entryPath, List.countP_cons_of_neg (by decide), ← hn] at this
  have hother := countP_lossy_ascii (P := fun c => ¬ Path.counts c) (by decide) raw
  have htriple := countP_lossy_le counts_of_not_ascii raw
  have hfront := countP_lossy_take (P := Path.counts) hv ((n.length + 1) % 2 ^ 32 - 1)
  have hlen := length_eq_counts n
  have hlenraw := length_eq_counts raw
  have htake : (n.take ((n.length + 1) % 2 ^ 32 - 1)).countP Path.counts ≤
      (n.length + 1) % 2 ^ 32 - 1 :=
    Nat.le_trans List.countP_le_length (List.length_take_le ..)
  -- a front of no octets has none that count
  have hnone : (n.length + 1) % 2 ^ 32 - 1 = 0 →
      (lossy (n.take ((n.length + 1) % 2 ^ 32 - 1))).countP Path.counts = 0 := by
    intro hz
    rw [hz]
    rfl
  omega

/-- A payload that comes back was not cut by its size field. -/
theorem payload_fits_of_kind {r : Record} {e e' : Entry} (hinto : r.intoEntry = .ok e')
    (hmode : r.rawMode = e.kind.typeBits ||| (e.mode &&& 0o7777)) (hkind : e.kind = e'.kind)
    (hdata : r.data = e.kind.payload.take (e.kind.payload.length % 2 ^ 32)) :
    e.kind.payload.length < 2 ^ 32 := by
  have hr : r.kind = .ok e.kind := by
    unfold Record.intoEntry at hinto
    obtain ⟨kind, hk, hinto⟩ := bind_eq_ok.mp hinto
    cases hinto
    rw [hk, hkind]
  rw [Record.kind, hmode, typeBits_of_mode] at hr
  cases hk : e.kind with
  | file data =>
    rw [hk] at hr hdata
    have heq : data = data.take (data.length % 2 ^ 32) := by
      rw [← show r.data = data from Kind.file.inj (Except.ok.inj hr)] at hdata
      rwa [← show r.data = data from Kind.file.inj (Except.ok.inj hr)]
    have hlen := congrArg List.length heq
    rw [List.length_take] at hlen
    show data.length < 2 ^ 32
    omega
  | dir => exact (by decide : 0 < 2 ^ 32)
  | symlink target =>
    rw [hk] at hr hdata
    have heq : Str.ofLossy r.data = target := Kind.symlink.inj (Except.ok.inj hr)
    have hbytes : lossy (target.bytes.take (target.bytes.length % 2 ^ 32)) = target.bytes := by
      rw [hdata] at heq
      exact congrArg Str.bytes heq
    have hfront :=
      countP_lossy_take (P := fun _ => true) target.valid (target.bytes.length % 2 ^ 32)
    rw [List.countP_true, List.length_take, hbytes] at hfront
    show target.bytes.length < 2 ^ 32
    omega
  | charDev major minor => exact (by decide : 0 < 2 ^ 32)

/-- An entry whose sizes fit and whose record comes back as it was is storable. -/
theorem storable_of_fits {e e' : Entry} (hroot : 92 ∉ e.path → Rooted e.path) (hfit : e.Fits)
    {ino : UInt32} {fuel pos : Nat} {s : Bytes} {es : List Entry}
    (h : readFrom (fuel + 1) pos (writeRecord e ino ++ s) = .ok (e' :: es)) (hsame : e.Same e') :
    e.Storable := by
  obtain ⟨r, hr, hinto, hne, hmode, hname, hdata⟩ := read_record h
  have hpath : e'.path = entryPath r.name.bytes := (intoEntry_ok hinto).1
  have hsize : ((archiveName e.path).length + 1) % 2 ^ 32 = (archiveName e.path).length + 1 :=
    Nat.mod_eq_of_lt hfit.name
  rw [hsize, Nat.add_sub_cancel, List.take_length] at hname
  rw [hname] at hpath
  have hback : 92 ∉ e.path := backslash_of_same (notMem_archiveName e.path) hpath hsame
  refine ⟨hback, ?_, hfit⟩
  rwa [← (hroot hback).lossy_archiveName, ← hname]

/-- **The step**: an entry that was read, and whose record comes back as it was, is storable. -/
theorem storable_of_wasRead {e e' : Entry} (hread : e.WasRead) {ino : UInt32} {fuel pos : Nat}
    {s : Bytes} {es : List Entry}
    (h : readFrom (fuel + 1) pos (writeRecord e ino ++ s) = .ok (e' :: es)) (hsame : e.Same e') :
    e.Storable := by
  refine storable_of_fits hread.rooted ?_ h hsame
  obtain ⟨r, hr, hinto, hne, hmode, hname, hdata⟩ := read_record h
  have hpath : e'.path = entryPath r.name.bytes := (intoEntry_ok hinto).1
  rw [hname] at hpath
  have hback : 92 ∉ e.path :=
    backslash_of_same (fun hm => notMem_archiveName e.path (List.mem_of_mem_take hm)) hpath hsame
  have hroot := hread.rooted hback
  obtain ⟨raw, hraw, hfrom⟩ := hread.path
  obtain ⟨n, hn, -, harch⟩ := hroot.archiveName
  have hnraw : n = (lossy raw).dropWhile (· = Path.sep) := (List.cons.inj (hn.symm.trans hfrom)).2
  have hdrop : n.dropWhile (· = Path.sep) = n := by rw [hnraw, List.dropWhile_idempotent]
  rw [hdrop] at harch
  have hfit : (archiveName e.path).length + 1 < 2 ^ 32 := by
    by_cases hnil : n = []
    · rw [harch, if_pos hnil]
      decide
    · rw [if_neg hnil] at harch
      have hvalid : Valid (archiveName e.path) := by
        rw [← hroot.lossy_archiveName]
        exact valid_lossy _
      refine name_fits_of_eqv hraw hvalid (harch.trans hnraw) ?_
      have hcount := hsame.path.countP
      rw [hpath, countP_entryPath] at hcount
      rw [← hcount, harch, hn, List.countP_cons_of_neg (by decide)]
  refine ⟨hfit, payload_fits_of_kind hinto hmode hsame.kind ?_⟩
  have hle := Nat.mod_le e.kind.payload.length (2 ^ 32)
  rw [hdata, Nat.mod_eq_of_lt hfit, slice_payload, padTo4, List.append_assoc,
    List.take_append_of_le_length hle]

/-- **The run**: when a record that comes back as it was shows its entry storable, an archive that
    comes back shows all of them storable. -/
theorem storable_of_readFrom {es es' : List Entry} (hroot : ∀ e ∈ es, 92 ∉ e.path → Rooted e.path)
    (hstep : ∀ e ∈ es, ∀ (e' : Entry) (ino : UInt32) (fuel pos : Nat) (s : Bytes)
      (rest : List Entry),
      readFrom (fuel + 1) pos (writeRecord e ino ++ s) = .ok (e' :: rest) → e.Same e' → e.Storable)
    (hsame : List.Forall₂ Entry.Same es es') {fuel i pos : Nat} {t : Bytes}
    (h : readFrom fuel pos (writeFrom i es ++ t) = .ok es') : ∀ e ∈ es, e.Storable := by
  induction hsame generalizing fuel i pos with
  | nil => exact fun e he => absurd he List.not_mem_nil
  | @cons e e' es es' hhead htail ih =>
    cases fuel with
    | zero => cases h
    | succ fuel =>
      rw [writeFrom, List.append_assoc] at h
      have hst := hstep e (List.mem_cons_self ..) _ _ _ _ _ _ h hhead
      have hname := (hroot e (List.mem_cons_self ..) hst.backslash).lossy_archiveName
      rw [readFrom_writeRecord hst.fits, hname, if_neg hst.trailer] at h
      revert h
      cases hrest : readFrom fuel (pos + e.record.next) (writeFrom (i + 1) es ++ t) with
      | error err => intro h; cases h
      | ok es₁ =>
        intro h
        cases h
        intro e₁ he₁
        rcases List.mem_cons.mp he₁ with rfl | he₁
        · exact hst
        · exact ih (fun e he => hroot e (List.mem_cons_of_mem _ he))
            (fun e he => hstep e (List.mem_cons_of_mem _ he)) hrest e₁ he₁

/-- Storable entries of either source come back. -/
theorem readsAs_of_storable {es : List Entry} (hroot : ∀ e ∈ es, 92 ∉ e.path → Rooted e.path)
    (hmode : ∀ e ∈ es, e.mode &&& 0o7777 = e.mode) (h : ∀ e ∈ es, e.Storable) :
    ReadsAs (write es) es := by
  have := readsAs_write (fun e he => hroot e he (h e he).backslash)
      (fun e he => (h e he).fits) hmode
    (fun e he => (h e he).trailer) []
  rwa [List.append_nil] at this

/-- Entry lists of either source: read from an archive, or the guest's tar with
    sizes that fit the fields. -/
def Rewritten (es : List Entry) : Prop := (∃ b, read b = .ok es) ∨ ∀ e ∈ es, e.HandedBack ∧ e.Fits

/-- **What rewriting keeps.**  The entries of an archive come back from `write` exactly when each of
    them is storable; so do the entries of the guest's tar, whose sizes fit the fields. -/
theorem rewrite_keeps_iff (es : List Entry) (h : Rewritten es) :
    ReadsAs (write es) es ↔ ∀ e ∈ es, e.Storable := by
  rcases h with ⟨b, hes⟩ | hes
  · have hread := wasRead_of_readFrom hes
    constructor
    · rintro ⟨es', h, hsame⟩
      exact storable_of_readFrom (fun e he => (hread e he).rooted)
        (fun e he _ _ _ _ _ _ h hs => storable_of_wasRead (hread e he) h hs) hsame h
    · exact readsAs_of_storable (fun e he => (hread e he).rooted) fun e he => (hread e he).mode
  · constructor
    · rintro ⟨es', h, hsame⟩
      exact storable_of_readFrom (fun e he => (hes e he).1.rooted)
        (fun e he _ _ _ _ _ _ h hs => storable_of_fits (hes e he).1.rooted (hes e he).2 h hs) hsame
          h
    · exact readsAs_of_storable (fun e he => (hes e he).1.rooted) fun e he => (hes e he).1.mode

/-- An archive that holds one empty file under `name`. -/
def archiveOf (name : Bytes) : Bytes :=
  padTo4 (header [1, 0o100644, 0, 0, 1, 0, 0, 0, 0, 0, 0, UInt32.ofNat name.length + 1, 0] ++
    name ++ [0]) ++ writeTrailer

/-- The entry of an empty file at `path`. -/
def emptyFile (path : Bytes) : Entry := ⟨path, .file [], 0o644, 0, 0, 0⟩

/-- A name with leading slashes is stored without them, and a tar path without its `./`. -/
theorem rewrite_keeps_plain_names :
    ReadsAs (write [emptyFile (bytes "/etc/hosts")]) [emptyFile (bytes "/etc/hosts")] ∧
    ReadsAs (write [emptyFile (normalise (bytes "./etc/motd"))])
      [emptyFile (normalise (bytes "./etc/motd"))] := by
  constructor
  · refine (rewrite_keeps_iff _ (Or.inl ⟨archiveOf (bytes "//etc/hosts"), by decide +kernel⟩)).mpr
      ?_
    intro e he
    obtain rfl := List.mem_singleton.mp he
    exact ⟨by decide, by decide, ⟨by decide, by decide⟩⟩
  · refine (rewrite_keeps_iff _ (Or.inr ?_)).mpr ?_
    · intro e he
      obtain rfl := List.mem_singleton.mp he
      exact ⟨⟨⟨⟨bytes "./etc/motd", by decide⟩, rfl⟩, by decide⟩, ⟨by decide, by decide⟩⟩
    · intro e he
      obtain rfl := List.mem_singleton.mp he
      exact ⟨by decide, by decide, ⟨by decide, by decide⟩⟩

/-- A systemd unit with an escaped character in its name comes back as a file in a folder. -/
theorem rewrite_splits_an_escaped_name :
    ¬ ∀ (b : Bytes) (es : List Entry), read b = .ok es → ReadsAs (write es) es := by
  intro h
  have hread : read (archiveOf (bytes "dev-a\\x2db.swap")) =
      .ok [emptyFile (bytes "/dev-a\\x2db.swap")] := by
    decide +kernel
  have hback : read (write [emptyFile (bytes "/dev-a\\x2db.swap")]) =
      .ok [emptyFile (bytes "/dev-a/x2db.swap")] := by
    decide +kernel
  obtain ⟨es', hes', hsame⟩ := h _ _ hread
  rw [hback] at hes'
  cases hes'
  rcases hsame with _ | ⟨⟨hpath, -⟩, -⟩
  exact absurd hpath (by decide)

end CdjEmu.Cpio
