/-
  READING ANY BYTES — the archive reader with its checks, on every input.

  The reader of `Firmware/Cpio` walks what is left of the archive.  Here it goes over the whole
  archive by offsets, as the source does, and every index, subtraction and sum is checked.  None of
  the checks fails and the two readers agree (`readBytes_eq`): a record is parsed only where at
  least one octet is left, so `bytes.len() - at` is never negative, and padding steps at most three
  octets past the end.

  1. **Program** — the same reader by offsets into the whole archive, with `none` wherever an index
     is out of range, a subtraction goes below zero or a sum leaves 64 bits.

  2. **Specification** — `Walk` is what an accepted archive is: records at growing offsets, each
     entry standing at its own with its payload in one piece, and a trailer at the last.

  3. **The crux (`readLoop_eq`)** — at offset `at` the checked loop does what the other does with
     the octets from there on; `at ≤ bytes.len()` is the invariant that the padding steps keep.

  4. **Bridge** — no slice of Rust is longer than `isize::MAX`, which `Slice` carries as its proof;
     that is the only fact on sizes that the sums need.
-/
import CdjEmu.Firmware.Cpio
import CdjEmu.Lib.Checked

namespace CdjEmu.Cpio

open Text Checked

/-! ## The reader, by offsets -/

/-- `at` behind the run of NULs. -/
def skipNuls (b : Bytes) (pos : Nat) : Option Nat :=
  if _h : pos < b.length then do
    let c ← index b pos
    if c = 0 then do
      let _ ← add pos 1
      skipNuls b (pos + 1)
    else some pos
  else some pos
termination_by b.length - pos

def pad4Checked (len : Nat) : Option Nat := mul ((len + 3) / 4) 4

/-- Field `i` of the record at `pos`. -/
def fieldAt (b : Bytes) (pos i : Nat) (name : String) : Steps CpioError UInt32 := do
  let magicEnd ← add pos 6
  let before ← mul i 8
  let off ← add magicEnd before
  let stop ← add off 8
  let s ← range b off stop
  if Valid s then
    match fromHex 32 (trim s) with
    | some v => pure (UInt32.ofNat v)
    | none => throw (.badField pos name)
  else throw (.badField pos name)

/-- The name and the payload of the record at `pos`, and its `end`. -/
def bodyAt (b : Bytes) (pos : Nat)
    (rawMode uid gid mtime filesize rdevmajor rdevminor namesize : UInt32) :
    Steps CpioError (Record × Nat) := do
  let nameAt ← add pos headerLen
  match add nameAt namesize.toNat with
  | none => throw (.badField pos "namesize")
  | some nameEnd =>
    if b.length < nameEnd then throw (.truncated pos)
    else do
      let nameStop ← sub nameEnd 1
      let name ← range b nameAt nameStop
      let headLen ← sub nameEnd pos
      let padded ← pad4Checked headLen
      let dataAt ← add padded pos
      match add dataAt filesize.toNat with
      | none => throw (.badField pos "filesize")
      | some dataEnd =>
        if b.length < dataEnd then throw (.truncated pos)
        else do
          let data ← range b dataAt dataEnd
          let len ← sub dataEnd pos
          let next ← pad4Checked len
          let stop ← add next pos
          pure (
            { rawMode, uid, gid, mtime, rdevmajor, rdevminor, name := .ofLossy name, data, next },
            stop)

/-- `Record::parse`: the record at `pos`, and its `end`. -/
def Record.parseAt (b : Bytes) (pos : Nat) : Steps CpioError (Record × Nat) := do
  let left ← sub b.length pos
  if left < headerLen then throw (.truncated pos)
  else do
    let magicEnd ← add pos 6
    let magic ← range b pos magicEnd
    if magic ≠ magicNewc ∧ magic ≠ magicCrc then throw (.badMagic pos)
    else do
      let rawMode ← fieldAt b pos 1 "mode"
      let uid ← fieldAt b pos 2 "uid"
      let gid ← fieldAt b pos 3 "gid"
      let mtime ← fieldAt b pos 5 "mtime"
      let filesize ← fieldAt b pos 6 "filesize"
      let rdevmajor ← fieldAt b pos 9 "rdevmajor"
      let rdevminor ← fieldAt b pos 10 "rdevminor"
      let namesize ← fieldAt b pos 11 "namesize"
      if namesize = 0 then throw (.badField pos "namesize")
      else bodyAt b pos rawMode uid gid mtime filesize rdevmajor rdevminor namesize

/-- The loop of `read`, for at most so many records. -/
def readLoop (b : Bytes) : Nat → Nat → List Entry → Steps CpioError (List Entry)
  | 0, _, _ => (none : Option (Except CpioError (List Entry)))
  | fuel + 1, pos, entries => do
    let pos ← skipNuls b pos
    if b.length ≤ pos then throw .missingTrailer
    else do
      let (record, stop) ← Record.parseAt b pos
      if record.name.bytes = trailerName then pure entries
      else do
        let e ← record.intoEntry
        readLoop b fuel stop (entries ++ [e])

/-- `read`. -/
def readBytes (b : Bytes) : Steps CpioError (List Entry) := readLoop b (b.length + 1) 0 []

/-! ## No check fails -/

/-- Where the run of NULs at `pos` ends. -/
def skipped (b : Bytes) (pos : Nat) : Nat := pos + ((b.drop pos).takeWhile (· = 0)).length

theorem le_skipped (b : Bytes) (pos : Nat) : pos ≤ skipped b pos := Nat.le_add_right _ _

/-- The same from what is left behind the run. -/
theorem skipped_eq (b : Bytes) (pos : Nat) :
    skipped b pos = pos + ((b.drop pos).length - ((b.drop pos).dropWhile (· = 0)).length) := by
  have hlen := congrArg List.length
      (List.takeWhile_append_dropWhile (p := fun c : UInt8 => decide (c = 0)) (l := b.drop pos))
  rw [List.length_append] at hlen
  unfold skipped
  omega

theorem drop_skipped (b : Bytes) (pos : Nat) :
    b.drop (skipped b pos) = (b.drop pos).dropWhile (· = 0) := by
  have hsplit :=
    List.takeWhile_append_dropWhile (p := fun c : UInt8 => decide (c = 0)) (l := b.drop pos)
  have hleft := @List.drop_left _ ((b.drop pos).takeWhile (· = 0)) ((b.drop pos).dropWhile (· = 0))
  rw [hsplit] at hleft
  rw [skipped, ← List.drop_drop, hleft]

section

variable {b : Bytes} (hb : b.length < 2 ^ 63)

include hb

theorem skipNuls_eq (pos : Nat) : skipNuls b pos = some (skipped b pos) := by
  fun_induction skipNuls b pos with
  | case1 pos h ih =>
    have hget : index b pos = some b[pos] := List.getElem?_eq_getElem h
    have hcons : b.drop pos = b[pos] :: b.drop (pos + 1) := List.drop_eq_getElem_cons h
    rw [hget, Option.bind_eq_bind, Option.bind_some]
    by_cases h0 : b[pos] = 0
    · have hnext : skipped b pos = skipped b (pos + 1) := by
        rw [skipped, skipped, hcons, List.takeWhile_cons_of_pos (by simpa using h0),
          List.length_cons]
        omega
      rw [if_pos h0, add_eq (by omega), Option.bind_eq_bind, Option.bind_some, ih, hnext]
    · have hstay : skipped b pos = pos := by
        rw [skipped, hcons, List.takeWhile_cons_of_neg (by simpa using h0)]
        rfl
      rw [if_neg h0, hstay]
  | case2 pos h =>
    rw [skipped, List.drop_eq_nil_of_le (by omega)]
    rfl

theorem fieldAt_eq {pos i : Nat} (name : String) (hi : i < 13) (h : pos + headerLen ≤ b.length) :
    fieldAt b pos i name = some (field pos (b.drop pos) i name) := by
  have hlen : pos + 110 ≤ b.length := h
  have hs : slice (b.drop pos) (6 + i * 8) 8 = slice b (pos + 6 + i * 8) 8 := by
    rw [slice, slice, List.drop_drop, Nat.add_assoc]
  unfold fieldAt field
  rw [Steps.lift_bind (add_eq (by omega)), Steps.lift_bind (mul_eq (by omega)),
    Steps.lift_bind (add_eq (by omega)), Steps.lift_bind (add_eq (by omega)),
    Steps.lift_bind (range_add (by omega)), hs]
  refine Steps.refines_ite (fun hv => ?_) (fun hv => rfl)
  cases fromHex 32 (trim (slice b (pos + 6 + i * 8) 8)) with
  | none => rfl
  | some v => rfl

omit hb in
theorem pad4Checked_eq {n : Nat} (h : n < 2 ^ 63) : pad4Checked n = some (pad4 n) :=
  mul_eq (by omega)

theorem bodyAt_eq {pos : Nat} (h : pos ≤ b.length)
    {rawMode uid gid mtime filesize rdevmajor rdevminor namesize : UInt32} (h0 : namesize ≠ 0) :
    bodyAt b pos rawMode uid gid mtime filesize rdevmajor rdevminor namesize =
      some (Except.map (fun r : Record => (r, r.next + pos))
        (if b.length - pos < headerLen + namesize.toNat then .error (.truncated pos)
        else if b.length - pos < pad4 (headerLen + namesize.toNat) + filesize.toNat then .error
          (.truncated pos)
        else .ok {
          rawMode, uid, gid, mtime, rdevmajor, rdevminor
          name := .ofLossy (slice (b.drop pos) headerLen (namesize.toNat - 1))
          data := slice (b.drop pos) (pad4 (headerLen + namesize.toNat)) filesize.toNat
          next := pad4 (pad4 (headerLen + namesize.toNat) + filesize.toNat) })) := by
  have hname : namesize.toNat < 2 ^ 32 := namesize.toNat_lt
  have hfile : filesize.toNat < 2 ^ 32 := filesize.toNat_lt
  have hpos : 0 < namesize.toNat := by
    rw [Nat.pos_iff_ne_zero]
    intro hn
    exact h0 (UInt32.toNat_inj.mp hn)
  have hhead : headerLen = 110 := rfl
  unfold bodyAt
  generalize namesize.toNat = n at hname hpos ⊢
  generalize filesize.toNat = m at hfile ⊢
  rw [Steps.lift_bind (add_eq (by omega)), add_eq (by omega)]
  dsimp only
  by_cases hn : b.length < pos + headerLen + n
  · rw [if_pos hn, if_pos (by omega)]
    rfl
  have hlen : pos + headerLen + n - pos = headerLen + n := by omega
  rw [if_neg hn, if_neg (by omega), Steps.lift_bind (sub_eq (by omega)),
    Steps.lift_bind (range_eq (by omega) (by omega)), Steps.lift_bind (sub_eq (by omega)), hlen,
    Steps.lift_bind (pad4Checked_eq (by omega))]
  have hdata : pad4 (headerLen + n) < 2 ^ 63 - pos + 4 := by
    unfold pad4
    omega
  generalize pad4 (headerLen + n) = dataAt at hdata ⊢
  rw [Steps.lift_bind (add_eq (by omega)), add_eq (by omega)]
  dsimp only
  by_cases hm : b.length < dataAt + pos + m
  · rw [if_pos hm, if_pos (by omega)]
    rfl
  have hlen : dataAt + pos + m - pos = dataAt + m := by omega
  have hnext : pad4 (dataAt + m) < 2 ^ 63 - pos + 4 := by
    unfold pad4
    omega
  have hname : slice b (pos + headerLen) (pos + headerLen + n - 1 - (pos + headerLen)) =
      slice (b.drop pos) headerLen (n - 1) := by
    rw [show pos + headerLen + n - 1 - (pos + headerLen) = n - 1 by omega, slice, slice,
      List.drop_drop]
  have hpayload : slice b (dataAt + pos) m = slice (b.drop pos) dataAt m := by
    rw [slice, slice, List.drop_drop, Nat.add_comm dataAt]
  rw [if_neg hm, if_neg (by omega), Steps.lift_bind (range_add (by omega)),
    Steps.lift_bind (sub_eq (by omega)), hlen, Steps.lift_bind (pad4Checked_eq (by omega)),
    Steps.lift_bind (add_eq (by omega)), hname, hpayload]
  rfl

theorem parseAt_eq {pos : Nat} (h : pos ≤ b.length) :
    Record.parseAt b pos =
      some ((Record.parse pos (b.drop pos)).map fun r => (r, r.next + pos)) := by
  have hleft : (b.drop pos).length = b.length - pos := List.length_drop
  unfold Record.parseAt Record.parse
  rw [Steps.lift_bind (sub_eq h), hleft]
  by_cases hhead : b.length - pos < headerLen
  · rw [if_pos hhead, if_pos hhead]
    rfl
  have hin : pos + headerLen ≤ b.length := by omega
  have hlen : pos + 110 ≤ b.length := hin
  have hmagic : slice b pos 6 = (b.drop pos).take 6 := rfl
  rw [if_neg hhead, if_neg hhead, Steps.lift_bind (add_eq (by omega)),
    Steps.lift_bind (range_add (by omega)), hmagic]
  by_cases hbad : (b.drop pos).take 6 ≠ magicNewc ∧ (b.drop pos).take 6 ≠ magicCrc
  · rw [if_pos hbad, if_pos hbad]
    rfl
  rw [if_neg hbad, if_neg hbad]
  refine Steps.refines_bind_map _ (fieldAt_eq hb "mode" (by omega) hin) fun rawMode _ => ?_
  refine Steps.refines_bind_map _ (fieldAt_eq hb "uid" (by omega) hin) fun uid _ => ?_
  refine Steps.refines_bind_map _ (fieldAt_eq hb "gid" (by omega) hin) fun gid _ => ?_
  refine Steps.refines_bind_map _ (fieldAt_eq hb "mtime" (by omega) hin) fun mtime _ => ?_
  refine Steps.refines_bind_map _ (fieldAt_eq hb "filesize" (by omega) hin) fun filesize _ => ?_
  refine Steps.refines_bind_map _ (fieldAt_eq hb "rdevmajor" (by omega) hin) fun rdevmajor _ => ?_
  refine Steps.refines_bind_map _ (fieldAt_eq hb "rdevminor" (by omega) hin) fun rdevminor _ => ?_
  refine Steps.refines_bind_map _ (fieldAt_eq hb "namesize" (by omega) hin) fun namesize _ => ?_
  by_cases h0 : namesize = 0
  · rw [if_pos h0, if_pos h0]
    rfl
  rw [if_neg h0, if_neg h0]
  exact bodyAt_eq hb h h0

omit hb in
/-- A record is longer than its header. -/
theorem lt_next {pos : Nat} {rest : Bytes} {r : Record} (h : Record.parse pos rest = .ok r) :
    headerLen < r.next := by
  obtain ⟨namesize, filesize, h0, -, -, -, hnext⟩ := parse_ok h
  have hpos : namesize.toNat ≠ 0 := fun hn => h0 (UInt32.toNat_inj.mp hn)
  rw [hnext]
  unfold pad4 headerLen
  omega

omit hb in
/-- One round of the loop of `read`, by offsets. -/
theorem readFrom_succ (fuel pos : Nat) :
    readFrom (fuel + 1) pos (b.drop pos) =
      (if b.length ≤ skipped b pos then .error .missingTrailer
      else do
        let record ← Record.parse (skipped b pos) (b.drop (skipped b pos))
        if record.name.bytes = trailerName then .ok []
        else
          let e ← record.intoEntry
          let es ← readFrom fuel (record.next + skipped b pos)
              (b.drop (record.next + skipped b pos))
          .ok (e :: es)) := by
  have hdrop := drop_skipped b pos
  have hskip := skipped_eq b pos
  have hnil : b.drop (skipped b pos) = [] ↔ b.length ≤ skipped b pos := List.drop_eq_nil_iff
  rw [readFrom, ← hskip, ← hdrop]
  by_cases hend : b.length ≤ skipped b pos
  · rw [if_pos hend, if_pos (hnil.mpr hend)]
  · rw [if_neg hend, if_neg (fun h => hend (hnil.mp h))]
    simp only [List.drop_drop, Nat.add_comm (skipped b pos)]

theorem readLoop_eq (fuel pos : Nat) (entries : List Entry) (h : b.length - pos < fuel) :
    readLoop b fuel pos entries = some ((readFrom fuel pos (b.drop pos)).map (entries ++ ·)) := by
  induction fuel generalizing pos entries with
  | zero => omega
  | succ fuel ih =>
    have hle := le_skipped b pos
    rw [readLoop, readFrom_succ, Steps.lift_bind (skipNuls_eq hb pos)]
    generalize skipped b pos = p at hle ⊢
    by_cases hend : b.length ≤ p
    · rw [if_pos hend, if_pos hend]
      rfl
    rw [if_neg hend, if_neg hend, parseAt_eq hb (by omega)]
    cases hr : Record.parse p (b.drop p) with
    | error e => rfl
    | ok record =>
      have hnext := lt_next hr
      show (if record.name.bytes = trailerName then _ else _) =
        some (Except.map _ (if record.name.bytes = trailerName then _ else _))
      by_cases ht : record.name.bytes = trailerName
      · rw [if_pos ht, if_pos ht]
        exact congrArg (fun es => some (Except.ok es)) (List.append_nil entries).symm
      rw [if_neg ht, if_neg ht]
      cases record.intoEntry with
      | error e => rfl
      | ok e =>
        refine (ih (record.next + p) (entries ++ [e]) (by omega)).trans ?_
        show _ = some (Except.map
            _ (readFrom fuel (record.next + p) (b.drop (record.next + p)) >>= _))
        cases readFrom fuel (record.next + p) (b.drop (record.next + p)) with
        | error e => rfl
        | ok es => exact congrArg (fun es => some (Except.ok es)) (List.append_assoc entries [e] es)

/-- The checked reader does what `read` does. -/
theorem readBytes_eq : readBytes b = some (read b) := by
  rw [readBytes, readLoop_eq hb _ _ _ (by omega), List.drop_zero, read]
  cases readFrom (b.length + 1) 0 b with
  | error e => rfl
  | ok es => rfl

end

/-! ## What was read -/

/-- A walk over the archive from `pos` on: the offset of each record, the entries, and a trailer at
    the last of the offsets. -/
inductive Walk (b : Bytes) : Nat → List Nat → List Entry → Prop
  | trailer {pos : Nat} {r : Record}
      (hr : Record.parse (skipped b pos) (b.drop (skipped b pos)) = .ok r)
      (ht : r.name.bytes = trailerName) : Walk b pos [skipped b pos] []
  | entry {pos : Nat} {r : Record} {e : Entry} {starts : List Nat} {es : List Entry}
      (hr : Record.parse (skipped b pos) (b.drop (skipped b pos)) = .ok r)
      (ht : r.name.bytes ≠ trailerName) (he : r.intoEntry = .ok e)
      (rest : Walk b (r.next + skipped b pos) starts es) :
      Walk b pos (skipped b pos :: starts) (e :: es)

theorem walk_of_readFrom {b : Bytes} {fuel pos : Nat} {es : List Entry}
    (h : readFrom fuel pos (b.drop pos) = .ok es) :
    ∃ starts, Walk b pos starts es := by
  induction fuel generalizing pos es with
  | zero => cases h
  | succ fuel ih =>
    rw [readFrom_succ] at h
    obtain ⟨-, h⟩ := check_eq_ok.mp h
    obtain ⟨record, hr, h⟩ := bind_eq_ok.mp h
    by_cases ht : record.name.bytes = trailerName
    · rw [if_pos ht] at h
      cases h
      exact ⟨_, .trailer hr ht⟩
    · rw [if_neg ht] at h
      obtain ⟨e, he, h⟩ := bind_eq_ok.mp h
      obtain ⟨es, hes, h⟩ := bind_eq_ok.mp h
      obtain ⟨starts, hw⟩ := ih hes
      cases h
      exact ⟨_, .entry hr ht he hw⟩

/-- Each record starts behind the one before it. -/
theorem Walk.increasing {b : Bytes} {pos : Nat} {starts : List Nat} {es : List Entry}
    (h : Walk b pos starts es) :
    (∀ p ∈ starts, pos ≤ p) ∧ starts.Pairwise (· < ·) := by
  induction h with
  | trailer _ _ =>
    refine ⟨fun p hp => ?_, List.pairwise_singleton _ _⟩
    rw [List.mem_singleton.mp hp]
    exact le_skipped _ _
  | @entry pos r e starts es hr _ _ _ ih =>
    have hnext := lt_next hr
    have hle := le_skipped b pos
    constructor
    · intro p hp
      rcases List.mem_cons.mp hp with rfl | hp
      · exact hle
      · have := ih.1 p hp
        omega
    · apply List.Pairwise.cons
      · intro p hp
        have := ih.1 p hp
        omega
      · exact ih.2

/-- `e` stands at `pos`, with its payload in one piece behind it. -/
structure EntryAt (b : Bytes) (pos : Nat) (e : Entry) : Prop where
  parsed : ∃ r, Record.parse pos (b.drop pos) = .ok r ∧ r.name.bytes ≠ trailerName ∧
    r.intoEntry = .ok e
  payload : ∃ i n, pos ≤ i ∧ i + n ≤ b.length ∧ (∀ data, e.kind = .file data → data = slice b i n) ∧
    ∀ target, e.kind = .symlink target → target = .ofLossy (slice b i n)

/-- The trailer stands at `pos`. -/
def TrailerAt (b : Bytes) (pos : Nat) : Prop :=
  ∃ r, Record.parse pos (b.drop pos) = .ok r ∧ r.name.bytes = trailerName

theorem kind_eq_ok {r : Record} {k : Kind} (h : r.kind = .ok k) :
    (∀ data, k = .file data → data = r.data) ∧ ∀ target, k = .symlink target →
    target = .ofLossy r.data := by
  unfold Record.kind at h
  dsimp only at h
  split_ifs at h <;> injection h with h <;> subst h
  · exact ⟨fun data hd => (Kind.file.inj hd).symm, fun target ht => (by cases ht)⟩
  · exact ⟨fun data hd => (by cases hd), fun target ht => (by cases ht)⟩
  · exact ⟨fun data hd => (by cases hd), fun target ht => (Kind.symlink.inj ht).symm⟩
  · exact ⟨fun data hd => (by cases hd), fun target ht => (by cases ht)⟩

theorem entryAt_of_parse {b : Bytes} {pos : Nat} {r : Record} {e : Entry} (hpos : pos ≤ b.length)
    (hr : Record.parse pos (b.drop pos) = .ok r) (ht : r.name.bytes ≠ trailerName)
    (he : r.intoEntry = .ok e) :
    EntryAt b pos e := by
  obtain ⟨namesize, filesize, -, hend, -, hdata, -⟩ := parse_ok hr
  obtain ⟨kind, hkind, hmade⟩ := bind_eq_ok.mp he
  have hk : e.kind = kind := by
    cases hmade
    rfl
  obtain ⟨hfile, hlink⟩ := kind_eq_ok hkind
  have hslice : r.data = slice b (pos + pad4 (headerLen + namesize.toNat)) filesize.toNat := by
    rw [hdata, slice, slice, List.drop_drop]
  rw [List.length_drop] at hend
  refine ⟨⟨r, hr, ht, he⟩, pos + pad4 (headerLen + namesize.toNat), filesize.toNat,
    Nat.le_add_right _ _, ?_, ?_, ?_⟩
  · omega
  · intro data hd
    rw [hk] at hd
    rw [hfile data hd, hslice]
  · intro target htgt
    rw [hk] at htgt
    rw [hlink target htgt, hslice]

/-- The offsets of a walk, the trailer's last. -/
theorem Walk.entries {b : Bytes} {pos : Nat} {starts : List Nat} {es : List Entry}
    (h : Walk b pos starts es) :
    ∃ firsts last, starts = firsts ++ [last] ∧ List.Forall₂ (EntryAt b) firsts es ∧
    TrailerAt b last := by
  induction h with
  | @trailer pos r hr ht => exact ⟨[], _, rfl, .nil, r, hr, ht⟩
  | @entry pos r e starts es hr ht he _ ih =>
    obtain ⟨firsts, last, rfl, hes, hlast⟩ := ih
    have hpos : skipped b pos ≤ b.length := by
      obtain ⟨-, -, -, hend, -⟩ := parse_ok hr
      by_contra hout
      rw [List.drop_eq_nil_of_le (by omega)] at hr
      cases hr
    exact ⟨skipped b pos :: firsts, last, rfl, .cons (entryAt_of_parse hpos hr ht he) hes, hlast⟩

/-- `cpio::read` on any byte string: no check fails, so it ends, indexes only what is
    there and overflows nowhere; and what it accepts is a walk over records at growing
    offsets, up to a trailer. -/
theorem read_total (s : Slice) :
    ∃ r, readBytes s.octets = some r ∧
      ∀ es, r = .ok es → ∃ starts last, Walk s.octets 0 (starts ++ [last]) es ∧
      (starts ++ [last]).Pairwise (· < ·) ∧
        List.Forall₂ (EntryAt s.octets) starts es ∧ TrailerAt s.octets last := by
  refine ⟨_, readBytes_eq s.small, ?_⟩
  intro es hes
  obtain ⟨all, hw⟩ := @walk_of_readFrom s.octets _ 0 _ hes
  obtain ⟨starts, last, rfl, hentries, hlast⟩ := hw.entries
  exact ⟨starts, last, hw, hw.increasing.2, hentries, hlast⟩

end CdjEmu.Cpio
