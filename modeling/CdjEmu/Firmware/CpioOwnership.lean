/-
  THE IN-PLACE OWNERSHIP FIX — `fix_cpio_ownership`, a second walk over the records of an archive.

  After `cpio -o` has packed a rootfs with the host's owners, the fix goes over the finished archive
  and writes zeros into the uid and gid of every record.  It has its own offsets and its own padding
  arithmetic, and where no magic stands it moves on by ONE octet, so a step that lands inside a
  file's contents would patch the file.

  The walk only ever writes at or behind its position, so it is recursion on the octets still ahead
  (`fixFrom`).  `fixFrom_writeRecord` is the step — on a written record the walk lands exactly on
  the next one — and `fix_eq_rewrite` the run: the fix of an archive is the archive of the entries
  with both owners 0, whatever the names and contents hold.  A size of `2 ^ 32` or more wraps in its
  field, and then the walk does land in the contents.

  1. **Program** — `fixCpioOwnership` as the source has it: sizes that are no numbers count as zero,
     the padding is computed anew, and nothing says where a record starts but the walk itself.

  2. **Specification** — the archive that `write` gives for the same entries with both owners 0.
     Octets behind the archive, as `cpio` pads it to whole blocks, are left as they are.

  3. **The crux (`fixFrom_writeRecord`)** — the step of the walk over a written record is its padded
     length, so contents that look like a record are stepped over with the record they are in.

  4. **Bridge** — by induction over the entries the walk of an archive is the writer's own loop over
     other entries, and past the trailer it finds no magic.
-/
import CdjEmu.Firmware.Cpio

namespace CdjEmu.Cpio

open Text

/-- A size field: zero when it is no number. -/
def parseHex8 (b : Bytes) : Nat := if Valid b then (fromHex 64 b).getD 0 else 0

def zeroDigits : Bytes := bytes "00000000"

/-- The uid and gid fields of the record at the front of `s` set to zero. -/
def zeroOwner (s : Bytes) : Bytes := s.take 22 ++ zeroDigits ++ zeroDigits ++ s.drop 38

/-- How far the walk moves on from the record at the front of `s`. -/
def recordStep (s : Bytes) : Nat :=
  let namesize := parseHex8 (slice s 94 8)
  let filesize := parseHex8 (slice s 54 8)
  let nameEnd := headerLen + namesize
  let namePad := (4 - nameEnd % 4) % 4
  let dataPad := if filesize > 0 then (4 - filesize % 4) % 4 else 0
  nameEnd + namePad + filesize + dataPad

/-- The loop of `fix_cpio_ownership`, with `s` the octets from its position on.  Every round moves
    on, so as many rounds as there are octets are enough. -/
def fixFrom : Nat → Bytes → Bytes
  | 0, s => s
  | fuel + 1, s =>
    if s.length < headerLen then s
    else if s.take 6 ≠ magicNewc then s.take 1 ++ fixFrom fuel (s.drop 1)
    else
      let s := zeroOwner s
      s.take (recordStep s) ++ fixFrom fuel (s.drop (recordStep s))

/-- Sets the uid and gid fields of every newc entry to zero. -/
def fixCpioOwnership (data : Bytes) : Bytes := fixFrom data.length data

/-- The entry with both owners 0. -/
def Entry.rootOwned (e : Entry) : Entry := { e with uid := 0, gid := 0 }

/-! ## One record -/

theorem zeroOwner_header (v₀ v₁ v₂ v₃ : UInt32) (vs : List UInt32) (s : Bytes) :
    zeroOwner (header (v₀ :: v₁ :: v₂ :: v₃ :: vs) ++ s) = header
      (v₀ :: v₁ :: 0 :: 0 :: vs) ++ s := by
  have hfront : (magicNewc ++ hexN 8 v₀.toNat ++ hexN 8 v₁.toNat).length = 22 := by
    rw [List.length_append, List.length_append, length_hexN, length_hexN]
    rfl
  have hmid : (magicNewc ++ hexN 8 v₀.toNat ++ hexN 8 v₁.toNat ++
      (hexN 8 v₂.toNat ++ hexN 8 v₃.toNat)).length = 38 := by
    rw [List.length_append, hfront, List.length_append, length_hexN, length_hexN]
  -- the two fields stand between the first 22 octets and the rest
  have hsplit : ∀ a b : UInt32, header (v₀ :: v₁ :: a :: b :: vs) ++ s =
      magicNewc ++ hexN 8 v₀.toNat ++ hexN 8 v₁.toNat ++ (hexN 8 a.toNat ++ hexN 8 b.toNat) ++
        (vs.flatMap (fun v => hexN 8 v.toNat) ++ s) := by
    intro a b
    simp only [header, List.flatMap_cons, List.append_assoc]
  rw [zeroOwner, hsplit v₂ v₃, hsplit 0 0, List.drop_left' hmid,
    show hexN 8 (0 : UInt32).toNat = zeroDigits by decide]
  rw [List.append_assoc _ (hexN 8 v₂.toNat ++ hexN 8 v₃.toNat), List.take_left' hfront]
  simp only [List.append_assoc]

theorem parseHex8_hexN {v : Nat} (h : v < 2 ^ 32) : parseHex8 (hexN 8 v) = v := by
  rw [parseHex8, if_pos (valid_hexN ..), fromHex_hexN (by omega) (by omega) (by omega)]
  rfl

/-- The walk's padding arithmetic is the writer's. -/
theorem recordStep_header {vs : List UInt32} (h11 : 11 < vs.length) (h6 : 6 < vs.length)
    (s : Bytes) :
    recordStep (header vs ++ s) = pad4 (110 + vs[11].toNat) + pad4 vs[6].toNat := by
  have hname : slice (header vs ++ s) 94 8 = hexN 8 vs[11].toNat := slice_header h11 s
  have hfile : slice (header vs ++ s) 54 8 = hexN 8 vs[6].toNat := slice_header h6 s
  rw [recordStep, hname, hfile, parseHex8_hexN vs[11].toNat_lt, parseHex8_hexN vs[6].toNat_lt]
  unfold headerLen pad4
  split
  · omega
  · omega

/-- The walk on a record: the owners are zeroed, and it moves on by the padded sizes. -/
theorem fixFrom_header (v₀ v₁ v₂ v₃ : UInt32) (vs : List UInt32) (hlen : vs.length = 9) (s : Bytes)
    (fuel : Nat) :
    fixFrom (fuel + 1) (header (v₀ :: v₁ :: v₂ :: v₃ :: vs) ++ s) =
      (header (v₀ :: v₁ :: 0 :: 0 :: vs) ++ s).take (pad4 (110 + vs[7].toNat) + pad4 vs[2].toNat) ++
        fixFrom fuel ((header (v₀ :: v₁ :: 0 :: 0 :: vs) ++ s).drop
          (pad4 (110 + vs[7].toNat) + pad4 vs[2].toNat)) := by
  have hmagic : (header (v₀ :: v₁ :: v₂ :: v₃ :: vs) ++ s).take 6 = magicNewc := by
    rw [header, List.append_assoc]
    exact List.take_left' rfl
  have hlong : ¬ (header (v₀ :: v₁ :: v₂ :: v₃ :: vs) ++ s).length < headerLen := by
    rw [List.length_append, length_header]
    simp only [List.length_cons, hlen, headerLen]
    omega
  have hstep : recordStep (header (v₀ :: v₁ :: 0 :: 0 :: vs) ++ s) =
      pad4 (110 + vs[7].toNat) + pad4 vs[2].toNat :=
    recordStep_header (by simp only [List.length_cons, hlen]; omega)
      (by simp only [List.length_cons, hlen]; omega) s
  rw [fixFrom, if_neg hlong, if_neg (fun h => h hmagic), zeroOwner_header]
  dsimp only
  rw [hstep]

/-- **The step**: on a written record the walk zeroes the owners and lands on the next record. -/
theorem fixFrom_writeRecord {e : Entry} (h : e.Fits) (ino : UInt32) (fuel : Nat) (s : Bytes) :
    fixFrom (fuel + 1) (writeRecord e ino ++ s) = writeRecord e.rootOwned ino ++
      fixFrom fuel s := by
  obtain ⟨nuls, hrec⟩ : ∃ nuls, ∀ e' : Entry, e'.path = e.path → e'.kind = e.kind →
      writeRecord e' ino ++ s = header (e'.fields ino) ++
        (archiveName e.path ++ [0] ++ nuls ++ padTo4 e.kind.payload ++ s) := by
    refine ⟨List.replicate (pad4 (110 + ((archiveName e.path).length + 1)) -
      (110 + ((archiveName e.path).length + 1))) 0, fun e' hp hk => ?_⟩
    rw [writeRecord, hp, hk]
    nth_rewrite 1 [padTo4]
    rw [List.length_append, List.length_append, length_header, length_fields, List.length_singleton,
      Nat.add_assoc]
    simp only [List.append_assoc]
  have hlen : (writeRecord e.rootOwned ino).length =
      pad4 (110 + (UInt32.ofNat (archiveName e.path).length + 1).toNat) +
        pad4 (UInt32.ofNat e.kind.payload.length).toNat := by
    rw [length_writeRecord, h.namesize, h.filesize]
    rfl
  have hroot := hrec e.rootOwned rfl rfl
  rw [Entry.fields] at hroot
  rw [hrec e rfl rfl, Entry.fields,
    fixFrom_header _ _ _ _ _ (by simp only [List.length_cons, List.length_nil])]
  simp only [List.getElem_cons_succ, List.getElem_cons_zero, ← hlen]
  have hsame : header [ino, e.kind.typeBits ||| e.mode &&& 4095, 0, 0, e.kind.nlink, e.mtime,
      UInt32.ofNat e.kind.payload.length, 0, 0, e.kind.rdev.1, e.kind.rdev.2,
      UInt32.ofNat (archiveName e.path).length + 1, 0] ++
        (archiveName e.path ++ [0] ++ nuls ++ padTo4 e.kind.payload ++ s) =
      writeRecord e.rootOwned ino ++ s := hroot.symm
  rw [hsame, List.take_left, List.drop_left]

/-! ## The whole archive -/

theorem fixFrom_zeros (fuel n : Nat) : fixFrom fuel (List.replicate n 0) = List.replicate n 0 := by
  induction fuel generalizing n with
  | zero => rfl
  | succ fuel ih =>
    rw [fixFrom]
    split
    · rfl
    · rename_i hlong
      rw [List.length_replicate, headerLen] at hlong
      obtain ⟨m, rfl⟩ : ∃ m, n = m + 6 := ⟨n - 6, by omega⟩
      rw [List.take_replicate, show min 6 (m + 6) = 6 by omega, if_pos (by decide),
        List.take_replicate, List.drop_replicate, ih, ← List.replicate_add]
      congr 1
      omega

theorem length_writeTrailer : writeTrailer.length = 124 := by
  rw [writeTrailer, length_padTo4, List.length_append, List.length_append, length_header]
  rfl

theorem fixFrom_writeTrailer (fuel n : Nat) :
    fixFrom (fuel + 1) (writeTrailer ++ List.replicate n 0) = writeTrailer ++
      List.replicate n 0 := by
  have hs : writeTrailer ++ List.replicate n 0 = header trailerFields ++ (trailerName ++ ([0] ++
      (List.replicate (pad4 (header trailerFields ++ trailerName ++ [0]).length -
        (header trailerFields ++ trailerName ++ [0]).length) 0 ++ List.replicate n 0))) := by
    rw [writeTrailer, padTo4]
    simp only [List.append_assoc]
  have hwalk := fixFrom_header 0 0 0 0 [1, 0, 0, 0, 0, 0, 0, UInt32.ofNat trailerName.length + 1, 0]
    rfl (trailerName ++
      ([0] ++ (List.replicate (pad4 (header trailerFields ++ trailerName ++ [0]).length -
        (header trailerFields ++ trailerName ++ [0]).length) 0 ++ List.replicate n 0))) fuel
  rw [← trailerFields, ← hs] at hwalk
  rw [hwalk]
  simp only [List.getElem_cons_succ, List.getElem_cons_zero]
  rw [show pad4 (110 + (UInt32.ofNat trailerName.length + 1).toNat) + pad4 (0 : UInt32).toNat =
    writeTrailer.length by rw [length_writeTrailer]; decide, List.take_left, List.drop_left,
    fixFrom_zeros]

/-- **The run**: record after record, up to the trailer and the zeros behind it. -/
theorem fixFrom_writeFrom {es : List Entry} (hfit : ∀ e ∈ es, e.Fits) (i n : Nat) {fuel : Nat}
    (hfuel : es.length < fuel) :
    fixFrom fuel (writeFrom i es ++ (writeTrailer ++ List.replicate n 0)) =
      writeFrom i (es.map Entry.rootOwned) ++ (writeTrailer ++ List.replicate n 0) := by
  induction es generalizing fuel i with
  | nil =>
    obtain ⟨fuel, rfl⟩ : ∃ k, fuel = k + 1 := ⟨fuel - 1, by simp at hfuel; omega⟩
    exact fixFrom_writeTrailer fuel n
  | cons e es ih =>
    obtain ⟨fuel, rfl⟩ : ∃ k, fuel = k + 1 := ⟨fuel - 1, by simp at hfuel; omega⟩
    rw [writeFrom, List.append_assoc, fixFrom_writeRecord (hfit e (List.mem_cons_self ..)),
      ih (fun e' h => hfit e' (List.mem_cons_of_mem _ h)) (i + 1) (by simp at hfuel; omega),
      List.map_cons, writeFrom, List.append_assoc]

/-- **The fix is a rewrite**: on an archive whose sizes fit their fields, with any zeros behind it,
    every uid and gid becomes 0 and no other octet changes. -/
theorem fix_eq_rewrite (es : List Entry) (hfit : ∀ e ∈ es, e.Fits) (n : Nat) :
    fixCpioOwnership (write es ++ List.replicate n 0) =
      write (es.map Entry.rootOwned) ++ List.replicate n 0 := by
  have hlen := length_writeFrom es 0
  have htrailer := length_writeTrailer
  rw [fixCpioOwnership, write, write, List.append_assoc, List.append_assoc]
  refine fixFrom_writeFrom hfit 0 n ?_
  rw [List.length_append, List.length_append]
  omega

/-- A file whose contents are themselves a record that another user owns. -/
theorem fix_eq_rewrite_nested :
    fixCpioOwnership
      (write
        [⟨bytes "/a", .file (write [⟨bytes "/b", .dir, 0o755, 7, 7, 0⟩]), 0o644, 501, 20, 0⟩] ++
        List.replicate 512 0) =
    write [⟨bytes "/a", .file (write [⟨bytes "/b", .dir, 0o755, 7, 7, 0⟩]), 0o644, 0, 0, 0⟩] ++
      List.replicate 512 0 := by
  refine fix_eq_rewrite _ ?_ 512
  intro e he
  obtain rfl := List.mem_singleton.mp he
  exact ⟨by decide +kernel, by decide +kernel⟩

/-! ## A size that wraps -/

/-- The walk takes contents that start with a magic for a record. -/
theorem fixFrom_of_magic {s : Bytes} (hmagic : s.take 6 = magicNewc) (hlong : 110 ≤ s.length)
    (fuel : Nat) : (fixFrom (fuel + 1) s)[22]? = some 48 := by
  have hstep : 23 ≤ recordStep (zeroOwner s) := by
    unfold recordStep headerLen
    dsimp only
    omega
  have hzero : (zeroOwner s)[22]? = some 48 := by
    have hfront : (s.take 22).length = 22 := by
      rw [List.length_take]
      omega
    rw [zeroOwner, List.append_assoc, List.append_assoc,
      List.getElem?_append_right (by omega), hfront]
    rfl
  have htake : ((zeroOwner s).take (recordStep (zeroOwner s)))[22]? = some 48 := by
    rw [List.getElem?_take_of_lt (by omega), hzero]
  rw [fixFrom, if_neg (by unfold headerLen; omega), if_neg (fun h => h hmagic)]
  dsimp only
  rw [List.getElem?_append_left (List.getElem?_eq_some_iff.mp htake).1, htake]

/-- The size field of contents of `2 ^ 32` octets is zero, so the walk goes on inside them. -/
theorem fix_of_wrapped {contents : Bytes} (hlen : contents.length = 2 ^ 32)
    (hmagic : contents.take 6 = magicNewc) (h22 : contents[22]? = some 65) :
    fixCpioOwnership (write [⟨bytes "/a", .file contents, 0o644, 0, 0, 0⟩]) ≠
      write [⟨bytes "/a", .file contents, 0o644, 0, 0, 0⟩] := by
  have hname : archiveName (bytes "/a") = [97] := by decide
  have hsize : UInt32.ofNat contents.length = 0 := by
    rw [hlen]
    decide
  -- the octets in front of the contents, and the contents with the trailer
  obtain ⟨front, hfront, hwrite⟩ : ∃ front : Bytes, front.length = 112 ∧
      write [⟨bytes "/a", .file contents, 0o644, 0, 0, 0⟩] = front ++
        (padTo4 contents ++ writeTrailer) := by
    refine ⟨padTo4 (header (Entry.fields ⟨bytes "/a", .file contents, 0o644, 0, 0, 0⟩ 1) ++
      archiveName (bytes "/a") ++ [0]), ?_, ?_⟩
    · rw [length_padTo4, List.length_append, List.length_append, length_header,
        length_fields, hname]
      rfl
    · rw [write, writeFrom, writeFrom, writeRecord]
      simp only [List.append_assoc, List.nil_append]
      rfl
  obtain ⟨nuls, hrec⟩ := writeRecord_eq ⟨bytes "/a", .file contents, 0o644, 0, 0, 0⟩ 1 writeTrailer
  have hheader : write [⟨bytes "/a", .file contents, 0o644, 0, 0, 0⟩] =
      writeRecord ⟨bytes "/a", .file contents, 0o644, 0, 0, 0⟩ 1 ++ writeTrailer := by
    rw [write, writeFrom, writeFrom, List.append_nil, show UInt32.ofNat 0 + 1 = 1 by decide]
  rw [hrec] at hheader
  -- the first round leaves the owners as they are and moves on by 112 octets
  have hround : ∀ fuel, fixFrom (fuel + 1) (write [⟨bytes "/a", .file contents, 0o644, 0, 0, 0⟩]) =
      front ++ fixFrom fuel (padTo4 contents ++ writeTrailer) := by
    intro fuel
    have hwalk := fixFrom_header 1 (sIfreg ||| (0o644 &&& 0o7777)) 0 0
      [1, 0, UInt32.ofNat contents.length, 0, 0, 0, 0,
        UInt32.ofNat (archiveName (bytes "/a")).length + 1, 0]
      rfl (archiveName (bytes "/a") ++ [0] ++ nuls ++ padTo4 contents ++ writeTrailer) fuel
    have hstep : pad4 (110 + (UInt32.ofNat (archiveName (bytes "/a")).length + 1).toNat) +
        pad4 (UInt32.ofNat contents.length).toNat = front.length := by
      rw [hsize, hname, hfront]
      decide
    simp only [List.getElem_cons_succ, List.getElem_cons_zero, hstep] at hwalk
    rw [hheader]
    refine hwalk.trans ?_
    have hsame : header
        [1, sIfreg ||| (0o644 &&& 0o7777), 0, 0, 1, 0, UInt32.ofNat contents.length, 0, 0, 0, 0,
          UInt32.ofNat (archiveName (bytes "/a")).length + 1, 0] ++
          (archiveName (bytes "/a") ++ [0] ++ nuls ++ padTo4 contents ++ writeTrailer) =
        front ++ (padTo4 contents ++ writeTrailer) := hheader.symm.trans hwrite
    rw [hsame, List.take_left, List.drop_left]
  have hpad : padTo4 contents = contents ++ [] := by
    rw [padTo4, hlen]
    rfl
  have hbody : (padTo4 contents ++ writeTrailer).length = 2 ^ 32 + 124 := by
    rw [hpad, List.append_nil, List.length_append, hlen, length_writeTrailer]
  intro heq
  have hlenw : (write [⟨bytes "/a", .file contents, 0o644, 0, 0, 0⟩]).length = 2 ^ 32 +
      235 + 1 := by
    rw [hwrite, List.length_append, hfront, hbody]
    omega
  rw [fixCpioOwnership, hlenw, hround, hwrite] at heq
  have hfix := List.append_cancel_left heq
  have h48 := fixFrom_of_magic (s := padTo4 contents ++ writeTrailer) ?_ (by omega) (2 ^ 32 + 234)
  · rw [hfix, hpad, List.append_nil, List.getElem?_append_left (by omega), h22] at h48
    exact absurd h48 (by decide)
  · rw [hpad, List.append_nil, List.take_append_of_le_length (by omega), hmagic]

/-- A file of `2 ^ 32` octets that start with a magic has its contents patched. -/
theorem fix_patches_a_file_whose_size_wraps :
    ¬ ∀ (es : List Entry) (n : Nat), fixCpioOwnership (write es ++ List.replicate n 0) =
      write (es.map Entry.rootOwned) ++ List.replicate n 0 := by
  intro h
  have := h [⟨bytes "/a", .file (magicNewc ++ List.replicate (2 ^ 32 - 6) 65), 0o644, 0, 0, 0⟩] 0
  rw [List.replicate_zero, List.append_nil, List.append_nil] at this
  refine fix_of_wrapped ?_ ?_ ?_ this
  · rw [List.length_append, List.length_replicate]
    rfl
  · exact List.take_left' rfl
  · rw [List.getElem?_append_right (by decide), List.getElem?_replicate_of_lt (by decide)]

end CdjEmu.Cpio
