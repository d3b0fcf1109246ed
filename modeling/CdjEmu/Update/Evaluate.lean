/-
  WHAT THE LATEST RELEASE OFFERS — `evaluate`, and which downloads are stale.

  An index is one whose signature has been checked.  `evaluate` compares its version with the
  running one and, where it is the greater, looks for this installation's package; a download of a
  version that is not greater is stale.

  `offers_iff` says that the two agree on every version that an index can have.  `versions_ordered`
  puts it beside what the comparison itself is: a total preorder on all versions, and semver's
  order, with equality, on those of canonical identifiers.

  1. **Program** — `evaluate` and `is_stale` over the parsed index; `Update/Version` has the
     versions with their grammar, and `Update/Precedence` the comparison, whose identifiers are
     numbers up to 64 bits and words otherwise.

  2. **Specification** — semver's order: numbers by size, below words; more identifiers above fewer;
     no pre-release above any.  Equality of versions should be equality in that order.

  3. **The crux** — each version has a key, a list of numbers, and the code compares keys.  On
     identifiers that are written in one way only the key gives the version back; a number above 64
     bits sorts as a word, and one with a leading zero is not a version's at all.
-/
import CdjEmu.Update.Precedence

namespace CdjEmu.Update

open Chars Std

/-- The package formats. -/
inductive Kind where
  | dmg
  | deb
  | rpm
  | appImage
  | inno
  | other
  deriving DecidableEq

structure Package where
  os : Chars
  arch : Chars
  kind : Kind
  url : Chars
  size : UInt64
  sha256 : Chars

structure Index where
  version : Chars
  /-- The release's page. -/
  notes : Chars
  releaseNotes : Chars
  packages : List Package

/-- A newer release, and the package of it that replaces this installation. -/
structure Offer where
  version : Chars
  notes : Chars
  releaseNotes : Chars
  kind : Kind
  package : Package

inductive Status where
  | current (latest notes releaseNotes : Chars)
  | available (offer : Offer)
  | noPackage (latest : Chars)

/-- The messages of `evaluate`, with the version that they quote. -/
inductive Error where
  /-- "the update index names version …, which does not parse" -/
  | index (version : Chars)
  /-- "this build's version … does not parse" -/
  | running (version : Chars)

/-- The package for the architecture, or a universal one. -/
def Index.packageFor (index : Index) (os arch : Chars) (kind : Kind) : Option Package :=
  let ofKind := index.packages.filter fun p => p.os = os ∧ p.kind = kind
  (ofKind.find? (·.arch = arch)).or (ofKind.find? (·.arch = chars "universal"))

/-- `<=`. -/
def Version.le (v w : Version) : Bool := (v.cmp w).isLE

def evaluate (index : Index) (running os arch : Chars) (kind : Kind) : Except Error Status := do
  let latest ← (Version.parse index.version).elim (.error (.index index.version)) .ok
  let running ← (Version.parse running).elim (.error (.running running)) .ok
  if latest.le running then
    return .current latest.display index.notes index.releaseNotes
  match index.packageFor os arch kind with
  | some package =>
      return .available ⟨latest.display, index.notes, index.releaseNotes, kind, package⟩
  | none => return .noPackage latest.display

/-- The folder that a version is downloaded to. -/
def downloadName (version : Chars) : Chars := chars "update-" ++ version

def isStaleDownload (name : Chars) (running : Version) : Bool :=
  ((strip (chars "update-") name).bind Version.parse).any fun v => v.le running

/-- An update is offered. -/
def Status.Offers : Status → Prop
  | current .. => False
  | available _ => True
  | noPackage _ => True

/-- `latest` is offered just if it is greater than `running`, which is when its
    download is not stale. -/
def OfferedWhenGreater (index : Index) (running os arch : Chars) (kind : Kind) : Prop :=
  match Version.parse index.version, Version.parse running with
  | some latest, some version =>
    ∃ status, evaluate index running os arch kind = .ok status ∧
      (status.Offers ↔ latest.cmp version = .gt) ∧
      (latest.cmp version = .gt ↔ isStaleDownload (downloadName latest.display) version = false)
  | _, _ => ∃ error, evaluate index running os arch kind = .error error

theorem Version.le_eq_false {v w : Version} : v.le w = false ↔ v.cmp w = .gt := by
  unfold Version.le
  rcases v.cmp w with _ | _ | _
  · decide
  · decide
  · decide

/-- The download of a version is stale where the version is not greater. -/
theorem isStaleDownload_display (v running : Version) :
    isStaleDownload (downloadName v.display) running = v.le running := by
  unfold isStaleDownload downloadName
  rw [strip_append, Option.bind_some, Version.parse_display]
  rfl

/-- What `evaluate` gives where both versions are read. -/
theorem evaluate_eq {index : Index} {running os arch : Chars} {kind : Kind}
    {latest version : Version} (hlatest : Version.parse index.version = some latest)
    (hrunning : Version.parse running = some version) :
    evaluate index running os arch kind =
      if latest.le version then .ok (.current latest.display index.notes index.releaseNotes)
      else match index.packageFor os arch kind with
        | some package =>
            .ok (.available ⟨latest.display, index.notes, index.releaseNotes, kind, package⟩)
        | none => .ok (.noPackage latest.display) := by
  unfold evaluate
  rw [hlatest, hrunning]
  dsimp only [Option.elim_some, bind, Except.bind, pure, Except.pure]

theorem offers_iff (index : Index) (running os arch : Chars) (kind : Kind) :
    OfferedWhenGreater index running os arch kind := by
  unfold OfferedWhenGreater
  rcases hlatest : Version.parse index.version with _ | latest
  · refine ⟨.index index.version, ?_⟩
    unfold evaluate
    rw [hlatest]
    rfl
  · rcases hrunning : Version.parse running with _ | version
    · refine ⟨.running running, ?_⟩
      unfold evaluate
      rw [hlatest, hrunning]
      rfl
    · dsimp only
      rw [evaluate_eq hlatest hrunning, isStaleDownload_display, Version.le_eq_false]
      rcases hle : latest.le version with _ | _
      · have hgt := Version.le_eq_false.mp hle
        rcases index.packageFor os arch kind with _ | package
        · exact ⟨_, rfl, iff_of_true trivial hgt, Iff.rfl⟩
        · exact ⟨_, rfl, iff_of_true trivial hgt, Iff.rfl⟩
      · have hgt : ¬ latest.cmp version = .gt := by
          rw [← Version.le_eq_false, hle]
          decide
        exact ⟨_, rfl, iff_of_false id hgt, Iff.rfl⟩

/-- The order of versions: a total preorder; what is written is read back; an update is offered just
    where it is greater; and semver's order, with equality, on versions of canonical identifiers,
    and on no others. -/
theorem versions_ordered (v : Version) :
    v.cmp v = .eq ∧
    (∀ w : Version, v.le w = true ∨ w.le v = true) ∧
    (∀ w : Version, w.cmp v = (v.cmp w).swap) ∧
    (∀ u w : Version, u.le v = true → v.le w = true → u.le w = true) ∧
    Version.parse v.display = some v ∧
    (∀ index running os arch kind, OfferedWhenGreater index running os arch kind) ∧
    ((∀ w : Version, w.Canonical → v.Lawful w) ↔ v.Canonical) := by
  have hswap : ∀ w : Version, w.cmp v = (v.cmp w).swap := by
    intro w
    rw [cmp_eq, cmp_eq]
    exact OrientedCmp.eq_swap
  refine ⟨?_, ?_, hswap, ?_, v.parse_display, offers_iff, lawful_iff v⟩
  · rw [cmp_eq]
    exact ReflCmp.compare_self
  · intro w
    unfold Version.le
    rw [hswap w]
    rcases v.cmp w with _ | _ | _
    · exact .inl rfl
    · exact .inl rfl
    · exact .inr rfl
  · intro u w huv hvw
    unfold Version.le at *
    rw [cmp_eq] at *
    exact TransCmp.isLE_trans huv hvw

/-- Two versions that compare equal and are not. -/
theorem zeros_in_front :
    ¬ ∀ (s t : Chars) (v w : Version), Version.parse s = some v → Version.parse t = some w →
    (v.cmp w = .eq ↔ v = w) := by
  intro h
  have hv : Version.parse (chars "1.0.0-01") = some ⟨1, 0, 0, [⟨chars "01", by decide⟩]⟩ := by
    decide
  have hw : Version.parse (chars "1.0.0-1") = some ⟨1, 0, 0, [⟨chars "1", by decide⟩]⟩ := by
    decide
  have heq := (h _ _ _ _ hv hw).mp (by decide)
  exact absurd heq (by decide)

/-- Numbers longer than `u64` compare as words. -/
example :
    let v : Version := ⟨1, 0, 0, [⟨chars "99999999999999999999", by decide⟩]⟩
    let w : Version := ⟨1, 0, 0, [⟨chars "100000000000000000000", by decide⟩]⟩
    v.cmp w = .gt ∧ precedence v w = .lt := by
  decide

end CdjEmu.Update
