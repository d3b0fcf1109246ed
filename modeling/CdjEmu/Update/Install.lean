/-
  A PACKAGE ON ITS WAY — the download, the build beside the running one, and the rename.

  `save` writes what it receives to a part file and renames it once the size and the SHA-256 are the
  index's.  `prepare` copies the package to a file beside the AppImage, `apply` renames that over
  the AppImage, and `handOver` leaves a deb or an rpm in the downloads folder.  Every call may fail,
  a write in the middle, and the program may stop in front of any of them.

  1. `readAll_law`, `save_law` — what takes the package's name has the index's size and hash; the
     loop's bound is never met.
  2. `download_whole` — the same of a download, wherever it stops.
  3. `prepare_law`, `handOver_law` — what they leave is the package that they were given.

  The names of the files are places here, all different: the AppImage is not in the app's runtime
  folder.

  Programs are `Lib/Program`'s: a call is performed with an answer, and a law (`Always`) says what
  holds in front of every call and at the end, so one law covers every place at which the program
  may stop.  `Trouble` is what a user is told; an error never leaves a part file behind, unless its
  removal failed as well.  The hash is a parameter, and the sample is a file of five octets with its
  SHA-256: its download comes in two reads, and once it is cut, which removes the part file and
  leaves nothing.

  4. **The store** — the places are apart, and a law names the places that it writes: a part file of
     the version, the package itself, the staged file, the two names in the downloads folder.  Every
     other file is as it was.
-/
import CdjEmu.Lib.Program
import CdjEmu.Lib.Text
import CdjEmu.Update.Evaluate

namespace CdjEmu.Update

open Chars Function Prog

/-! ## What the updater's threads share -/

/-- The files that an update goes through. -/
inductive Place where
  /-- `$APPIMAGE`. -/
  | image
  /-- `.<name>.update` beside it. -/
  | staged
  /-- A package in the folder of its version, and its part file. -/
  | package (version name : Chars)
  | part (version name : Chars)
  /-- The downloads folder. -/
  | handed (name : Chars)
  | handedPart (name : Chars)
  deriving DecidableEq

/-- The folder of a download. -/
def Place.folder : Place → Option Chars
  | package version _ | part version _ => some (downloadName version)
  | image | staged | handed _ | handedPart _ => none

/-- Why an update step did not go through. -/
inductive Trouble where
  /-- "cancelled" -/
  | cancelled
  /-- The host's or the network's own error. -/
  | host
  /-- "… names no file" -/
  | noFile (url : Chars)
  /-- "the download is larger than the … bytes the index gives" -/
  | larger (size : UInt64)
  /-- "the download stopped at … of … bytes" -/
  | stopped (done : Nat) (size : UInt64)
  /-- "the download's SHA-256 is …, not the … the index gives" -/
  | hash (got want : Chars)
  /-- "this host cannot install a … package" -/
  | wrongKind (kind : Kind)
  /-- "the update index signature is not text" -/
  | notText
  /-- "the update key is unreadable" -/
  | keyUnreadable
  /-- "the update index signature is malformed" -/
  | signatureMalformed
  /-- "the update index is not signed by the update key" -/
  | unsigned
  /-- "the update index is malformed: …" -/
  | malformed
  /-- "the update index uses schema …, which this build cannot read; …" -/
  | schema (schema : UInt32)
  | index (e : Error)
  /-- "slots … did not close; finish what they are doing and try again" -/
  | slotsOpen
  /-- "the emulation did not stop" -/
  | notStopped
  /-- "nothing is prepared" -/
  | nothingPrepared
  /-- The model's bound on a loop, which no run meets. -/
  | unended

/-- How far a restart is. -/
inductive Step where
  /-- The other windows are closing, and then this window's emulation stops. -/
  | closing
  | stopping
  /-- The prepared build is being installed. -/
  | installing (o : Offer)

/-- What the updater is at. -/
inductive Phase where
  | checking
  | current (latest notes releaseNotes : Chars)
  | unmanaged
  | noPackage (latest : Chars)
  | available (o : Offer)
  | downloading (o : Offer) (done : Nat)
  | preparing (o : Offer)
  | ready (o : Offer)
  | downloaded (o : Offer) (path : Place)
  | restarting (step : Step)
  | exiting
  | failed (e : Trouble) (o : Option Offer)

/-- The files, and what the window and its threads share. -/
structure Store where
  files : Place → Option Bytes
  phase : Phase
  /-- There is a `Prepared`. -/
  prepared : Bool

/-- One file of the store is written or removed. -/
def Store.put (s : Store) (f : Place) (b : Option Bytes) : Store :=
  { s with files := update s.files f b }

/-- The updater shows another phase. -/
def Store.at_ (s : Store) (p : Phase) : Store := { s with phase := p }

/-- A folder is deleted, or as many of its files as `gone` has. -/
def Store.discard (s : Store) (folder : Chars) (gone : Place → Bool) : Store :=
  { s with files := fun f => if f.folder = some folder ∧ gone f then none else s.files f }

/-- How far a copy went. -/
inductive Copied where
  | whole
  | cut (n : Nat)
  | refused

/-- What the updater asks of the system and of the server. -/
inductive Call where
  | remove (f : Place)
  | createNew (f : Place)
  /-- `write_all`; `some n`: it fails behind `n` octets. -/
  | append (f : Place) (b : Bytes)
  | sync (f : Place)
  | rename (f g : Place)
  | copy (f g : Place)
  | createDir
  /-- The folders under the app's runtime folder. -/
  | folders
  | discard (folder : Chars)
  /-- The request for the package is answered. -/
  | connect
  /-- One read of the package's body; `none`: it fails. -/
  | receive
  /-- The flag that stops a download. -/
  | cancelled
  | fetchIndex
  | fetchSignature
  | setPhase (p : Phase)
  | setPrepared
  | takePrepared
  /-- The other windows close, and this window's emulation stops. -/
  | closeOthers
  | stopEmulation

/-- What each call answers. -/
def Call.Reply : Call → Type
  | .append _ _ => Option Nat
  | .copy _ _ => Copied
  | .folders => List Chars
  | .discard _ => Place → Bool
  | .receive | .fetchIndex | .fetchSignature => Option Bytes
  | .remove _ | .createNew _ | .sync _ | .rename _ _ | .createDir | .connect | .cancelled
  | .takePrepared | .closeOthers | .stopEmulation => Bool
  | .setPhase _ | .setPrepared => Unit

/-- `CHUNK`. -/
def CHUNK : Nat := 64 * 1024

/-- What a call with this answer leaves; `none` when it cannot be answered so. -/
def answer : (c : Call) → c.Reply → Store → Option Store
  | .remove f, true, s => some (s.put f none)
  | .createNew f, true, s => if s.files f = none then some (s.put f (some [])) else none
  | .append f b, none, s => (s.files f).map fun old => s.put f (some (old ++ b))
  | .append f b, some n, s => (s.files f).map fun old => s.put f (some (old ++ b.take n))
  | .rename f g, true, s => (s.files f).map fun b => (s.put f none).put g (some b)
  | .copy f g, .whole, s => (s.files f).map fun b => s.put g (some b)
  | .copy f g, .cut n, s => (s.files f).map fun b => s.put g (some (b.take n))
  | .discard folder, gone, s => some (s.discard folder gone)
  | .receive, some b, s => if b.length ≤ CHUNK then some s else none
  | .setPhase p, (), s => some (s.at_ p)
  | .setPrepared, (), s => some { s with prepared := true }
  | .takePrepared, true, s => if s.prepared then some { s with prepared := false } else none
  | .takePrepared, false, s => if s.prepared then none else some s
  -- the others change nothing here, and a call that fails changes nothing
  | .remove _, false, s | .createNew _, false, s | .sync _, _, s | .rename _ _, false, s
  | .copy _ _, .refused, s | .receive, none, s
  | .createDir, _, s | .folders, _, s | .connect, _, s | .cancelled, _, s | .fetchIndex, _, s
  | .fetchSignature, _, s
  | .closeOthers, _, s | .stopEmulation, _, s => some s

/-- What a call may do to the store, given its answer. -/
def effect : Effect Store Call Call.Reply := fun c s r t => answer c r s = some t

/-- A run of the updater: calls and what follows from their answers. -/
abbrev Run := Prog Call Call.Reply

/-- A run that may end in trouble. -/
abbrev Try := ExceptT Trouble Run

/-- One call, answered by the system. -/
def ask (c : Call) : Run c.Reply := perform c

/-- A call whose failure ends the step. -/
def must (p : Run Bool) (e : Trouble) : Try Unit := .mk do
  let ok ← p
  pure (if ok then .ok () else .error e)

/-- A file is removed; a failure leaves it. -/
def remove (f : Place) : Run Bool := ask (.remove f)

/-- A file is made anew, empty. -/
def createNew (f : Place) : Try Unit := must (ask (.createNew f)) .host

/-- What was written reaches the disk. -/
def sync (f : Place) : Try Unit := must (ask (.sync f)) .host

/-- A file takes another's place. -/
def rename (f g : Place) : Try Unit := must (ask (.rename f g)) .host

/-- Octets are written behind a file's end. -/
def append (f : Place) (b : Bytes) : Try Unit := .mk do
  let r : Option Nat ← ask (.append f b)
  pure (if r = none then .ok () else .error .host)

/-- A file is copied; a copy cut short is an error. -/
def copy (f g : Place) : Try Unit := .mk do
  let r : Copied ← ask (.copy f g)
  pure (match r with
    | .whole => .ok ()
    | _ => .error .host)

/-- A call that brings octets, or fails. -/
def octetsOf (p : Run (Option Bytes)) : Try Bytes := .mk do
  let r ← p
  pure (r.elim (.error .host) .ok)

/-- A step that deletes `f` when it fails. -/
def orRemove {α : Type} (p : Try α) (f : Place) : Try α := .mk do
  let r ← p.run
  match r with
  | .ok a => pure (.ok a)
  | .error e => do
    let _ ← remove f
    pure (.error e)

/-! ## The programs -/

/-- The SHA-256 of a text, in hexadecimal digits. -/
abbrev Sha256 := Bytes → Chars

/-- A letter of ASCII in lower case. -/
def asciiLower (c : Char) : Char := if 'A' ≤ c ∧ c ≤ 'Z' then Char.ofNat (c.toNat + 32) else c

/-- Two texts that differ in the case of ASCII letters only. -/
def eqIgnoreAsciiCase (a b : Chars) : Bool := a.map asciiLower = b.map asciiLower

/-- What the index says of a package. -/
def Right (S : Sha256) (p : Package) (b : Bytes) : Prop :=
  b.length = p.size.toNat ∧ eqIgnoreAsciiCase (S b) p.sha256 = true

/-- The window is told how much has arrived. -/
def progress (o : Offer) (done : Nat) : Run Unit := ask (.setPhase (.downloading o done))

/-- The loop of `save`, behind `got`.  Every read but the last brings an octet, so it
    ends before `fuel` does. -/
def readAll (o : Offer) (part : Place) : Nat → Bytes → Try Bytes
  | 0, _ => throw .unended
  | fuel + 1, got => do
    let stop : Bool ← ExceptT.lift (ask .cancelled)
    if stop then throw .cancelled
    let b ← octetsOf (ask .receive)
    if b = [] then return got
    else if o.package.size.toNat < got.length + b.length then throw (.larger o.package.size)
    else do
      append part b
      ExceptT.lift (progress o (got.length + b.length))
      readAll o part fuel (got ++ b)

/-- `save`, of the package of an offer. -/
def save (S : Sha256) (o : Offer) (dest part : Place) : Try Unit := do
  let _ ← ExceptT.lift (remove part)
  orRemove (f := part) do
    createNew part
    ExceptT.lift (progress o 0)
    let got ← readAll o part (o.package.size.toNat + 1) []
    if got.length ≠ o.package.size.toNat then throw (.stopped got.length o.package.size)
    else if ¬ eqIgnoreAsciiCase (S got) o.package.sha256 then throw (.hash (S got) o.package.sha256)
    else do
      sync part
      rename part dest

/-- The name that a package's file has. -/
def fileName (url : Chars) : Option Chars :=
  let name := url.rtakeWhile (· ≠ '/')
  if name ≠ [] ∧ ¬ name.contains '\\' ∧ ¬ name.contains ':' ∧ name ≠ chars ".." then some name
  else none

/-- `download`: the name of the package's file. -/
def download (S : Sha256) (o : Offer) : Try Chars := do
  must (ask .createDir) .host
  match fileName o.package.url with
  | none => throw (.noFile o.package.url)
  | some name => do
    must (ask .createDir) .host
    must (ask .connect) .host
    save S o (.package o.version name) (.part o.version name)
    return name

/-- `prepare`. -/
def prepare (package : Place) (kind : Kind) : Try Unit := do
  if kind ≠ .appImage then throw (.wrongKind kind)
  let _ ← ExceptT.lift (remove .staged)
  orRemove (f := .staged) do
    createNew .staged
    copy package .staged
    sync .staged
  let _ ← ExceptT.lift (remove package)

/-- `apply`. -/
def apply : Try Unit := rename .staged .image

/-- `hand_over`. -/
def handOver (package : Place) (name : Chars) (kind : Kind) : Try Place := do
  if kind ≠ .deb ∧ kind ≠ .rpm then throw (.wrongKind kind)
  orRemove (f := .handedPart name) do
    must (ask .createDir) .host
    copy package (.handedPart name)
    rename (.handedPart name) (.handed name)
  let _ ← ExceptT.lift (remove package)
  return .handed name

/-! ## What each call leaves -/

@[simp] theorem Store.put_self (s : Store) (f : Place) (b : Option Bytes) :
    (s.put f b).files f = b := update_self ..

theorem Store.put_of_ne {f g : Place} (h : g ≠ f) (s : Store) (b : Option Bytes) :
    (s.put f b).files g = s.files g := update_of_ne h ..

section Calls

variable {I : Store → Prop} {s : Store} {f g : Place} {e : Trouble}

/-- Removing takes the file away or leaves everything. -/
theorem remove_law (hI : I s) (hgone : I (s.put f none)) :
    Always effect I (fun _ t => t = s ∨ t = s.put f none) (remove f) s := by
  refine ⟨hI, fun r t hr => ?_⟩
  cases r with
  | true =>
    cases hr
    exact ⟨hgone, Or.inr rfl⟩
  | false =>
    cases hr
    exact ⟨hI, Or.inl rfl⟩

/-- A new file is empty, or nothing has happened. -/
theorem createNew_law (hI : I s) (hnew : I (s.put f (some []))) :
    Always effect I (fun r t => r = .ok () ∧ t = s.put f (some []) ∨ r = .error .host ∧ t = s)
      (createNew f).run s := by
  refine ⟨hI, fun r t hr => ?_⟩
  cases r with
  | true =>
    change (if s.files f = none then some (s.put f (some [])) else none) = some t at hr
    split at hr
    · cases hr
      exact ⟨hnew, Or.inl ⟨rfl, rfl⟩⟩
    · cases hr
  | false =>
    cases hr
    exact ⟨hI, Or.inr ⟨rfl, rfl⟩⟩

/-- Asking for a sync, for a folder, a connection or the user's cancel
    leaves the store as it was. -/
theorem sync_law (hI : I s) : Always effect I (fun _ t => t = s) (ask (.sync f)) s := by
  refine ⟨hI, fun r t hr => ?_⟩
  cases hr
  exact ⟨hI, rfl⟩

theorem createDir_law (hI : I s) : Always effect I (fun _ t => t = s) (ask .createDir) s := by
  refine ⟨hI, fun r t hr => ?_⟩
  cases hr
  exact ⟨hI, rfl⟩

theorem connect_law (hI : I s) : Always effect I (fun _ t => t = s) (ask .connect) s := by
  refine ⟨hI, fun r t hr => ?_⟩
  cases hr
  exact ⟨hI, rfl⟩

theorem cancelled_law (hI : I s) : Always effect I (fun _ t => t = s) (ask .cancelled) s := by
  refine ⟨hI, fun r t hr => ?_⟩
  cases hr
  exact ⟨hI, rfl⟩

/-- A call that changes nothing here, and what follows it when it does not fail. -/
theorem must_law {α : Type} {p : Run Bool} {next : Unit → Try α}
    {Q : Except Trouble α → Store → Prop} (h : Always effect I (fun _ t => t = s) p s)
    (hok : I s → Always effect I Q (next ()).run s) (herror : Q (.error e) s) :
    Always effect I Q (must p e >>= next).run s := by
  refine Always.andThen (P := fun r t => t = s ∧ (r = .ok () ∨ r = .error e))
    (Always.bind h fun ok t hI ht => ⟨hI, ht, ?_⟩) ?_ ?_
  · cases ok with
    | true => exact Or.inl rfl
    | false => exact Or.inr rfl
  · rintro - t hI ⟨rfl, -⟩
    exact hok hI
  · rintro _ t - ⟨rfl, hr | hr⟩
    · cases hr
    · cases hr
      exact herror

/-- A phase is shown and nothing else. -/
theorem setPhase_law {p : Phase} (hI : I s) (hp : I (s.at_ p)) :
    Always effect I (fun _ t => t = s.at_ p) (ask (.setPhase p)) s := by
  refine ⟨hI, fun r t hr => ?_⟩
  cases hr
  exact ⟨hp, rfl⟩

/-- Receiving leaves the store as it was. -/
theorem receive_law (hI : I s) :
    Always effect I (fun r t => t = s ∧ r ≠ .error .unended) (octetsOf (ask .receive)).run s := by
  refine ⟨hI, fun r t hr => ?_⟩
  cases r with
  | none =>
    cases hr
    exact ⟨hI, rfl, fun he => by cases he⟩
  | some b =>
    change (if b.length ≤ CHUNK then some s else none) = some t at hr
    split at hr
    · cases hr
      exact ⟨hI, rfl, fun he => by cases he⟩
    · cases hr

/-- Appending adds a prefix of the octets, all of them when it succeeds. -/
theorem append_law {old b : Bytes} (hold : s.files f = some old) (hI : I s)
    (hmore : ∀ more, I (s.put f (some (old ++ more)))) :
    Always effect I (fun r t => (∃ more, t = s.put f (some (old ++ more))) ∧
      (r = .ok () ∧ t = s.put f (some (old ++ b)) ∨ r = .error .host))
      (append f b).run s := by
  refine ⟨hI, fun r t hr => ?_⟩
  cases r with
  | none =>
    change (s.files f).map _ = some t at hr
    rw [hold] at hr
    cases hr
    exact ⟨hmore b, ⟨b, rfl⟩, Or.inl ⟨rfl, rfl⟩⟩
  | some n =>
    change (s.files f).map _ = some t at hr
    rw [hold] at hr
    cases hr
    exact ⟨hmore _, ⟨b.take n, rfl⟩, Or.inr rfl⟩

/-- A rename moves the file as it is, or does nothing. -/
theorem rename_law (hI : I s)
    (hmoved : ∀ b, s.files f = some b → I ((s.put f none).put g (some b))) :
    Always effect I
      (fun r t => (r = .ok () ∧ ∃ b, s.files f = some b ∧ t = (s.put f none).put g (some b)) ∨
        r = .error .host ∧ t = s)
      (rename f g).run s := by
  refine ⟨hI, fun r t hr => ?_⟩
  cases r with
  | true =>
    obtain ⟨b, hb, rfl⟩ := Option.map_eq_some_iff.mp hr
    exact ⟨hmoved b hb, Or.inl ⟨rfl, b, hb, rfl⟩⟩
  | false =>
    cases hr
    exact ⟨hI, Or.inr ⟨rfl, rfl⟩⟩

/-- A copy is whole when it succeeds; otherwise the target may hold anything. -/
theorem copy_law (hI : I s) (hput : ∀ b, I (s.put g (some b))) :
    Always effect I (fun r t => (t = s ∨ ∃ b, t = s.put g (some b)) ∧
      ((r = .ok () ∧ ∃ b, s.files f = some b ∧ t = s.put g (some b)) ∨ r = .error .host))
        (copy f g).run s := by
  refine ⟨hI, fun r t hr => ?_⟩
  cases r with
  | whole =>
    obtain ⟨b, hb, rfl⟩ := Option.map_eq_some_iff.mp hr
    exact ⟨hput b, Or.inr ⟨b, rfl⟩, Or.inl ⟨rfl, b, hb, rfl⟩⟩
  | cut n =>
    obtain ⟨b, -, rfl⟩ := Option.map_eq_some_iff.mp hr
    exact ⟨hput _, Or.inr ⟨_, rfl⟩, Or.inr rfl⟩
  | refused =>
    cases hr
    exact ⟨hI, Or.inl rfl, Or.inr rfl⟩

/-- After trouble the file is removed. -/
theorem orRemove_law {α : Type} {p : Try α} {P : Except Trouble α → Store → Prop}
    (h : Always effect I P p.run s) (hgone : ∀ e t, I t → P (.error e) t → I (t.put f none)) :
    Always effect I (fun r t => (∃ a, r = .ok a ∧ P r t) ∨ ∃ e u, r = .error e ∧ P (.error e) u ∧
      (t = u ∨ t = u.put f none))
      (orRemove p f).run s := by
  refine Always.bind h fun r t hI hP => ?_
  cases r with
  | ok a => exact ⟨hI, Or.inl ⟨a, rfl, hP⟩⟩
  | error e => exact Always.bind (remove_law hI (hgone e t hI hP)) fun _ u hI' hu =>
      ⟨hI', Or.inr ⟨e, t, rfl, hP, hu⟩⟩

end Calls

/-! ## What the programs leave

  `I` is whatever the store keeps while an update of `o` is fetched: it says nothing of the part
  file, and nothing that a package of the right size and hash breaks. -/

section Laws

variable {I : Store → Prop} {S : Sha256} {o : Offer} {dest part : Place} {s : Store}

/-- The loop adds what it receives to the part file, and its bound is never met. -/
theorem readAll_law (hput : ∀ t b, I t → I (t.put part (some b)))
    (hphase : ∀ t n, I t → I (t.at_ (.downloading o n))) {fuel : Nat} {got : Bytes} (hI : I s)
    (hpart : s.files part = some got) (hroom : got.length ≤ o.package.size.toNat)
    (hfuel : o.package.size.toNat < fuel + got.length) :
    Always effect I (fun r t => r ≠ .error .unended ∧ (∀ b, r = .ok b → t.files part = some b) ∧
      ∀ f, f ≠ part → t.files f = s.files f)
      (readAll o part fuel got).run s := by
  induction fuel generalizing got s with
  | zero => omega
  | succ fuel ih =>
    refine Always.lifted (cancelled_law hI) fun stop t _ ht => ?_
    subst ht
    cases stop with
    | true => exact ⟨hI, fun he => (by cases he), fun b hb => (by cases hb), fun f _ => rfl⟩
    | false =>
      refine Always.andThen (receive_law hI) (fun b t _ hb => ?_) fun e t _ he => ?_
      · obtain ⟨rfl, -⟩ := hb
        split
        · exact ⟨hI, fun he => (by cases he), fun c hc => (by cases hc; exact hpart),
            fun f _ => rfl⟩
        · rename_i hmore
          have hlong := List.length_pos_iff.mpr hmore
          split
          · exact ⟨hI, fun he => (by cases he), fun c hc => (by cases hc), fun f _ => rfl⟩
          · rename_i hsize
            have hlen : (got ++ b).length = got.length + b.length := List.length_append
            -- the octets are in the part file before the window is told of them
            refine Always.andThen (append_law hpart hI fun more => hput _ _ hI)
              (fun _ u hIu hu => ?_) fun e u _ hu => ?_
            · obtain ⟨-, ⟨-, rfl⟩ | herror⟩ := hu
              · refine Always.lifted (setPhase_law hIu (hphase _ _ hIu)) fun _ v hIv hv => ?_
                subst hv
                refine (ih hIv (Store.put_self ..) (by omega) (by omega)).mono
                  (fun _ _ _ _ hr => hr) (fun _ hI => hI) ?_
                rintro r w - ⟨hended, hgot, hframe⟩
                exact ⟨hended, hgot, fun f hf => (hframe f hf).trans (Store.put_of_ne hf t _)⟩
              · cases herror
            · obtain ⟨⟨more, rfl⟩, ⟨hok, -⟩ | herror⟩ := hu
              · cases hok
              · cases herror
                exact ⟨fun he => (by cases he), fun c hc => (by cases hc), fun f hf =>
                  Store.put_of_ne hf t _⟩
      · obtain ⟨rfl, he⟩ := he
        exact ⟨fun h => he (by cases h; rfl), fun b hb => (by cases hb), fun f _ => rfl⟩

/-- `save`: what lands under the final name is right, whatever is received and wherever it stops. -/
theorem save_law (hput : ∀ t b, I t → I (t.put part b))
    (hphase : ∀ t n, I t → I (t.at_ (.downloading o n))) (hland : ∀ t b, Right S o.package b → I t →
      I ((t.put part none).put dest (some b))) (hI : I s) :
    Always effect I (fun r t => (r = .ok () ∧ ∃ b, Right S o.package b ∧ t.files dest = some b) ∨
      ∃ e, r = .error e ∧ e ≠ .unended ∧ ∀ f, f ≠ part → t.files f = s.files f)
        (save S o dest part).run s := by
  refine Always.lifted (remove_law hI (hput _ _ hI)) fun _ t hIt ht => ?_
  have hrest : ∀ f, f ≠ part → t.files f = s.files f := fun f hf => by
    obtain rfl | rfl := ht
    · rfl
    · exact Store.put_of_ne hf s none
  -- every stop in front of the rename leaves what was there
  refine (orRemove_law
    (P := fun r u => (r = .ok () ∧ ∃ b, Right S o.package b ∧ u.files dest = some b) ∨
    ∃ e, r = .error e ∧ e ≠ .unended ∧ ∀ f, f ≠ part → u.files f = s.files f) ?_ fun e u hIu _ =>
      hput u none hIu).mono
      (fun _ _ _ _ hr => hr) (fun _ hI => hI) ?_
  · refine Always.andThen (createNew_law hIt (hput _ _ hIt)) (fun _ u hIu hu => ?_) fun e u _ hu =>
      ?_
    · obtain ⟨-, rfl⟩ | ⟨herror, -⟩ := hu
      · have hkept : ∀ f, f ≠ part → (t.put part (some [])).files f = s.files f := fun f hf =>
          (Store.put_of_ne hf t _).trans (hrest f hf)
        refine Always.lifted (setPhase_law hIu (hphase _ _ hIu)) fun _ v hIv hv => ?_
        subst hv
        refine Always.andThen (readAll_law (fun u b => hput u _) hphase hIv (Store.put_self ..)
          (Nat.zero_le _) (by simp)) (fun got v hIv hv => ?_)
          fun e v _ hv => ?_
        · obtain ⟨-, hpart, hframe⟩ := hv
          have hkept : ∀ f, f ≠ part → v.files f = s.files f := fun f hf =>
            (hframe f hf).trans (hkept f hf)
          split
          · exact ⟨hIv, Or.inr ⟨_, rfl, fun he => (by cases he), hkept⟩⟩
          · rename_i hsize
            split
            · exact ⟨hIv, Or.inr ⟨_, rfl, fun he => (by cases he), hkept⟩⟩
            · rename_i hhash
              have hright : Right S o.package got := ⟨not_not.mp hsize, not_not.mp hhash⟩
              refine must_law (sync_law hIv) (fun _ => ?_)
                (Or.inr ⟨_, rfl, fun he => (by cases he), hkept⟩)
              refine (rename_law hIv fun b hb => ?_).mono (fun _ _ _ _ hr => hr)
                (fun _ hI => hI) fun r w _ hw => ?_
              · rw [hpart got rfl] at hb
                cases hb
                exact hland v got hright hIv
              · obtain ⟨rfl, b, hb, rfl⟩ | ⟨rfl, rfl⟩ := hw
                · rw [hpart got rfl] at hb
                  cases hb
                  exact Or.inl ⟨rfl, got, hright, Store.put_self ..⟩
                · exact Or.inr ⟨_, rfl, fun he => (by cases he), hkept⟩
        · exact Or.inr ⟨e, rfl, fun he => hv.1 (congrArg _ he), fun f hf =>
            (hv.2.2 f hf).trans (hkept f hf)⟩
      · cases herror
    · obtain ⟨hok, -⟩ | ⟨herror, rfl⟩ := hu
      · cases hok
      · cases herror
        exact Or.inr ⟨_, rfl, fun he => (by cases he), hrest⟩
  · rintro r u - (⟨_, rfl, ⟨hok, hlanded⟩ | ⟨_, herror, -⟩⟩ | ⟨e, v, rfl,
      ⟨hok, -⟩ | ⟨_, herror, hended, hkept⟩, hu⟩)
    · exact Or.inl ⟨rfl, hlanded⟩
    · cases herror
    · cases hok
    · cases herror
      refine Or.inr ⟨e, rfl, hended, ?_⟩
      obtain rfl | rfl := hu
      · exact hkept
      · exact fun f hf => (Store.put_of_ne hf v none).trans (hkept f hf)

/-- `download`: only the part file, the shown phase and a right package are written. -/
theorem download_law
    (hput : ∀ name t b, fileName o.package.url = some name → I t →
      I (t.put (.part o.version name) b))
    (hphase : ∀ t n, I t → I (t.at_ (.downloading o n)))
    (hland : ∀ name t b, fileName o.package.url = some name → Right S o.package b → I t →
      I ((t.put (.part o.version name) none).put (.package o.version name) (some b)))
    (hI : I s) :
    Always effect I
      (fun r t => (∃ name b, r = .ok name ∧ fileName o.package.url = some name ∧
        Right S o.package b ∧
        t.files (.package o.version name) = some b) ∨
      ∃ e, r = .error e ∧ e ≠ .unended ∧
        ∀ f, (∀ name, fileName o.package.url = some name → f ≠ .part o.version name) →
        t.files f = s.files f)
      (download S o).run s := by
  refine must_law (createDir_law hI) (fun _ => ?_) (Or.inr ⟨_, rfl, by simp, fun _ _ => rfl⟩)
  cases hname : fileName o.package.url with
  | none => exact ⟨hI, Or.inr ⟨_, rfl, by simp, fun _ _ => rfl⟩⟩
  | some name =>
    refine must_law (createDir_law hI) (fun _ => ?_) (Or.inr ⟨_, rfl, by simp, fun _ _ => rfl⟩)
    refine must_law (connect_law hI) (fun _ => ?_) (Or.inr ⟨_, rfl, by simp, fun _ _ => rfl⟩)
    refine Always.andThen
      (save_law (fun t b => hput name t b hname) hphase (fun t b => hland name t b hname) hI)
        (fun _ t hIt ht => ?_)
      fun e t _ ht => ?_
    · obtain ⟨-, b, hb, hfile⟩ | ⟨_, herror, -⟩ := ht
      · exact ⟨hIt, Or.inl ⟨name, b, rfl, rfl, hb, hfile⟩⟩
      · cases herror
    · obtain ⟨hok, -⟩ | ⟨_, herror, hended, hrest⟩ := ht
      · cases hok
      · cases herror
        exact Or.inr ⟨e, rfl, hended, fun f hf => hrest f (hf name rfl)⟩

/-- **A download is whole.**  It touches two files only, those of the name at the end of its url.
    Wherever it stops, a package that was not there before has the size and the hash that the index
    gives; if it fails, only the part file has changed. -/
theorem download_whole (S : Sha256) (o : Offer) (s : Store) :
    (∀ t, Stops effect (download S o).run s t → ∀ f, t.files f = s.files f ∨
      ∃ name, fileName o.package.url = some name ∧ (f = .part o.version name ∨
        f = .package o.version name ∧ ∃ b, t.files f = some b ∧ Right S o.package b)) ∧
    ∀ r t, Ends effect (download S o).run s r t →
      (∃ name b, r = .ok name ∧ fileName o.package.url = some name ∧
        t.files (.package o.version name) = some b ∧ Right S o.package b) ∨
      ∃ e, r = .error e ∧ e ≠ .unended ∧
        ∀ f, (∀ name, fileName o.package.url = some name → f ≠ .part o.version name) →
        t.files f = s.files f := by
  -- what the store keeps at every call: the two files aside, it is as it was
  have hlaw : Always effect (fun t => ∀ f, t.files f = s.files f ∨
      ∃ name, fileName o.package.url = some name ∧ (f = .part o.version name ∨
        f = .package o.version name ∧ ∃ b, t.files f = some b ∧ Right S o.package b))
          _ (download S o).run s :=
    download_law (S := S) (fun name t b hname ht f => ?_) (fun t n ht => ht)
      (fun name t b hname hb ht f => ?_)
      fun f => Or.inl rfl
  · refine ⟨fun t ht => hlaw.stops ht, fun r t ht => ?_⟩
    obtain ⟨name, b, hr, hname, hb, hfile⟩ | hfailed := (hlaw.ends ht).2
    · exact Or.inl ⟨name, b, hr, hname, hfile, hb⟩
    · exact Or.inr hfailed
  · by_cases hf : f = .part o.version name
    · exact Or.inr ⟨name, hname, Or.inl hf⟩
    · rw [Store.put_of_ne hf]
      exact ht f
  · by_cases hdest : f = .package o.version name
    · exact Or.inr ⟨name, hname, Or.inr ⟨hdest, b, hdest ▸ Store.put_self .., hb⟩⟩
    · rw [Store.put_of_ne hdest]
      by_cases hf : f = .part o.version name
      · exact Or.inr ⟨name, hname, Or.inl hf⟩
      · rw [Store.put_of_ne hf]
        exact ht f

/-- Five octets of a program file. -/
def newImage : Bytes := [0x7f, 0x45, 0x4c, 0x46, 0x02]

def newImageHash : Chars := chars "cbb24a434399ae70351cd1492fdd22eaea0760682b4458ec6eb7fe6be15df3bb"

/-- SHA-256 of three texts: that file, what comes of it when it is cut, and nothing. -/
def sampleHash : Sha256 := fun b =>
  if b = newImage then newImageHash
  else if b = newImage.take 3 then chars
    "e289f842e95327039769162f61c1190344aee90c3fd3f3986e878f7ae3e78836"
  else if b = [] then chars "e3b0c44298fc1c149afbf4c8996fb92427ae41e4649b934ca495991b7852b855"
  else []

def newOffer : Offer :=
  ⟨chars "0.4.0", [], [], .appImage, chars "linux", chars "x86_64", .appImage,
    chars "https://example/new.AppImage", 5, newImageHash⟩

/-- The package comes in two reads.  When the third one fails, its part file is removed and nothing
    is left of it. -/
theorem newImage_whole :
    (∃ t, Ends effect (download sampleHash newOffer).run ⟨fun _ => none, .available newOffer, false⟩
        (.ok (chars "new.AppImage")) t ∧
      ∃ b, t.files (.package (chars "0.4.0") (chars "new.AppImage")) = some b ∧
      Right sampleHash newOffer.package b) ∧
    ∃ t, Ends effect (download sampleHash newOffer).run ⟨fun _ => none, .available newOffer, false⟩
      (.error .host) t ∧
      t.files (.package (chars "0.4.0") (chars "new.AppImage")) = none := by
  constructor
  · have hends : ∃ t, Ends effect (download sampleHash newOffer).run
        ⟨fun _ => none, .available newOffer, false⟩
        (.ok (chars "new.AppImage")) t :=
      -- the folders, the request, and the part file
      ⟨_, true, _, rfl, true, _, rfl, true, _, rfl, true, _, rfl, true, _, rfl, (), _, rfl,
        -- two reads that bring octets, and one that brings none
        false, _, rfl, some (newImage.take 3), _, rfl, none, _, rfl, (), _, rfl,
        false, _, rfl, some (newImage.drop 3), _, rfl, none, _, rfl, (), _, rfl,
        false, _, rfl, some [], _, rfl,
        -- the sync and the rename
        true, _, rfl, true, _, rfl, rfl, rfl⟩
    obtain ⟨t, ht⟩ := hends
    refine ⟨t, ht, ?_⟩
    obtain ⟨_, b, hname, -, hfile, hright⟩ | ⟨e, he, -⟩ :=
      (download_whole sampleHash newOffer _).2 _ _ ht
    · cases hname
      exact ⟨b, hfile, hright⟩
    · cases he
  · have hends : ∃ t, Ends effect (download sampleHash newOffer).run
        ⟨fun _ => none, .available newOffer, false⟩
        (.error .host) t :=
      ⟨_, true, _, rfl, true, _, rfl, true, _, rfl, true, _, rfl, true, _, rfl, (), _, rfl,
        false, _, rfl, some (newImage.take 3), _, rfl, none, _, rfl, (), _, rfl,
        -- the connection is cut, and the part file removed
        false, _, rfl, none, _, rfl, true, _, rfl, rfl, rfl⟩
    obtain ⟨t, ht⟩ := hends
    refine ⟨t, ht, ?_⟩
    obtain ⟨_, _, hok, -⟩ | ⟨_, -, -, hkept⟩ := (download_whole sampleHash newOffer _).2 _ _ ht
    · cases hok
    · exact hkept _ nofun

section Placing

variable {package : Place} {kind : Kind} {b : Bytes}

/-- `prepare`: where it succeeds the staged file is the package. -/
theorem prepare_law (hne : package ≠ .staged) (hstaged : ∀ t c, I t → I (t.put .staged c))
    (hpackage : ∀ t, I t → I (t.put package none)) (hI : I s) (hfile : s.files package = some b) :
    Always effect I (fun r t => (r = .ok () ∧ t.files .staged = some b) ∨ ∃ e, r = .error e ∧
      e ≠ .unended) (prepare package kind).run s := by
  unfold prepare
  split
  · exact ⟨hI, Or.inr ⟨_, rfl, by simp⟩⟩
  -- an old staged file goes first
  · refine Always.lifted (remove_law hI (hstaged _ _ hI)) fun _ t hIt ht => ?_
    have hfile : t.files package = some b := by
      obtain rfl | rfl := ht
      · exact hfile
      · exact (Store.put_of_ne hne s none).trans hfile
    refine Always.andThen
      (orRemove_law (P := fun r u => (r = .ok () ∧ u.files .staged = some b) ∨ ∃ e, r = .error e ∧
        e ≠ .unended) ?_
      fun e u hIu _ => hstaged u none hIu) (fun _ u hIu hu => ?_) fun e u _ hu => ?_
    · refine Always.andThen (createNew_law hIt (hstaged _ _ hIt))
        (fun _ u hIu hu => ?_) fun e u _ hu => ?_
      · obtain ⟨-, rfl⟩ | ⟨herror, -⟩ := hu
        · refine Always.andThen (copy_law hIu fun c => hstaged _ _ hIu)
            (fun _ v hIv hv => ?_) fun e v _ hv => ?_
          -- the copy is whole, or it has failed
          · obtain ⟨-, ⟨-, c, hc, rfl⟩ | herror⟩ := hv
            · rw [Store.put_of_ne hne, hfile] at hc
              cases hc
              refine Always.bind (sync_law hIv) fun synced w hIw hw => ⟨hIw, ?_⟩
              subst hw
              cases synced with
              | true => exact Or.inl ⟨rfl, Store.put_self ..⟩
              | false => exact Or.inr ⟨_, rfl, by simp⟩
            · cases herror
          · obtain ⟨-, ⟨hok, -⟩ | herror⟩ := hv
            · cases hok
            · exact Or.inr ⟨e, rfl, by cases herror; simp⟩
        · cases herror
      · obtain ⟨hok, -⟩ | ⟨herror, -⟩ := hu
        · cases hok
        · exact Or.inr ⟨e, rfl, by cases herror; simp⟩
    -- the package goes only after the staged file is there
    · obtain ⟨_, -, ⟨-, hstaged⟩ | ⟨_, herror, -⟩⟩ | ⟨_, _, herror, -⟩ := hu
      · refine Always.lifted (remove_law hIu (hpackage u hIu)) fun _ v hIv hv =>
          ⟨hIv, Or.inl ⟨rfl, ?_⟩⟩
        obtain rfl | rfl := hv
        · exact hstaged
        · exact (Store.put_of_ne hne.symm u none).trans hstaged
      · cases herror
      · cases herror
    -- an error takes the staged file with it
    · obtain ⟨_, hok, -⟩ | ⟨_, _, herror, ⟨hok, -⟩ | ⟨_, he, hended⟩, -⟩ := hu
      · cases hok
      · cases hok
      · cases herror
        cases he
        exact Or.inr ⟨e, rfl, hended⟩

/-- `hand_over`: the package lands in the downloads folder under its name,
    over a part file there. -/
theorem handOver_law {name : Chars} (hpart : ∀ t c, I t → I (t.put (.handedPart name) c))
    (hland : ∀ t, I t → I ((t.put (.handedPart name) none).put (.handed name) (some b)))
    (hpackage : ∀ t, I t → I (t.put package none)) (hI : I s) (hfile : s.files package = some b) :
    Always effect I (fun r _ => r = .ok (.handed name) ∨ ∃ e, r = .error e ∧ e ≠ .unended)
      (handOver package name kind).run s := by
  unfold handOver
  split
  · exact ⟨hI, Or.inr ⟨_, rfl, by simp⟩⟩
  · refine Always.andThen
      (orRemove_law (P := fun r _ => r = .ok () ∨ ∃ e, r = .error e ∧ e ≠ .unended) ?_
      fun e u hIu _ => hpart u none hIu) (fun _ u hIu _ => ?_) fun e u _ hu => ?_
    · refine must_law (createDir_law hI) (fun _ => ?_) (Or.inr ⟨_, rfl, by simp⟩)
      refine Always.andThen (copy_law hI fun c => hpart _ _ hI)
        (fun _ t hIt ht => ?_) fun e t _ ht => ?_
      -- the copy is whole, and is renamed over the name
      · obtain ⟨-, ⟨-, c, hc, rfl⟩ | herror⟩ := ht
        · rw [hfile] at hc
          cases hc
          refine (rename_law hIt fun c hc => ?_).mono (fun _ _ _ _ hr => hr)
            (fun _ hI => hI) fun r u _ hu => ?_
          · rw [Store.put_self] at hc
            cases hc
            exact hland _ hIt
          · obtain ⟨rfl, -⟩ | ⟨rfl, -⟩ := hu
            · exact Or.inl rfl
            · exact Or.inr ⟨_, rfl, by simp⟩
        · cases herror
      · obtain ⟨-, ⟨hok, -⟩ | herror⟩ := ht
        · cases hok
        · exact Or.inr ⟨e, rfl, by cases herror; simp⟩
    · exact Always.lifted (remove_law hIu (hpackage u hIu)) fun _ v hIv _ => ⟨hIv, Or.inl rfl⟩
    · obtain ⟨_, hok, -⟩ | ⟨_, _, herror, hok | ⟨_, he, hended⟩, -⟩ := hu
      · cases hok
      · cases hok
      · cases herror
        cases he
        exact Or.inr ⟨e, rfl, hended⟩

end Placing

end Laws

end CdjEmu.Update
