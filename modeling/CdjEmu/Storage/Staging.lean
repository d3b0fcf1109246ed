/-
  STAGED INSTALLS — `cdj3k-emu-storage/src/staging.rs` and `FirmwarePaths::remove` of `lib.rs`, one
  file-system step at a time.

  A slot has three live boot artefacts, its settings, and a staging dir `instance-N/.staging/` that
  an install fills under an exclusive `flock` and publishes by writing `complete`.  Any number of
  processes work on the slot.  An EVENT names the process that moves and what happens in its next
  file-system step:

  * a CALL (`new`, `finish`, `drop`, `pendingInstall`, `applyStaged`, `remove`) starts an operation;
  * `go` lets the next step of the operation in progress succeed, `fail` makes it return an I/O
    error, `crash` ends the process there, which drops its lock;
  * `list order` is the `read_dir` that starts a `clear`: `order` is the order in which the
    directory happens to list its entries, so a `clear` deletes in any order;
  * `aside` is the branch of `set_aside_unreadable` that finds the settings unreadable;
  * `write`, `written` and `scratch` are an installer's own writes between its calls.

  Every file carries the `Install` that wrote it.  The record a `finish` writes is the identity of
  its install; a record that is present parses, because `finish` validates the serial, writes a
  temporary file and renames it.  The live eMMC's own lock is not a part of the state: a running
  emulation is one more reason for `fail`.
-/
import CdjEmu.Lib.Machine

namespace CdjEmu.Storage

/-! ## Data model -/

/-- `cdj3k_emu_panel::Model`. -/
inductive Model
  | cdj3k | cdj3kx | cdj1500x
deriving DecidableEq, Repr

/-- The guest feature set that an install puts in a slot (`FEATURE_SET`). -/
def featureSet : Nat := 2

/-- What a finished install put in a slot (`StagedRecord`). -/
structure StagedRecord where
  model : Model
  firmwareRelease : Option String
  fs : Nat
  socSerial : String
deriving DecidableEq, Repr

/-- The keys of `InstanceSettings` that an install writes.  A missing file
    reads as the defaults. -/
structure InstanceSettings where
  model : Option Model := none
  firmwareRelease : Option String := none
  fs : Nat := 0
  socSerial : Option String := none
deriving DecidableEq, Repr

/-- The closure `apply_staged` passes to `InstanceSettings::update`: all four keys come from the
    record, whatever they were. -/
def StagedRecord.settings (r : StagedRecord) : InstanceSettings where
  model := some r.model
  firmwareRelease := r.firmwareRelease
  fs := r.fs
  socSerial := some r.socSerial

/-- One install: a serial number that no other install has, and the record it writes. -/
structure Install where
  id : Nat
  record : StagedRecord
deriving DecidableEq, Repr

/-- The three boot artefacts (`FIRMWARE_FILES`). -/
inductive FirmwareFile
  | kernel | initramfs | emmc
deriving DecidableEq, Repr

/-- The order in which `finish`, `apply_staged` and `remove` go through them. -/
def firmwareFiles : List FirmwareFile := [.kernel, .initramfs, .emmc]

theorem mem_firmwareFiles (f : FirmwareFile) : f ∈ firmwareFiles := by cases f <;> decide

instance (P : FirmwareFile → Prop) [DecidablePred P] : Decidable (∀ f, P f) :=
  decidable_of_iff (∀ f ∈ firmwareFiles, P f)
    ⟨fun h f => h f (mem_firmwareFiles f), fun h f _ => h f⟩

/-- The entries of the staging dir besides `.lock`: the staged files, `complete`, `complete.tmp`,
    and the installer's working files (the decrypted ISO, the unpatched initramfs). -/
inductive Entry
  | file (f : FirmwareFile) | record | recordTmp | scratch
deriving DecidableEq, Repr

/-- Every entry there can be. -/
def entries : List Entry := firmwareFiles.map .file ++ [.record, .recordTmp, .scratch]

theorem mem_entries (e : Entry) : e ∈ entries := by
  cases e with
  | file f => cases f <;> decide
  | record => decide
  | recordTmp => decide
  | scratch => decide

/-- A file of the staging dir: who wrote it, and whether it is written in full. -/
structure Content where
  writer : Install
  full : Bool
deriving DecidableEq, Repr

/-- What the processes share: the slot's files and settings, the staging dir, the holder of the
    `flock` on `.staging/.lock`, and the serial number of the next install. -/
structure Slot (ι : Type) where
  live : FirmwareFile → Option Install
  settings : InstanceSettings
  dir : Entry → Option Content
  lock : Option ι
  nextId : Nat

/-- What a `clear` is part of. -/
inductive After
  /-- `StagedFirmware::new`: the staging dir then belongs to the install. -/
  | new (i : Install)
  /-- `Drop` and `read_pending`, which ignore the result. -/
  | quit
  /-- `apply_staged` that found no record. -/
  | applyNone
  /-- `apply_staged` after its last rename; it then returns `Ok(Some(r))`. -/
  | applied (r : Install)
  /-- `discard_staged` inside `FirmwarePaths::remove`. -/
  | remove
deriving DecidableEq, Repr

/-- Where a process is: between operations, or before which file-system step of which one. -/
inductive Pc
  | idle
  /-- `new`, lock held: the check for a half-applied install, then `clear`. -/
  | creating (i : Install)
  /-- In `clear`: the entries it has deleted and those it still has to. -/
  | clearing (done todo : List Entry) (k : After)
  /-- A live `StagedFirmware` between calls; `writing` is a file it has begun. -/
  | installing (i : Install) (writing : Option FirmwareFile)
  /-- `finish`: the files it still has to open and sync. -/
  | syncing (i : Install) (todo : List FirmwareFile)
  /-- `finish`: `complete.tmp` is created and not yet written. -/
  | recording (i : Install)
  /-- `finish`: `complete.tmp` is synced and not yet renamed. -/
  | publishing (i : Install)
  /-- `Drop` of an unfinished install: `clear` comes next. -/
  | dropping
  /-- `read_pending`, lock held: reading the record. -/
  | reading
  /-- `apply_staged`, lock held: reading the record. -/
  | applyRead
  /-- `apply_staged`: locking the live eMMC. -/
  | applyLive (r : Install)
  /-- `apply_staged`: `set_aside_unreadable`. -/
  | applyAside (r : Install)
  /-- `apply_staged`: `InstanceSettings::update`. -/
  | applyUpdate (r : Install)
  /-- `apply_staged`: the files it still has to rename; `clear` comes after the last one. -/
  | moving (r : Install) (todo : List FirmwareFile)
  /-- `remove`: locking the live eMMC, then trying the staging lock. -/
  | removeStart
  /-- `remove`: `discard_staged` has the staging lock. -/
  | removeDiscard
  /-- `remove`: the live files it still has to delete. -/
  | removing (todo : List FirmwareFile)
deriving DecidableEq, Repr

/-- The places at which a process holds the staging lock. -/
def Pc.holds : Pc → Bool
  | .idle | .removeStart | .removing _ => false
  | _ => true

/-- The places of an install that is not finished: dropping it deletes what it wrote. -/
def Pc.isInstall : Pc → Bool
  | .installing _ _ | .syncing _ _ | .recording _ | .publishing _ => true
  | _ => false

/-- The places from which an operation that succeeds may return and drop its lock. -/
def Pc.ends : Pc → Bool
  | .creating _ | .reading | .clearing _ [] _ => true
  | _ => false

/-- What happens in a process's next step. -/
inductive Ev
  | new (model : Model) (firmwareRelease : Option String) (socSerial : String)
  | finish | drop | pendingInstall | applyStaged | remove
  | write (f : FirmwareFile) | written | scratch
  | list (order : List Entry)
  | go | aside | fail | crash
deriving DecidableEq, Repr

namespace Slot

variable {ι : Type}

/-- `FirmwarePaths::provisioned` of the staged paths. -/
def provisioned (s : Slot ι) : Bool := firmwareFiles.all fun f => (s.dir (.file f)).isSome

/-- `order` is a listing of the staging dir: every entry that is there, once. -/
def Lists (s : Slot ι) (order : List Entry) : Prop :=
  order.Nodup ∧ ∀ e ∈ entries, e ∈ order ↔ (s.dir e).isSome

instance (s : Slot ι) (order : List Entry) : Decidable (s.Lists order) :=
  inferInstanceAs (Decidable (_ ∧ _))

/-- Write, replace or delete one entry of the staging dir. -/
def put (s : Slot ι) (e : Entry) (c : Option Content) : Slot ι :=
  { s with dir := Function.update s.dir e c }

/-- Replace or delete one live file. -/
def putLive (s : Slot ι) (f : FirmwareFile) (i : Option Install) : Slot ι :=
  { s with live := Function.update s.live f i }

/-- Take the staging lock. -/
def hold (s : Slot ι) (p : ι) : Slot ι := { s with lock := some p }

variable [DecidableEq ι]

/-- Close `p`'s handle on the lock file, which drops its lock. -/
def release (s : Slot ι) (p : ι) : Slot ι :=
  { s with lock := if s.lock = some p then none else s.lock }

/-- The `read_dir` that starts a `clear`. -/
def startClear (s : Slot ι) (order : List Entry) (k : After) : Option (Slot ι × Pc) :=
  if s.Lists order then some (s, .clearing [] order k) else none

/-- What follows a `clear` that deleted everything. -/
def cleared (s : Slot ι) (p : ι) : After → Slot ι × Pc
  | .new i => (s, .installing i none)
  | .quit => (s.release p, .idle)
  | .applyNone => (s.release p, .idle)
  | .applied _ => (s.release p, .idle)
  | .remove => (s.release p, .removing firmwareFiles)

/-- The calls of a process that is between operations.  A lock that another process holds makes
    `new` fail, and `pending_install` and `apply_staged` return nothing. -/
def call (s : Slot ι) (p : ι) : Ev → Option (Slot ι × Pc)
  | .new model release serial =>
    match s.lock with
    | some _ => some (s, .idle)
    | none => some ({ s.hold p with nextId := s.nextId + 1 },
        .creating ⟨s.nextId, ⟨model, release, featureSet, serial⟩⟩)
  | .pendingInstall =>
    match s.lock with
    | some _ => some (s, .idle)
    | none => some (s.hold p, .reading)
  | .applyStaged =>
    match s.lock with
    | some _ => some (s, .idle)
    | none => some (s.hold p, .applyRead)
  | .remove => some (s, .removeStart)
  | _ => none

/-- The steps of a live `StagedFirmware` and of `StagedFirmware::finish`. -/
def install (s : Slot ι) (p : ι) : Pc → Ev → Option (Slot ι × Pc)
  | .installing i none, .write f =>
    some (s.put (.file f) (some ⟨i, false⟩), .installing i (some f))
  | .installing i (some f), .written =>
    some (s.put (.file f) (some ⟨i, true⟩), .installing i none)
  | .installing i none, .scratch => some (s.put .scratch (some ⟨i, true⟩), .installing i none)
  | .installing i none, .finish => some (s, .syncing i firmwareFiles)
  | .installing _ _, .drop => some (s, .dropping)
  | .syncing i (f :: todo), .go =>
    -- a file that was not written makes `finish` return an error, and the install drops
    if (s.dir (.file f)).isSome then some (s, .syncing i todo) else some (s, .dropping)
  | .syncing i [], .go => some (s.put .recordTmp (some ⟨i, false⟩), .recording i)
  | .recording i, .go => some (s.put .recordTmp (some ⟨i, true⟩), .publishing i)
  | .publishing i, .go =>
    some (((s.put .recordTmp none).put .record (some ⟨i, true⟩)).release p, .idle)
  | .syncing _ _, .fail => some (s, .dropping)
  | .recording _, .fail => some (s, .dropping)
  | .publishing _, .fail => some (s, .dropping)
  | .dropping, .list order => s.startClear order .quit
  | .dropping, .fail => some (s.release p, .idle)
  | _, _ => none

/-- The steps of `apply_staged` before its `clear`. -/
def apply (s : Slot ι) (p : ι) : Pc → Ev → Option (Slot ι × Pc)
  | .applyRead, .go =>
    match s.dir .record with
    | some c => some (s, .applyLive c.writer)
    | none => none
  | .applyRead, .list order =>
    if (s.dir .record).isSome then none else s.startClear order .applyNone
  | .applyRead, .fail => if (s.dir .record).isSome then none else some (s.release p, .idle)
  | .applyLive r, .go => some (s, .applyAside r)
  | .applyAside r, .go => some (s, .applyUpdate r)
  | .applyAside r, .aside => some ({ s with settings := {} }, .applyUpdate r)
  | .applyUpdate r, .go =>
    some ({ s with settings := r.record.settings }, .moving r firmwareFiles)
  | .moving r (f :: todo), .go =>
    match s.dir (.file f) with
    | some c => some ((s.putLive f (some c.writer)).put (.file f) none, .moving r todo)
    | none => some (s, .moving r todo)
  | .moving r [], .list order => s.startClear order (.applied r)
  | .applyLive _, .fail => some (s.release p, .idle)
  | .applyAside _, .fail => some (s.release p, .idle)
  | .applyUpdate _, .fail => some (s.release p, .idle)
  | .moving _ _, .fail => some (s.release p, .idle)
  | _, _ => none

/-- The steps of `read_pending`, of `new` up to its `clear`, of `clear` itself, and of
    `FirmwarePaths::remove`. -/
def sweep (s : Slot ι) (p : ι) : Pc → Ev → Option (Slot ι × Pc)
  | .creating i, .list order =>
    if (s.dir .record).isSome && !s.provisioned then some (s.release p, .idle)
    else s.startClear order (.new i)
  | .creating _, .fail => some (s.release p, .idle)
  | .clearing done (e :: todo) k, .go => some (s.put e none, .clearing (e :: done) todo k)
  | .clearing _ [] k, .go => some (s.cleared p k)
  | .clearing _ _ _, .fail => some (s.release p, .idle)
  | .reading, .go => if (s.dir .record).isSome then some (s.release p, .idle) else none
  | .reading, .list order => if (s.dir .record).isSome then none else s.startClear order .quit
  | .reading, .fail => if (s.dir .record).isSome then none else some (s.release p, .idle)
  | .removeStart, .go =>
    match s.lock with
    | some _ => some (s, .removing firmwareFiles)
    | none => some (s.hold p, .removeDiscard)
  | .removeDiscard, .list order => s.startClear order .remove
  | .removing (f :: todo), .go => some (s.putLive f none, .removing todo)
  | .removing [], .go => some (s, .idle)
  | .removeStart, .fail => some (s, .idle)
  | .removeDiscard, .fail => some (s.release p, .idle)
  | .removing _, .fail => some (s, .idle)
  | _, _ => none

end Slot

/-- One step of process `p`, which is at the place `pc`. -/
def slotThreads (ι : Type) [DecidableEq ι] : Threads ι (Slot ι) Pc Ev where
  trans p s pc ev :=
    match pc, ev with
    | _, .crash => some (s.release p, .idle)
    | .idle, ev => s.call p ev
    | .installing i w, ev => s.install p (.installing i w) ev
    | .syncing i todo, ev => s.install p (.syncing i todo) ev
    | .recording i, ev => s.install p (.recording i) ev
    | .publishing i, ev => s.install p (.publishing i) ev
    | .dropping, ev => s.install p .dropping ev
    | .applyRead, ev => s.apply p .applyRead ev
    | .applyLive r, ev => s.apply p (.applyLive r) ev
    | .applyAside r, ev => s.apply p (.applyAside r) ev
    | .applyUpdate r, ev => s.apply p (.applyUpdate r) ev
    | .moving r todo, ev => s.apply p (.moving r todo) ev
    | pc, ev => s.sweep p pc ev

/-- The slot's processes as a machine. -/
abbrev slotMachine (ι : Type) [DecidableEq ι] : Machine (Slot ι × (ι → Pc)) (ι × Ev) :=
  (slotThreads ι).machine

/-- A slot with nothing staged and no operation in progress. -/
def emptyStaging {ι : Type} (live : FirmwareFile → Option Install) (settings : InstanceSettings)
    (nextId : Nat) : Slot ι × (ι → Pc) :=
  (⟨live, settings, fun _ => none, none, nextId⟩, fun _ => .idle)

/-! ## What one step can do

  `Moves` lists the steps of the machine once, with their guards; every invariant of the slot is
  proved by going through this list (`moves_of_trans`) and never through the step functions. -/

/-- The steps of process `p` on the slot `s`: place and event before, slot and place after. -/
inductive Moves {ι : Type} [DecidableEq ι] (p : ι) (s : Slot ι) : Pc → Ev → Slot ι → Pc → Prop
  | busy {ev : Ev} : s.lock ≠ none → Moves p s .idle ev s .idle
  | lockNew {m r n} : s.lock = none → Moves p s .idle (.new m r n)
      { s.hold p with nextId := s.nextId + 1 } (.creating ⟨s.nextId, ⟨m, r, featureSet, n⟩⟩)
  | lockRead : s.lock = none → Moves p s .idle .pendingInstall (s.hold p) .reading
  | lockApply : s.lock = none → Moves p s .idle .applyStaged (s.hold p) .applyRead
  | startRemove : Moves p s .idle .remove s .removeStart
  | write {i f} : Moves p s (.installing i none) (.write f)
      (s.put (.file f) (some ⟨i, false⟩)) (.installing i (some f))
  | written {i f} : Moves p s (.installing i (some f)) .written
      (s.put (.file f) (some ⟨i, true⟩)) (.installing i none)
  | scratch {i} : Moves p s (.installing i none) .scratch
      (s.put .scratch (some ⟨i, true⟩)) (.installing i none)
  | finish {i} : Moves p s (.installing i none) .finish s (.syncing i firmwareFiles)
  | synced {i f todo} : (s.dir (.file f)).isSome →
      Moves p s (.syncing i (f :: todo)) .go s (.syncing i todo)
  | giveUp {pc : Pc} {ev : Ev} : pc.isInstall → Moves p s pc ev s .dropping
  | createTmp {i} : Moves p s (.syncing i []) .go
      (s.put .recordTmp (some ⟨i, false⟩)) (.recording i)
  | writeTmp {i} : Moves p s (.recording i) .go
      (s.put .recordTmp (some ⟨i, true⟩)) (.publishing i)
  | publish {i} : Moves p s (.publishing i) .go
      (((s.put .recordTmp none).put .record (some ⟨i, true⟩)).release p) .idle
  | listNew {i order} : (s.dir .record = none ∨ s.provisioned) → s.Lists order →
      Moves p s (.creating i) (.list order) s (.clearing [] order (.new i))
  | listQuit {pc : Pc} {order k} : pc.holds → (pc = .dropping ∨ s.dir .record = none) →
      (k = .quit ∨ k = .applyNone) → s.Lists order →
      Moves p s pc (.list order) s (.clearing [] order k)
  | listApplied {r order} : s.Lists order →
      Moves p s (.moving r []) (.list order) s (.clearing [] order (.applied r))
  | listRemove {order} : s.Lists order →
      Moves p s .removeDiscard (.list order) s (.clearing [] order .remove)
  | delete {done e todo k} : Moves p s (.clearing done (e :: todo) k) .go
      (s.put e none) (.clearing (e :: done) todo k)
  | clearedNew {done i} : Moves p s (.clearing done [] (.new i)) .go s (.installing i none)
  | clearedRemove {done} : Moves p s (.clearing done [] .remove) .go
      (s.release p) (.removing firmwareFiles)
  | readRecord {c} : s.dir .record = some c → Moves p s .applyRead .go s (.applyLive c.writer)
  | lockLive {r} : Moves p s (.applyLive r) .go s (.applyAside r)
  | readable {r} : Moves p s (.applyAside r) .go s (.applyUpdate r)
  | aside {r} : Moves p s (.applyAside r) .aside { s with settings := {} } (.applyUpdate r)
  | update {r} : Moves p s (.applyUpdate r) .go
      { s with settings := r.record.settings } (.moving r firmwareFiles)
  | rename {r f todo c} : s.dir (.file f) = some c → Moves p s (.moving r (f :: todo)) .go
      ((s.putLive f (some c.writer)).put (.file f) none) (.moving r todo)
  | skip {r f todo} : s.dir (.file f) = none →
      Moves p s (.moving r (f :: todo)) .go s (.moving r todo)
  | lockRemove : s.lock = none → Moves p s .removeStart .go (s.hold p) .removeDiscard
  | skipDiscard {q} : s.lock = some q → Moves p s .removeStart .go s (.removing firmwareFiles)
  | removeLive {f todo} : Moves p s (.removing (f :: todo)) .go (s.putLive f none) (.removing todo)
  | quitRemove {pc : Pc} {ev : Ev} : pc.holds = false → Moves p s pc ev s .idle
  | leave {pc : Pc} {ev : Ev} : (ev = .fail ∨ ev = .crash ∨ pc.ends) →
      Moves p s pc ev (s.release p) .idle

section Inversion

variable {ι : Type} [DecidableEq ι] {p : ι} {s t : Slot ι} {pc l : Pc} {ev : Ev}

omit [DecidableEq ι] in
theorem startClear_some {order : List Entry} {k : After}
    (h : s.startClear order k = some (t, l)) :
    s.Lists order ∧ t = s ∧ l = .clearing [] order k := by
  unfold Slot.startClear at h
  split at h
  · rename_i hl
    simp only [Option.some.injEq, Prod.mk.injEq] at h
    exact ⟨hl, h.1.symm, h.2.symm⟩
  · nomatch h

theorem moves_of_call (h : s.call p ev = some (t, l)) : Moves p s .idle ev t l := by
  fun_cases Slot.call s p ev
  all_goals simp only [Slot.call, *, Option.some.injEq, Prod.mk.injEq, reduceCtorEq] at h
  all_goals obtain ⟨rfl, rfl⟩ := h
  all_goals first
    | exact .busy (by simp [*])
    | exact .lockNew ‹_›
    | exact .lockRead ‹_›
    | exact .lockApply ‹_›
    | exact .startRemove

theorem moves_of_install (h : s.install p pc ev = some (t, l)) : Moves p s pc ev t l := by
  fun_cases Slot.install s p pc ev
  all_goals simp only [Slot.install, *, Option.some.injEq, Prod.mk.injEq, reduceCtorEq,
    ↓reduceIte] at h
  all_goals try obtain ⟨rfl, rfl⟩ := h
  all_goals first
    | exact .write
    | exact .written
    | exact .scratch
    | exact .finish
    | exact .synced ‹_›
    | exact .giveUp rfl
    | exact .createTmp
    | exact .writeTmp
    | exact .publish
    | exact .leave (by simp [Pc.ends])
    | (obtain ⟨hl, rfl, rfl⟩ := startClear_some h; exact .listQuit rfl (.inl rfl) (.inl rfl) hl)

theorem moves_of_apply (h : s.apply p pc ev = some (t, l)) : Moves p s pc ev t l := by
  fun_cases Slot.apply s p pc ev
  all_goals simp only [Slot.apply, *, Option.some.injEq, Prod.mk.injEq, reduceCtorEq,
    ↓reduceIte, Bool.false_eq_true] at h
  all_goals try obtain ⟨rfl, rfl⟩ := h
  all_goals first
    | exact .readRecord ‹_›
    | exact .lockLive
    | exact .readable
    | exact .aside
    | exact .update
    | exact .rename ‹_›
    | exact .skip ‹_›
    | exact .leave (by simp [Pc.ends])
    | (obtain ⟨hl, rfl, rfl⟩ := startClear_some h; exact .listApplied hl)
    | (obtain ⟨hl, rfl, rfl⟩ := startClear_some h
       exact .listQuit rfl (.inr (by simp_all)) (.inr rfl) hl)

theorem moves_of_cleared {done : List Entry} {k : After} (h : s.cleared p k = (t, l)) :
    Moves p s (.clearing done [] k) .go t l := by
  cases k with
  | new i => cases h; exact .clearedNew
  | remove => cases h; exact .clearedRemove
  | quit => cases h; exact .leave (by simp [Pc.ends])
  | applyNone => cases h; exact .leave (by simp [Pc.ends])
  | applied r => cases h; exact .leave (by simp [Pc.ends])

theorem moves_of_sweep (h : s.sweep p pc ev = some (t, l)) : Moves p s pc ev t l := by
  fun_cases Slot.sweep s p pc ev
  case case2 i order hr =>
    rw [Slot.sweep, if_neg hr] at h
    have hready : s.dir .record = none ∨ s.provisioned := by
      cases hd : s.dir .record with
      | none => exact .inl rfl
      | some c => simpa [hd] using hr
    obtain ⟨hl, rfl, rfl⟩ := startClear_some h
    exact .listNew hready hl
  all_goals simp only [Slot.sweep, *, Option.some.injEq, Prod.mk.injEq, reduceCtorEq,
    ↓reduceIte, Bool.false_eq_true] at h
  all_goals try obtain ⟨rfl, rfl⟩ := h
  all_goals first
    | exact moves_of_cleared h
    | exact .delete
    | exact .lockRemove ‹_›
    | exact .skipDiscard ‹_›
    | exact .removeLive
    | exact .quitRemove rfl
    | exact .leave (by simp [Pc.ends])
    | (obtain ⟨hl, rfl, rfl⟩ := startClear_some h; exact .listRemove hl)
    | (obtain ⟨hl, rfl, rfl⟩ := startClear_some h
       exact .listQuit rfl (.inr (by simp_all)) (.inl rfl) hl)

/-- **Inversion.**  Every step of the machine is one of the listed moves. -/
theorem moves_of_trans (h : (slotThreads ι).trans p s pc ev = some (t, l)) :
    Moves p s pc ev t l := by
  simp only [slotThreads] at h
  split at h
  · cases h
    exact .leave (by simp [Pc.ends])
  · exact moves_of_call h
  all_goals first
    | exact moves_of_install h
    | exact moves_of_apply h
    | exact moves_of_sweep h

end Inversion

/-! ## The staging lock -/

/-- `p` at the place `pc` respects the lock: it is at a holding place exactly
    while it is the holder. -/
def Owns {ι : Type} (p : ι) (s : Slot ι) (pc : Pc) : Prop := pc.holds = true ↔ s.lock = some p

section Lock

variable {ι : Type} [DecidableEq ι] {p q : ι} {s t : Slot ι} {pc l : Pc} {ev : Ev}

theorem Pc.holds_of_isInstall (h : pc.isInstall) : pc.holds := by
  cases pc <;> simp_all [Pc.holds, Pc.isInstall]

/-- A move keeps the mover's ownership. -/
theorem Moves.owns (h : Moves p s pc ev t l) (hp : Owns p s pc) : Owns p t l := by
  unfold Owns at *
  cases h with
  | giveUp hi => exact ⟨fun _ => hp.mp (Pc.holds_of_isInstall hi), fun _ => rfl⟩
  | listQuit hh => exact ⟨fun _ => hp.mp hh, fun _ => rfl⟩
  | _ => simp_all [Pc.holds, Slot.hold, Slot.put, Slot.putLive, Slot.release]

/-- A move takes the lock for the mover, drops it, or leaves it. -/
theorem Moves.lock (h : Moves p s pc ev t l) :
    t.lock = s.lock ∨ t.lock = some p ∨ t.lock = none := by
  cases h with
  | leave => by_cases hl : s.lock = some p <;> simp [Slot.release, hl]
  | publish => by_cases hl : s.lock = some p <;> simp [Slot.release, Slot.put, hl]
  | clearedRemove => by_cases hl : s.lock = some p <;> simp [Slot.release, hl]
  | _ => simp [Slot.hold, Slot.put, Slot.putLive]

/-- **Mutual exclusion.**  While `q` holds the lock, a move of another process changes neither the
    staging dir nor the settings nor the lock, and it starts and ends outside the lock. -/
theorem Moves.frame (h : Moves p s pc ev t l) (hp : Owns p s pc) (hq : s.lock = some q)
    (hne : q ≠ p) : t.dir = s.dir ∧ t.settings = s.settings ∧ t.lock = some q := by
  have hfree : pc.holds = false := by
    by_contra hh
    exact hne (Option.some.inj (hq.symm.trans (hp.mp (by simpa using hh))))
  cases h with
  | giveUp hi => rw [Pc.holds_of_isInstall hi] at hfree; nomatch hfree
  | listQuit hh => rw [hfree] at hh; nomatch hh
  | leave => simp [Slot.release, hq, hne]
  | _ => simp_all [Pc.holds, Slot.putLive]

/-- A move of one process does not disturb another's ownership. -/
theorem Moves.owns_other (h : Moves p s pc ev t l) (hp : Owns p s pc) (hne : q ≠ p) {pq : Pc}
    (hq : Owns q s pq) : Owns q t pq := by
  refine ⟨fun hh => (h.frame hp (hq.mp hh) hne).2.2, fun ht => hq.mpr ?_⟩
  rcases h.lock with hl | hl | hl
  · exact hl ▸ ht
  · exact absurd (Option.some.inj (ht.symm.trans hl)) hne
  · rw [hl] at ht; nomatch ht

end Lock

end CdjEmu.Storage
