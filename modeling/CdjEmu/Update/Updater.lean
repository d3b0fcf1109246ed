/-
  THE UPDATER — one window, its worker thread, and the restarts of the app.

  The window starts one thread at a time: a check, an update or a restart.  A frame of the window is
  one step; the thread's calls come between the frames, and the app may end at any of them.  A quit
  applies what is prepared, also while a thread is at work.

  1. `Sound o` — what the store keeps: a file that something else reads is as it was or a package
     that a signed index offers, and what is prepared is the whole package of `o`.
  2. `checkThread_safe`, `updateThread_safe`, `restartThread_safe` — each thread keeps it whatever
     the window does meanwhile.
  3. `genuine_of_reach`, `ready_of_reach` — so it holds in every run.

  The windows of other slots do not update here: their updaters would write the same file beside the
  AppImage.

  The phases that the window shows are the source's, with what they carry; frames of the window are
  drawn from the phase alone, and a click starts a thread only in a phase that offers it.  The index
  and its signature are parameters: what is offered comes from an index whose signature holds.  A
  restart closes the other windows, stops the emulation and installs, in that order, and shows each
  of the three.

  The crux is that the store's law is stable: what the window does between the calls of a thread
  never removes or changes a file that the thread has found (`Keeping`), but for a quit, which
  applies what is prepared and ends the app.  A part of a file is only ever under a name that nobody
  reads, the `.part` names among them.
-/
import CdjEmu.Lib.Chars
import CdjEmu.Lib.Interference
import CdjEmu.Lib.Machine
import CdjEmu.Update.Install

namespace CdjEmu.Update

open Chars Machine Prog

/-! ## The check -/

/-- What the updater uses of base64, Ed25519, JSON and SHA-256. -/
structure Crates where
  sha256 : Sha256
  /-- `STANDARD.decode`. -/
  decode64 : Chars → Option Bytes
  /-- `PublicKey::from_slice`, `Signature::from_slice` and `PublicKey::verify`. -/
  publicKey : Bytes → Bool
  signature : Bytes → Bool
  verify : Bytes → Bytes → Bytes → Bool
  /-- `serde_json::from_slice`: the schema, and what follows it. -/
  index : Bytes → Option (UInt32 × Index)

/-- What does not change from one build to the next. -/
structure Build where
  /-- `UPDATE_KEY`. -/
  updateKey : Chars
  os : Chars
  arch : Chars
  /-- `installed_kind`. -/
  kind : Option Kind

/-- `SCHEMA`. -/
def SCHEMA : UInt32 := 1

/-- `String::from_utf8`. -/
def fromUtf8 (b : Bytes) : Option Chars := (String.fromUTF8? ⟨b.toArray⟩).map String.toList

/-- `decode`. -/
def decode (k : Crates) (text : Chars) : Option Bytes := k.decode64 (trim text)

/-- `verify_with`. -/
def verifyWith (k : Crates) (publicKey : Chars) (data : Bytes) (signature : Chars) :
    Except Trouble Unit :=
  match (decode k publicKey).filter k.publicKey with
  | none => .error .keyUnreadable
  | some key =>
    match (decode k signature).filter k.signature with
    | none => .error .signatureMalformed
    | some sig => if k.verify key data sig then .ok () else .error .unsigned

/-- `Index::parse`. -/
def Index.parse (k : Crates) (bytes : Bytes) : Except Trouble Index :=
  match k.index bytes with
  | none => .error .malformed
  | some (schema, index) => if SCHEMA < schema then .error (.schema schema) else .ok index

/-- `installs_itself`. -/
def Kind.installsItself (kind : Kind) : Bool := kind = .appImage || kind = .inno

/-- `prune_downloads`. -/
def pruneDownloads (running : Chars) : Run Unit :=
  match Version.parse running with
  | none => pure ()
  | some running => do
    let names : List Chars ← ask .folders
    forEach (fun name => if isStaleDownload name running then do
      let _ ← ask (.discard name)
      pure ()
    else pure ()) names

/-- What an index and its signature say, once they are here. -/
def judge (k : Crates) (b : Build) (running : Chars) (kind : Kind) (data sig : Bytes) :
    Except Trouble Status := do
  let sig ← (fromUtf8 sig).elim (.error .notText) .ok
  verifyWith k b.updateKey data sig
  let index ← Index.parse k data
  (evaluate index running b.os b.arch kind).mapError .index

/-- `check`; `none` is `Unmanaged`. -/
def check (k : Crates) (b : Build) (running : Chars) : Try (Option Status) := do
  ExceptT.lift (pruneDownloads running)
  match b.kind with
  | none => return none
  | some kind => do
    let data ← octetsOf (ask .fetchIndex)
    let sig ← octetsOf (ask .fetchSignature)
    let status ← ExceptT.mk (pure (judge k b running kind data sig))
    return some status

/-! ## The threads -/

/-- The phase that a check ends in. -/
def Phase.afterCheck : Except Trouble (Option Status) → Phase
  | .ok none => .unmanaged
  | .ok (some (.current latest notes releaseNotes)) => .current latest notes releaseNotes
  | .ok (some (.available o)) => .available o
  | .ok (some (.noPackage latest)) => .noPackage latest
  | .error e => .failed e none

/-- `check`, and the phase that it leads to. -/
def checkThread (k : Crates) (b : Build) (running : Chars) : Run Unit := do
  let r ← (check k b running).run
  ask (.setPhase (.afterCheck r))

/-- The closure of `update`. -/
def fetched (k : Crates) (o : Offer) : Try Phase := do
  let name ← download k.sha256 o
  if o.kind.installsItself then do
    ExceptT.lift (ask (.setPhase (.preparing o)))
    prepare (.package o.version name) o.kind
    ExceptT.lift (ask .setPrepared)
    return .ready o
  else do
    let path ← handOver (.package o.version name) name o.kind
    let _ ← ExceptT.lift (ask (.discard (downloadName o.version)))
    return .downloaded o path

/-- `update`: the download and what follows it; a cancelled one is thrown away. -/
def updateThread (k : Crates) (o : Offer) : Run Unit := do
  let r ← (fetched k o).run
  match r with
  | .ok next => ask (.setPhase next)
  | .error .cancelled => do
    let _ ← ask (.discard (downloadName o.version))
    ask (.setPhase (.available o))
  | .error e => ask (.setPhase (.failed e (some o)))

/-- The closure of `restart`.  The `Prepared` that was taken drops at its end, or is put back. -/
def installed (o : Offer) : Try Unit := do
  ExceptT.lift (ask (.setPhase (.restarting .closing)))
  must (ask .closeOthers) .slotsOpen
  ExceptT.lift (ask (.setPhase (.restarting .stopping)))
  must (ask .stopEmulation) .notStopped
  ExceptT.lift (ask (.setPhase (.restarting (.installing o))))
  let taken : Bool ← ExceptT.lift (ask .takePrepared)
  if taken then .mk do
    let r ← apply.run
    match r with
    | .ok () => do
      let _ ← remove .staged
      pure (.ok ())
    | .error e => do
      ask .setPrepared
      pure (.error e)
  else throw .nothingPrepared

/-- `restart`: the other windows, the emulation, the install. -/
def restartThread (o : Offer) : Run Unit := do
  let r ← (installed o).run
  match r with
  | .ok () => ask (.setPhase .exiting)
  | .error e => ask (.setPhase (.failed e (some o)))

/-! ## The window -/

/-- The window: its store, the thread that is busy, and the version that runs. -/
structure State where
  store : Store
  /-- What is left of the thread's work, while one is busy. -/
  thread : Option (Run Unit)
  /-- This build's version. -/
  running : Chars

/-- A button, a quit, a call of the thread, or the start of the next build. -/
inductive Event where
  /-- A check, from the menu or when one is due; `spawned`: its thread starts. -/
  | check (spawned : Bool)
  /-- "Update", or an automatic check's offer. -/
  | update (spawned : Bool)
  /-- "Restart". -/
  | restart (spawned : Bool)
  /-- "Try Again". -/
  | retry (spawned : Bool)
  /-- `apply_on_quit`, and what becomes of its two calls. -/
  | quit (renamed removed : Bool)
  /-- The thread's next call, with the answer that `pick` has for it. -/
  | thread (pick : (c : Call) → c.Reply)
  /-- The app ends, and starts again as this version; `dropped`: what was prepared is deleted. -/
  | again (running : Chars) (dropped : Bool)

/-- `apply_on_quit`. -/
def quit (s : Store) (renamed removed : Bool) : Option Store :=
  if s.prepared then (answer (.rename .staged .image) renamed { s with prepared := false }).bind
    (answer (.remove .staged) removed) else none

/-- A thread that `spawn` starts. -/
def State.spawn (s : State) (store : Store) (spawned : Bool) (work : Run Unit) : State :=
  { s with store := store, thread := if spawned then some work else none }

/-- A check is started. -/
def State.check (k : Crates) (b : Build) (s : State) (spawned : Bool) : State :=
  s.spawn (s.store.at_ .checking) spawned (checkThread k b s.running)

/-- What a frame of the window starts, where no thread is busy. -/
def State.act (k : Crates) (b : Build) (s : State) : Event → Option State
  | .check spawned => if s.store.prepared then none else some (s.check k b spawned)
  | .update spawned =>
    match s.store.phase with
    | .available o => some (s.spawn s.store spawned (updateThread k o))
    | _ => none
  | .restart spawned =>
    match s.store.phase with
    | .ready o => some (s.spawn s.store spawned (restartThread o))
    | _ => none
  | .retry spawned =>
    match s.store.phase with
    | .failed _ (some o) =>
      if s.store.prepared then some (s.spawn s.store spawned (restartThread o)) else
        some (s.spawn s.store spawned (updateThread k o))
    | .failed _ none => some (s.check k b spawned)
    | _ => none
  | _ => none

/-- The thread's next call, or its end. -/
def State.work (s : State) (pick : (c : Call) → c.Reply) : Option State :=
  match s.thread with
  | none => none
  | some (.done ()) => some { s with thread := none }
  | some (.call c next) => (answer c (pick c) s.store).map fun t =>
      { s with store := t, thread := some (next (pick c)) }

/-- The next start of the app: `shared` is new. -/
def State.again (s : State) (running : Chars) (dropped : Bool) : State :=
  { store :=
      { (if s.store.prepared && dropped then s.store.put .staged none else s.store) with
        phase := .checking, prepared := false },
    thread := none, running := running }

/-- The machine.  While a thread is busy the window only quits or draws. -/
def updater (k : Crates) (b : Build) : Machine State Event where
  step s a := match a with
    | .quit renamed removed => (quit s.store renamed removed).map fun t => { s with store := t }
    | .thread pick => s.work pick
    | .again running dropped => some (s.again running dropped)
    | a => if s.thread.isSome then none else s.act k b a

/-- The app as it first starts. -/
def State.init (files : Place → Option Bytes) (running : Chars) : State :=
  ⟨⟨files, .checking, false⟩, none, running⟩

/-! ## What the store keeps -/

/-- A signed index offers `o` to this installation. -/
def Promised (k : Crates) (b : Build) (o : Offer) : Prop :=
  ∃ running kind data sig index, b.kind = some kind ∧ verifyWith k b.updateKey data sig = .ok () ∧
  Index.parse k data = .ok index ∧
    evaluate index running b.os b.arch kind = .ok (.available o)

/-- As it was, or a whole package that a signed index offers. -/
def Genuine (k : Crates) (b : Build) (old now : Option Bytes) : Prop :=
  now = old ∨ ∃ o c, Promised k b o ∧ Right k.sha256 o.package c ∧ now = some c

/-- Something else reads it: the host starts the AppImage, the user finds the packages in the
    downloads folder.  The part file that `hand_over` writes beside a package there is left out:
    where the app ends inside the copy, it stays, cut short. -/
def Place.Lasting : Place → Prop
  | image | handed _ => True
  | staged | package _ _ | part _ _ | handedPart _ => False

/-- The offer that a phase has with it. -/
def Phase.offer : Phase → Option Offer
  | available o | downloading o _ | preparing o | ready o | downloaded o _
  | restarting (.installing o) => some o
  | failed _ o => o
  | checking | current _ _ _ | unmanaged | noPackage _ | restarting .closing | restarting .stopping
  | exiting => none

/-- A phase from which a restart would install the package of `o`. -/
def Phase.Waits (o : Offer) : Phase → Prop
  | preparing a | ready a | restarting (.installing a) => a = o
  | failed _ a => a = some o
  | restarting .closing | restarting .stopping => True
  | checking | current _ _ _ | unmanaged | noPackage _ | available _ | downloading _ _
  | downloaded _ _ | exiting => False

/-- What is kept of the store; `o` is the offer whose package is prepared, if one is. -/
structure Sound (k : Crates) (b : Build) (first : Place → Option Bytes) (o : Option Offer)
    (s : Store) : Prop where
  genuine : ∀ f, f.Lasting → Genuine k b (first f) (s.files f)
  known : ∀ a, o = some a → Promised k b a
  offered : ∀ a, s.phase.offer = some a → Promised k b a
  ready : s.prepared = true → ∃ a c, o = some a ∧ Right k.sha256 a.package c ∧
    s.files .staged = some c ∧ s.phase.Waits a

section Keeping

variable {k : Crates} {b : Build} {first : Place → Option Bytes} {o : Option Offer} {s t : Store}

/-- A file is written: what others read stays genuine, and the staged file only
    while nothing is prepared. -/
theorem Sound.put (h : Sound k b first o s) {f : Place} {c : Option Bytes}
    (hlasting : f.Lasting → Genuine k b (first f) c) (hstaged : f = .staged → s.prepared = false) :
    Sound k b first o (s.put f c) where
  genuine g hg := by
    by_cases hgf : g = f
    · subst hgf
      rw [Store.put_self]
      exact hlasting hg
    · rw [Store.put_of_ne hgf]
      exact h.genuine g hg
  known := h.known
  offered := h.offered
  ready hprepared := by
    obtain ⟨a, d, ha, hd, hfile, hwaits⟩ := h.ready hprepared
    have hne : Place.staged ≠ f :=
      fun he => absurd (hstaged he.symm) (by rw [show s.prepared = true from hprepared]; simp)
    exact ⟨a, d, ha, hd, (Store.put_of_ne hne s c).trans hfile, hwaits⟩

/-- The phase changes: what it offers is promised, and what is prepared
    still waits for its offer. -/
theorem Sound.at_ (h : Sound k b first o s) {p : Phase}
    (hoffer : ∀ a, p.offer = some a → Promised k b a) (hwaits : s.prepared = true →
      ∀ a, o = some a → s.phase.Waits a → p.Waits a) : Sound k b first o (s.at_ p) where
  genuine := h.genuine
  known := h.known
  offered := hoffer
  ready hprepared := by
    obtain ⟨a, c, ha, hc, hfile, hw⟩ := h.ready hprepared
    exact ⟨a, c, ha, hc, hfile, hwaits hprepared a ha hw⟩

/-- Neither the AppImage nor what is prepared is in a download's folder. -/
theorem Sound.discard (h : Sound k b first o s) (folder : Chars) (gone : Place → Bool) :
    Sound k b first o (s.discard folder gone) where
  genuine f hf := by
    cases f with
    | image => exact h.genuine _ hf
    | handed name => exact h.genuine _ hf
    | staged => exact hf.elim
    | package version name => exact hf.elim
    | part version name => exact hf.elim
    | handedPart name => exact hf.elim
  known := h.known
  offered := h.offered
  ready := h.ready

/-- The AppImage is replaced or not, and the staged file is gone or not. -/
theorem quit_cases {x y : Bool} (h : quit s x y = some t) :
    s.prepared = true ∧ ∃ u, (u = { s with prepared := false } ∨
      ∃ c, s.files .staged = some c ∧
      u = (({ s with prepared := false } : Store).put .staged none).put .image (some c)) ∧
      (t = u ∨ t = u.put .staged none) := by
  unfold Update.quit at h
  split at h
  · rename_i hprepared
    obtain ⟨u, hu, ht⟩ := Option.bind_eq_some_iff.mp h
    refine ⟨hprepared, u, ?_, ?_⟩
    · cases x with
      | true =>
        obtain ⟨c, hc, rfl⟩ := Option.map_eq_some_iff.mp hu
        exact Or.inr ⟨c, hc, rfl⟩
      | false =>
        cases hu
        exact Or.inl rfl
    · cases y with
      | true =>
        cases ht
        exact Or.inr rfl
      | false =>
        cases ht
        exact Or.inl rfl
  · cases h

/-- A quit that does anything had something prepared, and has nothing prepared any more. -/
theorem quit_prepared {x y : Bool} (h : quit s x y = some t) :
    s.prepared = true ∧ t.prepared = false ∧ t.phase = s.phase := by
  obtain ⟨hprepared, u, rfl | ⟨c, -, rfl⟩, rfl | rfl⟩ := quit_cases h
  all_goals exact ⟨hprepared, rfl, rfl⟩

/-- What is prepared is whole, so the AppImage that a quit leaves is. -/
theorem Sound.quit {x y : Bool} (h : Sound k b first o s) (hquit : quit s x y = some t) :
    Sound k b first o t := by
  obtain ⟨hprepared, u, hu, ht⟩ := quit_cases hquit
  have htaken : Sound k b first o { s with prepared := false } :=
    ⟨h.genuine, h.known, h.offered, fun hp => by cases hp⟩
  have hu : Sound k b first o u ∧ u.prepared = false := by
    obtain rfl | ⟨c, hc, rfl⟩ := hu
    · exact ⟨htaken, rfl⟩
    · obtain ⟨a, d, ha, hd, hfile, -⟩ := h.ready hprepared
      rw [hc] at hfile
      cases hfile
      refine ⟨(htaken.put (f := .staged) (fun hf => hf.elim) fun _ => rfl).put
        (fun _ => Or.inr ⟨a, c, h.known a ha, hd, rfl⟩) fun _ => rfl, rfl⟩
  obtain rfl | rfl := ht
  · exact hu.1
  · exact hu.1.put (f := .staged) (fun hf => hf.elim) fun _ => hu.2

/-- What the window does to the store while a thread is at work. -/
def Quits (s t : Store) : Prop := t = s ∨ ∃ x y, quit s x y = some t

/-- A run that does nothing has not quit. -/
theorem Quits.refl (s : Store) : Quits s s := Or.inl rfl

/-- Quits one after the other are one: a second one finds nothing prepared. -/
theorem Quits.trans (s t u : Store) (h : Quits s t) (h' : Quits t u) : Quits s u := by
  obtain rfl | ⟨x, y, hquit⟩ := h
  · exact h'
  · obtain rfl | ⟨x', y', hquit'⟩ := h'
    · exact Or.inr ⟨x, y, hquit⟩
    · have htaken := (quit_prepared hquit).2.1
      have hprepared := (quit_prepared hquit').1
      rw [htaken] at hprepared
      cases hprepared

/-- What the window does while a thread works keeps the store sound. -/
theorem Sound.others (h : Sound k b first o s) (hquits : Quits s t) : Sound k b first o t := by
  obtain rfl | ⟨x, y, hquit⟩ := hquits
  · exact h
  · exact h.quit hquit

/-- With nothing prepared the window leaves the store alone. -/
theorem Quits.eq (hprepared : s.prepared = false) (h : Quits s t) : t = s := by
  obtain rfl | ⟨x, y, hquit⟩ := h
  · rfl
  · have hp := (quit_prepared hquit).1
    rw [hprepared] at hp
    cases hp

end Keeping

/-! ## What each thread keeps -/

section Threads

variable {k : Crates} {b : Build} {first : Place → Option Bytes} {o : Option Offer} {s : Store}

/-- With nothing prepared, a thread runs as if it were alone. -/
theorem safe_alone {α : Type} {I : Store → Prop} {Q : α → Store → Prop} {p : Run α}
    (hI : ∀ t, I t → Sound k b first o t ∧ t.prepared = false) (h : Always effect I Q p s) :
    Safe effect (Sound k b first o) Quits (fun a t => I t ∧ Q a t) p s :=
  Safe.of_alone (J := fun t => t.prepared = false) (fun _ _ hp hquits => hquits.eq hp)
    (h.mono (fun _ _ _ _ hr => hr) hI fun _ _ hI hQ => ⟨hI, hQ⟩)

/-- The phase that a thread ends in. -/
theorem setPhase_safe {p : Phase} (h : Sound k b first o s)
    (hp : ∀ t, Sound k b first o t → Quits s t → Sound k b first o (t.at_ p)) :
    Safe effect (Sound k b first o) Quits (fun _ t => t.phase = p) (ask (.setPhase p)) s := by
  intro t ht
  refine ⟨h.others ht, fun r u hu w hw => ?_⟩
  cases hu
  refine ⟨(hp t (h.others ht) ht).others hw, ?_⟩
  obtain rfl | ⟨x, y, hquit⟩ := hw
  · rfl
  · exact (quit_prepared hquit).2.2

/-- Discarding a folder keeps what holds whatever goes with it. -/
theorem discard_law {I : Store → Prop} (folder : Chars) (hI : ∀ gone, I (s.discard folder gone))
    (hs : I s) :
    Always effect I (fun _ _ => True) (ask (.discard folder)) s := by
  refine ⟨hs, fun gone t ht => ?_⟩
  cases ht
  exact ⟨hI gone, trivial⟩

/-- Pruning removes folders of old downloads, and nothing that is prepared. -/
theorem pruneDownloads_law (running : Chars) (hs : Sound k b first o s ∧ s.prepared = false) :
    Always effect (fun t => Sound k b first o t ∧ t.prepared = false) (fun _ _ => True)
      (pruneDownloads running) s := by
  unfold pruneDownloads
  split
  · exact ⟨hs, trivial⟩
  · refine ⟨hs, fun names t ht => ?_⟩
    cases ht
    refine Always.forEach (J := fun _ _ => True) ⟨hs, trivial⟩ fun name _ t ht _ => ?_
    split
    · exact Always.bind (discard_law name (fun gone => ⟨ht.1.discard name gone, ht.2⟩) ht)
        fun _ _ hu _ => ⟨hu, trivial⟩
    · exact ⟨ht, trivial⟩

/-- An offer that `judge` makes is one of a signed index. -/
theorem judge_promises {running : Chars} {kind : Kind} {data sig : Bytes} {a : Offer}
    (hkind : b.kind = some kind) (h : judge k b running kind data sig = .ok (.available a)) :
    Promised k b a := by
  obtain ⟨text, -, h⟩ := bind_eq_ok.mp h
  obtain ⟨_, hverify, h⟩ := bind_eq_ok.mp h
  obtain ⟨index, hindex, h⟩ := bind_eq_ok.mp h
  cases hstatus : evaluate index running b.os b.arch kind with
  | error e =>
    rw [hstatus] at h
    cases h
  | ok status =>
    rw [hstatus] at h
    cases h
    exact ⟨running, kind, data, text, index, hkind, hverify, hindex, hstatus⟩

/-- A fetch changes nothing here. -/
theorem fetchIndex_law {I : Store → Prop} (hI : I s) :
    Always effect I (fun _ t => t = s) (octetsOf (ask .fetchIndex)).run s := by
  refine ⟨hI, fun r t hr => ?_⟩
  cases hr
  exact ⟨hI, rfl⟩

/-- Fetching the signature writes nothing. -/
theorem fetchSignature_law {I : Store → Prop} (hI : I s) :
    Always effect I (fun _ t => t = s) (octetsOf (ask .fetchSignature)).run s := by
  refine ⟨hI, fun r t hr => ?_⟩
  cases hr
  exact ⟨hI, rfl⟩

/-- What a check finds is promised. -/
theorem check_law (running : Chars) (hs : Sound k b first o s ∧ s.prepared = false) :
    Always effect (fun t => Sound k b first o t ∧ t.prepared = false)
      (fun r _ => ∀ a, (Phase.afterCheck r).offer = some a → Promised k b a)
      (check k b running).run s := by
  refine Always.lifted (pruneDownloads_law running hs) fun _ t ht _ => ?_
  cases hkind : b.kind with
  | none => exact ⟨ht, fun a ha => by cases ha⟩
  | some kind =>
    refine Always.andThen (fetchIndex_law ht) (fun data u hu hut => ?_) fun e u _ _ a ha => by
      cases ha
    subst hut
    refine Always.andThen (fetchSignature_law hu) (fun sig v hv hvu => ?_) fun e v _ _ a ha => by
      cases ha
    subst hvu
    refine Always.andThen (P := fun r w => w = v ∧ r = judge k b running kind data sig)
      ⟨hv, rfl, rfl⟩ ?_ fun e w _ _ a ha => by cases ha
    rintro status w hw ⟨rfl, hstatus⟩
    refine ⟨hw, fun a ha => ?_⟩
    cases status with
    | current latest notes releaseNotes => cases ha
    | available o =>
      cases ha
      exact judge_promises hkind hstatus.symm
    | noPackage latest => cases ha

/-- The check's thread keeps the store sound, whatever the window does meanwhile. -/
theorem checkThread_safe (running : Chars) (h : Sound k b first o s)
    (hprepared : s.prepared = false) :
    Safe effect (Sound k b first o) Quits (fun _ _ => True) (checkThread k b running) s := by
  refine Safe.bind Quits.refl (safe_alone (fun _ ht => ht) (check_law running ⟨h, hprepared⟩))
    fun r t ht hr => ?_
  refine (setPhase_safe ht fun u hu hut => ?_).mono fun _ _ _ => trivial
  rw [hut.eq hr.1.2] at hu ⊢
  exact hu.at_ hr.2 fun hp => absurd hp (by rw [hr.1.2]; simp)

variable {a : Offer}

/-- A whole staged file becomes what is prepared. -/
theorem setPrepared_safe {c : Bytes} (h : Sound k b first (some a) s)
    (hprepared : s.prepared = false) (hright : Right k.sha256 a.package c)
    (hstaged : s.files .staged = some c) (hwaits : s.phase.Waits a) :
    Safe effect (Sound k b first (some a)) Quits (fun _ _ => True) (ask .setPrepared) s := by
  intro t ht
  obtain rfl := ht.eq hprepared
  refine ⟨h, fun r u hu w hw => ⟨Sound.others ?_ hw, trivial⟩⟩
  cases hu
  exact ⟨h.genuine, h.known, h.offered, fun _ => ⟨a, c, rfl, hright, hstaged, hwaits⟩⟩

/-- The download and the preparation end with the offer's build prepared, or
    with nothing prepared. -/
theorem fetched_safe (h : Sound k b first (some a) s) (hprepared : s.prepared = false) :
    Safe effect (Sound k b first (some a)) Quits
      (fun r t => r = .ok (.ready a) ∨ t.prepared = false ∧
      ((∃ path, r = .ok (.downloaded a path)) ∨ ∃ e, r = .error e)) (fetched k a).run s := by
  have hpromised := h.known a rfl
  -- until the build is prepared, nothing is: that is what is carried along
  let Calm (t : Store) : Prop := Sound k b first (some a) t ∧ t.prepared = false
  have hphase : ∀ t p, p.offer = some a → Calm t → Calm (t.at_ p) := fun t p hp ht =>
    ⟨ht.1.at_ (fun c hc => by rw [hp] at hc; cases hc; exact hpromised) fun hp => absurd hp
      (by rw [ht.2]; simp), ht.2⟩
  have hput : ∀ t f c, (f.Lasting → Genuine k b (first f) c) → Calm t → Calm (t.put f c) :=
    fun t f c hf ht =>
    ⟨ht.1.put hf fun _ => ht.2, ht.2⟩
  -- the download writes the package and its part file only
  have hdownload := download_law (I := Calm) (S := k.sha256) (o := a) (s := s)
      (fun name t c _ => hput t _ c False.elim)
    (fun t n => hphase t _ rfl)
      (fun name t c _ _ ht => hput _ _ _ False.elim (hput _ _ _ False.elim ht)) ⟨h, hprepared⟩
  refine Safe.andThen Quits.refl (safe_alone (fun _ ht => ht) hdownload)
    (fun name t ht hr => ?_) fun e t ht hr u hu => ?_
  -- the download has succeeded, with a file of the right size and digest
  · obtain ⟨hcalm, ⟨_, c, hname, -, hright, hfile⟩ | ⟨_, herror, -⟩⟩ := hr
    · cases hname
      split
      · -- the new build is prepared beside this one, and only then is there a `Prepared`
        refine Safe.lifted Quits.refl
          (safe_alone (fun _ ht => ht)
            (setPhase_law (p := .preparing a) hcalm (hphase t _ rfl hcalm)))
          fun _ u hu hut => ?_
        obtain ⟨hcalm, rfl⟩ := hut
        refine Safe.andThen Quits.refl
          (safe_alone (I := fun t => Calm t ∧ t.phase = .preparing a) (fun _ ht => ht.1)
          (prepare_law (b := c) (by simp) (fun t d ht => ⟨hput t _ d False.elim ht.1, ht.2⟩)
            (fun t ht => ⟨hput t _ none False.elim ht.1, ht.2⟩) ⟨hcalm, rfl⟩ hfile))
              (fun _ v hv hr => ?_) fun e v hv hr w hw => ?_
        · obtain ⟨⟨hcalm, hpreparing⟩, ⟨-, hstaged⟩ | ⟨_, herror, -⟩⟩ := hr
          · have hsafe := setPrepared_safe hcalm.1 hcalm.2 hright hstaged (by rw [hpreparing]; rfl)
            exact Safe.lifted Quits.refl hsafe fun _ w hw _ x hx => ⟨hw.others hx, Or.inl rfl⟩
          · cases herror
        · rw [hw.eq hr.1.1.2]
          exact ⟨hv, Or.inr ⟨hr.1.1.2, Or.inr ⟨e, rfl⟩⟩⟩
      -- this kind is handed over: the file stays in the downloads folder
      · refine Safe.andThen Quits.refl
          (safe_alone (fun _ ht => ht) (handOver_law (b := c) (fun t d => hput t _ d False.elim)
          (fun t ht => hput _ _ _ (fun _ => Or.inr ⟨a, c, hpromised, hright, rfl⟩)
            (hput t _ none False.elim ht))
          (fun t => hput t _ none False.elim) hcalm hfile))
            (fun path u hu hr => ?_) fun e u hu hr w hw => ?_
        · refine Safe.lifted Quits.refl
            (safe_alone (fun _ ht => ht) (discard_law (downloadName a.version)
            (fun gone => ⟨hr.1.1.discard _ gone, hr.1.2⟩) hr.1)) fun _ v hv hcalm w hw => ?_
          rw [hw.eq hcalm.1.2]
          exact ⟨hv, Or.inr ⟨hcalm.1.2, Or.inl ⟨path, rfl⟩⟩⟩
        · rw [hw.eq hr.1.2]
          exact ⟨hu, Or.inr ⟨hr.1.2, Or.inr ⟨e, rfl⟩⟩⟩
    · cases herror
  -- an error has prepared nothing
  · rw [hu.eq hr.1.2]
    exact ⟨ht, Or.inr ⟨hr.1.2, Or.inr ⟨e, rfl⟩⟩⟩

/-- So does the update's thread. -/
theorem updateThread_safe (h : Sound k b first (some a) s) (hprepared : s.prepared = false) :
    Safe effect (Sound k b first (some a)) Quits (fun _ _ => True) (updateThread k a) s := by
  have hpromised := h.known a rfl
  refine Safe.bind Quits.refl (fetched_safe h hprepared) fun r t ht hr => ?_
  -- only behind `ready` can a quit still come between
  have hlast : ∀ {u p}, Sound k b first (some a) u → u.prepared = false →
      (∀ c, p.offer = some c → c = a) →
      Safe effect (Sound k b first (some a)) Quits (fun _ _ => True) (ask (.setPhase p)) u :=
        fun hu hup hp =>
    (setPhase_safe hu fun v hv hvu => hv.at_ (fun c hc => hp c hc ▸ hpromised)
      fun hvp => absurd hvp (by rw [hvu.eq hup, hup]; simp)).mono fun _ _ _ => trivial
  obtain rfl | ⟨hcalm, ⟨path, rfl⟩ | ⟨e, rfl⟩⟩ := hr
  · refine (setPhase_safe ht fun u hu _ => hu.at_ (fun c hc => ?_) fun hup c hc _ => ?_).mono
      fun _ _ _ => trivial
    · cases hc
      exact hpromised
    · cases hc
      rfl
  · exact hlast ht hcalm fun c hc => by cases hc; rfl
  · cases e with
    | cancelled =>
      refine Safe.bind Quits.refl
        (safe_alone (I := fun u => Sound k b first (some a) u ∧ u.prepared = false) (fun _ hu => hu)
        (discard_law (downloadName a.version) (fun gone => ⟨ht.discard _ gone, hcalm⟩) ⟨ht, hcalm⟩))
          fun _ u hu hr => ?_
      exact hlast hu hr.1.2 fun c hc => by cases hc; rfl
    | _ => exact hlast ht hcalm fun c hc => by cases hc; rfl

/-- A call that may fail and touches nothing here. -/
theorem must_safe {α : Type} {p : Run Bool} {next : Unit → Try α} {e : Trouble}
    {Q : Except Trouble α → Store → Prop}
    (h : Safe effect (Sound k b first o) Quits (fun _ _ => True) p s)
    (hok : ∀ t, Sound k b first o t → Safe effect (Sound k b first o) Quits Q (next ()).run t)
    (herror : ∀ t, Q (.error e) t) :
    Safe effect (Sound k b first o) Quits Q (must p e >>= next).run s := by
  refine Safe.andThen (P := fun r _ => r = .ok () ∨ r = .error e) Quits.refl
    (Safe.bind Quits.refl h fun ok t ht _ u hu => ⟨ht.others hu, ?_⟩)
    (fun _ t ht _ => hok t ht) fun e' t ht he u hu => ⟨ht.others hu, ?_⟩
  · cases ok with
    | true => exact Or.inl rfl
    | false => exact Or.inr rfl
  · obtain he | he := he
    · cases he
    · cases he
      exact herror u

/-- Closing the other windows writes nothing here. -/
theorem closeOthers_safe (h : Sound k b first o s) :
    Safe effect (Sound k b first o) Quits (fun _ _ => True) (ask .closeOthers) s := by
  refine fun t ht => ⟨h.others ht, fun r u hu w hw => ?_⟩
  cases hu
  exact ⟨(h.others ht).others hw, trivial⟩

/-- Nor does stopping the emulation. -/
theorem stopEmulation_safe (h : Sound k b first o s) :
    Safe effect (Sound k b first o) Quits (fun _ _ => True) (ask .stopEmulation) s := by
  refine fun t ht => ⟨h.others ht, fun r u hu w hw => ?_⟩
  cases hu
  exact ⟨(h.others ht).others hw, trivial⟩

/-- The steps of a restart, of which the last shows the offer. -/
theorem restarting_safe {step : Step} (hstep : ∀ c, step = .installing c → o = some c)
    (h : Sound k b first o s) :
    Safe effect (Sound k b first o) Quits (fun _ t => t.phase = .restarting step)
      (ask (.setPhase (.restarting step))) s := by
  refine setPhase_safe h fun u hu _ => hu.at_ (fun c hc => ?_) fun _ c hc _ => ?_
  · cases step with
    | closing | stopping => cases hc
    | installing d =>
      cases hc
      exact hu.known c (hstep c rfl)
  · cases step with
    | closing | stopping => trivial
    | installing d => exact Option.some.inj ((hstep d rfl).symm.trans hc)

/-- What is taken is out of the window's reach. -/
theorem takePrepared_safe (h : Sound k b first (some a) s)
    (hphase : s.phase = .restarting (.installing a)) :
    Safe effect (Sound k b first (some a)) Quits
      (fun taken t => taken = true → t.prepared = false ∧ t.phase = .restarting (.installing a) ∧
      ∃ c, Right k.sha256 a.package c ∧ t.files .staged = some c) (ask .takePrepared) s := by
  intro t ht
  have hsound := h.others ht
  have hkept : t.phase = .restarting (.installing a) := by
    obtain rfl | ⟨x, y, hquit⟩ := ht
    · exact hphase
    · exact (quit_prepared hquit).2.2.trans hphase
  refine ⟨hsound, fun r u hu w hw => ?_⟩
  cases r with
  | true =>
    change (if t.prepared then some { t with prepared := false } else none) = some u at hu
    split at hu
    · rename_i hprepared
      cases hu
      obtain ⟨_, c, ha, hc, hfile, -⟩ := hsound.ready hprepared
      cases ha
      rw [hw.eq rfl]
      exact ⟨⟨hsound.genuine, hsound.known, hsound.offered, fun hp => by cases hp⟩,
        fun _ => ⟨rfl, hkept, c, hc, hfile⟩⟩
    · cases hu
  | false =>
    change (if t.prepared then none else some t) = some u at hu
    split at hu
    · cases hu
    · cases hu
      exact ⟨hsound.others hw, fun he => by cases he⟩

/-- The restart: what is prepared becomes the AppImage, or is prepared again. -/
theorem installed_safe (h : Sound k b first (some a) s) :
    Safe effect (Sound k b first (some a)) Quits (fun r t => r = .ok () → t.prepared = false)
      (installed a).run s := by
  refine Safe.lifted Quits.refl (restarting_safe nofun h) fun _ t ht _ => ?_
  refine must_safe (closeOthers_safe ht) (fun t ht => ?_) fun _ he => by cases he
  refine Safe.lifted Quits.refl (restarting_safe nofun ht) fun _ t ht _ => ?_
  refine must_safe (stopEmulation_safe ht) (fun t ht => ?_) fun _ he => by cases he
  refine Safe.lifted Quits.refl (restarting_safe (fun c hc => by cases hc; rfl) ht)
    fun _ t ht hphase => ?_
  refine Safe.lifted Quits.refl (takePrepared_safe ht hphase) fun taken t ht htaken => ?_
  cases taken with
  | false => exact fun u hu => ⟨ht.others hu, fun he => by cases he⟩
  | true =>
    obtain ⟨hprepared, hphase, c, hright, hstaged⟩ := htaken rfl
    let Taken (t : Store) : Prop := Sound k b first (some a) t ∧ t.prepared = false
    have hput : ∀ t f d, (f.Lasting → Genuine k b (first f) d) → Taken t → Taken (t.put f d) :=
      fun t f d hf ht =>
      ⟨ht.1.put hf fun _ => ht.2, ht.2⟩
    have hrename :=
      rename_law (I := Taken) (s := t) (f := .staged) (g := .image) ⟨ht, hprepared⟩ fun d hd => by
      rw [hstaged] at hd
      cases hd
      exact hput _ _ _ (fun _ => Or.inr ⟨a, c, ht.known a rfl, hright, rfl⟩)
        (hput t _ none False.elim ⟨ht, hprepared⟩)
    refine Safe.bind Quits.refl (safe_alone (fun _ ht => ht) hrename) fun r u hu hr => ?_
    obtain ⟨hcalm, ⟨rfl, -⟩ | ⟨rfl, rfl⟩⟩ := hr
    · refine Safe.bind Quits.refl
        (safe_alone (fun _ ht => ht) (remove_law hcalm (hput u .staged none False.elim hcalm)))
        fun _ v hv hr w hw => ?_
      rw [hw.eq hr.1.2]
      exact ⟨hv, fun _ => hr.1.2⟩
    · refine Safe.bind Quits.refl
        (setPrepared_safe hu hprepared hright hstaged (by rw [hphase]; rfl)) fun _ v hv _ w hw => ?_
      exact ⟨hv.others hw, fun he => by cases he⟩

/-- The restart's thread installs what is prepared, which is the offer's build. -/
theorem restartThread_safe (h : Sound k b first (some a) s) :
    Safe effect (Sound k b first (some a)) Quits (fun _ _ => True) (restartThread a) s := by
  refine Safe.bind Quits.refl (installed_safe h) fun r t ht hr => ?_
  cases r with
  | ok _ =>
    refine (setPhase_safe ht fun u hu hut => hu.at_ (fun c hc => by cases hc) fun hp => ?_).mono
      fun _ _ _ => trivial
    rw [hut.eq (hr rfl), hr rfl] at hp
    cases hp
  | error e =>
    refine (setPhase_safe ht fun u hu _ => hu.at_ (fun c hc => ?_) fun _ c hc _ => ?_).mono
      fun _ _ _ => trivial
    · cases hc
      exact hu.known a rfl
    · cases hc
      rfl

end Threads

/-! ## Runs -/

section Runs

variable {k : Crates} {b : Build} {first : Place → Option Bytes} {s t : State}

/-- What every run keeps: the store is sound, and what is left of the thread's work keeps it so. -/
def Inv (k : Crates) (b : Build) (first : Place → Option Bytes) (s : State) : Prop :=
  ∃ o, Sound k b first o s.store ∧ ∀ p, s.thread = some p →
  Safe effect (Sound k b first o) Quits (fun _ _ => True) p s.store

/-- What is prepared is the package of the offer that the phase shows. -/
theorem Sound.shown {o : Option Offer} {a : Offer} {u : Store} (h : Sound k b first o u)
    (ha : u.phase.offer = some a) (hwaits : ∀ c, u.phase.Waits c → c = a) :
    Sound k b first (some a) u where
  genuine := h.genuine
  known c hc := by
    cases hc
    exact h.offered a ha
  offered := h.offered
  ready hprepared := by
    obtain ⟨c, d, -, hd, hfile, hw⟩ := h.ready hprepared
    obtain rfl := hwaits c hw
    exact ⟨c, d, rfl, hd, hfile, hw⟩

/-- A thread that starts has all its work before it. -/
theorem inv_spawn {o : Option Offer} {u : Store} {spawned : Bool} {p : Run Unit}
    (h : Sound k b first o u) (hp : Safe effect (Sound k b first o) Quits (fun _ _ => True) p u) :
    Inv k b first (s.spawn u spawned p) := by
  refine ⟨o, h, fun q hq => ?_⟩
  change (if spawned then some p else none) = some q at hq
  split at hq
  · cases hq
    exact hp
  · cases hq

/-- The check starts from a sound store with nothing prepared. -/
theorem inv_check {o : Option Offer} {spawned : Bool} (h : Sound k b first o s.store)
    (hprepared : s.store.prepared = false) :
    Inv k b first (s.check k b spawned) := by
  have hchecking : Sound k b first o (s.store.at_ .checking) :=
    h.at_ (fun _ hc => by cases hc) fun hp => absurd hp (by rw [hprepared]; simp)
  exact inv_spawn hchecking (checkThread_safe s.running hchecking hprepared)

/-- When the button "Update" works: an offer is there. -/
theorem State.act_update {spawned : Bool} (h : s.act k b (.update spawned) = some t) :
    ∃ a, s.store.phase = .available a ∧ t = s.spawn s.store spawned (updateThread k a) := by
  simp only [State.act] at h
  split at h
  · cases h
    exact ⟨_, ‹_›, rfl⟩
  · cases h

/-- When "Restart" works: the offer is ready. -/
theorem State.act_restart {spawned : Bool} (h : s.act k b (.restart spawned) = some t) :
    ∃ a, s.store.phase = .ready a ∧ t = s.spawn s.store spawned (restartThread a) := by
  simp only [State.act] at h
  split at h
  · cases h
    exact ⟨_, ‹_›, rfl⟩
  · cases h

/-- What "Try again" does: the restart once more, or the update, or the check. -/
theorem State.act_retry {spawned : Bool} (h : s.act k b (.retry spawned) = some t) :
    (∃ e a, s.store.phase = .failed e (some a) ∧
      (s.store.prepared = true ∧ t = s.spawn s.store spawned (restartThread a) ∨
      s.store.prepared = false ∧ t = s.spawn s.store spawned (updateThread k a))) ∨
    ∃ e, s.store.phase = .failed e none ∧ t = s.check k b spawned := by
  simp only [State.act] at h
  split at h
  · rename_i e a hphase
    refine Or.inl ⟨e, a, hphase, ?_⟩
    split at h
    · cases h
      exact Or.inl ⟨‹_›, rfl⟩
    · cases h
      exact Or.inr ⟨Bool.eq_false_iff.mpr ‹_›, rfl⟩
  · cases h
    exact Or.inr ⟨_, ‹_›, rfl⟩
  · cases h

/-- Every button keeps the invariant. -/
theorem inv_act {e : Event} (h : Inv k b first s) (hact : s.act k b e = some t) :
    Inv k b first t := by
  obtain ⟨o, h, -⟩ := h
  cases e with
  | check spawned =>
    change (if s.store.prepared then none else _) = some t at hact
    split at hact
    · cases hact
    · rename_i hprepared
      cases hact
      exact inv_check h (Bool.eq_false_iff.mpr hprepared)
  | update spawned =>
    obtain ⟨a, ha, rfl⟩ := State.act_update hact
    have hshown := h.shown (a := a) (by rw [ha]; rfl) fun c hc => by rw [ha] at hc; exact hc.elim
    refine inv_spawn hshown (updateThread_safe hshown (Bool.eq_false_iff.mpr fun hp => ?_))
    obtain ⟨c, -, -, -, -, hw⟩ := hshown.ready hp
    rw [ha] at hw
    exact hw
  | restart spawned =>
    obtain ⟨a, ha, rfl⟩ := State.act_restart hact
    have hshown := h.shown (a := a) (by rw [ha]; rfl) fun c hc => by rw [ha] at hc; exact hc.symm
    exact inv_spawn hshown (restartThread_safe hshown)
  | retry spawned =>
    obtain ⟨e, a, ha, ht⟩ | ⟨e, ha, rfl⟩ := State.act_retry hact
    · have hshown := h.shown (a := a) (by rw [ha]; rfl) fun c hc => by
        rw [ha] at hc; exact (Option.some_inj.mp hc).symm
      obtain ⟨-, rfl⟩ | ⟨hp, rfl⟩ := ht
      · exact inv_spawn hshown (restartThread_safe hshown)
      · exact inv_spawn hshown (updateThread_safe hshown hp)
    · refine inv_check h (Bool.eq_false_iff.mpr fun hp => ?_)
      obtain ⟨c, -, -, -, -, hw⟩ := h.ready hp
      rw [ha] at hw
      cases hw
  | _ => cases hact

/-- The next start of the app shares nothing with this one. -/
theorem inv_again {running : Chars} {dropped : Bool} (h : Inv k b first s) :
    Inv k b first (s.again running dropped) := by
  obtain ⟨o, h, -⟩ := h
  refine ⟨none, ⟨fun f hf => ?_, fun _ hc => (by cases hc), fun _ hc => (by cases hc),
    fun hp => by cases hp⟩, fun _ hp => by cases hp⟩
  change Genuine k b (first f)
    (Store.files (if s.store.prepared && dropped then s.store.put .staged none else s.store) f)
  split
  · rw [Store.put_of_ne (by rintro rfl; exact hf)]
    exact h.genuine f hf
  · exact h.genuine f hf

/-- A call of the thread keeps it: that is what being safe means. -/
theorem inv_work {pick : (c : Call) → c.Reply} (h : Inv k b first s)
    (hwork : s.work pick = some t) : Inv k b first t := by
  obtain ⟨o, h, hsafe⟩ := h
  unfold State.work at hwork
  split at hwork
  · cases hwork
  · cases hwork
    exact ⟨o, h, fun _ hp => by cases hp⟩
  · rename_i c next hthread
    obtain ⟨u, hu, rfl⟩ := Option.map_eq_some_iff.mp hwork
    have hnext := (hsafe _ hthread).step Quits.refl hu
    exact ⟨o, hnext.inv Quits.refl, fun p hp => by cases hp; exact hnext⟩

/-- A quit keeps it, also in the middle of a thread's work. -/
theorem inv_quit {x y : Bool} {u : Store} (h : Inv k b first s)
    (hquit : quit s.store x y = some u) :
    Inv k b first { s with store := u } := by
  obtain ⟨o, h, hsafe⟩ := h
  exact ⟨o, h.quit hquit, fun p hp => (hsafe p hp).others Quits.trans (Or.inr ⟨x, y, hquit⟩)⟩

/-- Every step of the window keeps the invariant. -/
theorem inv_step {e : Event} (h : Inv k b first s) (hstep : (updater k b).step s e = some t) :
    Inv k b first t := by
  have hframe : ∀ {e}, (if s.thread.isSome then none else s.act k b e) = some t → Inv k b first t :=
    fun hstep => by
    split at hstep
    · cases hstep
    · exact inv_act h hstep
  cases e with
  | quit renamed removed =>
    obtain ⟨u, hquit, rfl⟩ := Option.map_eq_some_iff.mp hstep
    exact inv_quit h hquit
  | thread pick => exact inv_work h hstep
  | again running dropped =>
    cases hstep
    exact inv_again h
  | check spawned => exact hframe hstep
  | update spawned => exact hframe hstep
  | restart spawned => exact hframe hstep
  | retry spawned => exact hframe hstep

/-- So it holds in every reachable state. -/
theorem inv_reach {files : Place → Option Bytes} {running : Chars}
    (h : (updater k b).Reach Free (.init files running) s) : Inv k b files s :=
  h.inv ⟨none, ⟨fun _ _ => Or.inl rfl, fun _ hc => (by cases hc), fun _ hc => (by cases hc),
    fun hp => by cases hp⟩, fun _ hp => by cases hp⟩
    fun _ _ _ hinv _ hstep => inv_step hinv hstep

/-- **What is prepared is whole and is what the window shows.**  Where a restart or a quit would
    install something, the staged file is the whole package of a promised offer, the phase is that
    offer's or a restart's before it installs, the window starts neither a check nor a download, and
    what it can start, a restart or another try, installs that offer. -/
theorem ready_of_reach {files : Place → Option Bytes} {running : Chars}
    (h : (updater k b).Reach Free (.init files running) s) (hprepared : s.store.prepared = true) :
    ∃ o c, (Promised k b o ∧ Right k.sha256 o.package c ∧ s.store.files .staged = some c ∧
      s.store.phase.Waits o) ∧
      ∀ spawned, (updater k b).step s (.check spawned) = none ∧
      (updater k b).step s (.update spawned) = none ∧
        ∀ t, ((updater k b).step s (.restart spawned) = some t ∨
          (updater k b).step s (.retry spawned) = some t) →
          t = s.spawn s.store spawned (restartThread o) := by
  obtain ⟨_, hsound, -⟩ := inv_reach h
  obtain ⟨o, c, rfl, hright, hstaged, hwaits⟩ := hsound.ready hprepared
  refine ⟨o, c, ⟨hsound.known o rfl, hright, hstaged, hwaits⟩, fun spawned =>
    ⟨?_, ?_, fun t ht => ?_⟩⟩
  -- what is prepared stands in the way of a check, and of an update
  · change (if s.thread.isSome then none else if s.store.prepared then none else _) = none
    rw [hprepared]
    exact ite_self _
  · change (if s.thread.isSome then none else s.act k b (.update spawned)) = none
    split
    · rfl
    · refine Option.eq_none_iff_forall_ne_some.mpr fun u hu => ?_
      obtain ⟨a, ha, -⟩ := State.act_update hu
      rw [ha] at hwaits
      exact hwaits
  · -- the phase that lets the window start something is this offer's
    obtain ht | ht := ht
    · obtain ⟨a, ha, rfl⟩ := State.act_restart (Option.ite_none_left_eq_some.mp ht).2
      rw [ha] at hwaits
      obtain rfl : a = o := hwaits
      rfl
    · obtain ⟨e, a, ha, hcases⟩ | ⟨e, ha, -⟩ :=
        State.act_retry (Option.ite_none_left_eq_some.mp ht).2
      · rw [ha] at hwaits
        obtain rfl : a = o := Option.some.inj hwaits
        obtain ⟨-, rfl⟩ | ⟨hnone, -⟩ := hcases
        · rfl
        · cases hprepared.symm.trans hnone
      · rw [ha] at hwaits
        cases hwaits

end Runs

/-! ## One update -/

/-- What the other crates give for the one index that this host offers. -/
def sampleCrates : Crates where
  sha256 := sampleHash
  decode64 _ := some []
  publicKey _ := true
  signature _ := true
  verify _ _ _ := true
  index _ := some (1, ⟨chars "0.4.0", [], [], [newOffer.package]⟩)

/-- A build for an AppImage. -/
def sampleBuild : Build := ⟨[], chars "linux", chars "x86_64", some .appImage⟩

/-- Every call goes through, but for a read of the package that brings nothing. -/
def fortunate (body : Option Bytes) : (c : Call) → c.Reply
  | .append _ _ => none
  | .copy _ _ => .whole
  | .folders => []
  | .discard _ => fun _ => true
  | .receive => body
  | .fetchIndex | .fetchSignature => some []
  | .cancelled => false
  | .remove _ | .sync _ | .createNew _ | .rename _ _ | .createDir | .connect | .takePrepared
  | .closeOthers | .stopEmulation =>
    true
  | .setPhase _ | .setPrepared => ()

/-- The octets of the AppImage that is installed. -/
def oldImage : Bytes := [0x7f, 0x45, 0x4c, 0x46, 0x01]

/-- Nothing but the AppImage is there. -/
def sampleFiles (f : Place) : Option Bytes := if f = .image then some oldImage else none

/-- The thread's next calls. -/
def calls (n : Nat) (body : Option Bytes) : List Event :=
  List.replicate n (.thread (fortunate body))

/-- A check; a download that is cut behind the third octet; another try, which gets the
    rest in a second read. -/
def preparing : List Event :=
  .check true :: calls 5 none ++
    .update true :: calls 10 (some (newImage.take 3)) ++ calls 5 none ++
    .retry true :: calls 10 (some (newImage.take 3)) ++ calls 4 (some (newImage.drop 3)) ++
    calls 13 (some [])

/-- And the restart: it ends with the new build in the AppImage's place. -/
def restarting : List Event := preparing ++ .restart true :: calls 10 none

/-- The offer that was prepared is the one that waits for the restart. -/
theorem prepared_ready :
    ∃ s, (updater sampleCrates sampleBuild).Reach Free (.init sampleFiles (chars "0.3.0")) s ∧
      s.store.prepared = true ∧
      ∃ o c, Promised sampleCrates sampleBuild o ∧ Right sampleCrates.sha256 o.package c ∧
        s.store.files .staged = some c ∧ s.store.phase.Waits o := by
  obtain ⟨s, hreach, hs⟩ := Reach.of_run_any (M := updater sampleCrates sampleBuild) (G := Free)
    (s := .init sampleFiles (chars "0.3.0")) (p := fun s => s.store.prepared) preparing
      (by decide)
  obtain ⟨o, c, hready, -⟩ := ready_of_reach hreach hs
  exact ⟨s, hreach, hs, o, c, hready⟩

end CdjEmu.Update
