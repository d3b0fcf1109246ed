/-
  THE SAVED ALC VALUE — when the worker sends it, and to which guest.

  The kernel module's `audio_sync_enabled` is 0 after every load.  The worker pushes the saved value
  once for each QEMU, when the cfg client has a latency.  A start of QEMU clears the worker's mark.
  Nothing clears the latency: not the start (`new_boot`), not the end of the connection.

  1. `latency_dispatch` — a line sets the latency or leaves it alone, whatever the client holds.
  2. `Waits` — a known latency, or one in the line that is being handled, is the running guest's, or
     the value has been sent. Steps that meet `Kept` keep it (`waits_step`).
  3. `early_of_not_kept` — any step that does not meet it lets the worker send the value to a guest
     that is not up.

  `heard` and `born` are read by no step.

  The machine puts the worker, the cfg client of `Runtime/CfgClient` with its reader and
  connections, and the guests side by side.  A connection belongs to the guest that was running when
  it was made; a line that it has delivered may be handled when that guest is gone.  `told` says
  what a line tells, by the same handlers that the client runs.

  The condition `Kept` is on the step: no QEMU starts while a latency is known, none exits between a
  line that tells one and its handling, and the reader serves no guest but the one that runs.
-/
import CdjEmu.Runtime.CfgClient

namespace CdjEmu.Runtime.AlcPush

open Machine

/-! ## The program -/

/-- The configuration client, the QEMU that runs, whose guest the reader is connected
    to, and what was pushed. -/
structure State where
  client : Client
  /-- The QEMU that runs; each start gives a number. -/
  running : Option Nat
  born : Nat
  /-- The QEMU of the reader's connection. -/
  peer : Nat
  /-- The worker has called `new_boot` and is starting QEMU. -/
  spawning : Bool
  /-- `alc_pushed_for_boot`. -/
  pushed : Bool
  /-- The QEMUs from whose guest a latency has been received. -/
  heard : List Nat

/-- What the client does, QEMU's start and end, and the worker's push. -/
inductive Event where
  | client (a : Client.Event)
  | exit
  | newBoot
  | spawned (ok : Bool)
  | push (enabled : Bool) (w : Wrote)

/-- The latency that a line tells. -/
def told (line : Chars) : Option Latency :=
  if Chars.trim line = [] then none else (Shared.fresh.dispatch line).latency

/-- The command that sets the parameter. -/
def setAlc (enabled : Bool) : Command :=
  .setParam (chars "audio_sync_enabled") (if enabled then chars "1" else chars "0")

namespace State

/-- No QEMU has started. -/
def init : State := ⟨.init, none, 0, 0, false, false, []⟩

/-- What the client's steps need of the guests, and what they do here. -/
def clientStep (s : State) (a : Client.Event) : Option State :=
  (CdjEmu.Runtime.client.step s.client a).bind fun c =>
    match a with
    | .connect _ => s.running.map fun q => { s with client := c, peer := q }
    | .line text _ =>
        some { s with
          client := c, heard := if (told text).isSome then s.peer :: s.heard else s.heard }
    -- the worker's
    | .newBoot => none
    | _ => some { s with client := c }

/-- `push_alc_once`. -/
def pushAlcOnce (s : State) (enabled : Bool) (w : Wrote) : State :=
  if s.pushed ∨ s.client.shared.latency.isNone then s
  else
    match (setAlc enabled).line with
    | some text => { s with client := s.client.sendLine text w, pushed := true }
    | none => s

/-- `push_alc_once` sends the value and marks the boot. -/
def Sends (s : State) : Prop := s.spawning = false ∧ s.pushed = false ∧
    s.client.shared.latency.isSome = true

/-- A latency has been received from the guest of the QEMU that runs. -/
def Up (s : State) : Prop := ∃ q, s.running = some q ∧ q ∈ s.heard

instance (s : State) : Decidable s.Sends := inferInstanceAs (Decidable (_ ∧ _ ∧ _))

instance (s : State) : Decidable s.Up :=
  decidable_of_iff (s.running.any (· ∈ s.heard) = true) (by simp [Up, Option.any_eq_true])

end State

/-- The worker, the client and QEMU. -/
def machine : Machine State Event where
  step s
    | .client a => s.clientStep a
    | .exit => if s.running.isSome then some { s with running := none } else none
    | .newBoot =>
      if s.spawning then none
      else
        some { s with
          client := { s.client with shared := s.client.shared.newBoot }, spawning := true }
    | .spawned ok =>
      if !s.spawning ∨ s.running.isSome then none
      else if ok then some { s with
        running := some s.born, born := s.born + 1, pushed := false, spawning := false }
      else some { s with spawning := false }
    | .push enabled w => if s.spawning then none else some (s.pushAlcOnce enabled w)

/-! ## What the client knows -/

/-- A latency, or a line at hand that tells one. -/
def known (c : Client) : Bool :=
  c.shared.latency.isSome || match c.reader with
    | .handling _ text => (told text).isSome
    | _ => false

/-- A table of messages sets the latency where one of its entries does. -/
theorem latency_findSome {ms : List (Chars × (Shared → Chars → Shared))}
    (h : ∀ m ∈ ms, ∀ (s : Shared) (rest : Chars),
      (m.2 s rest).latency = (m.2 .fresh rest).latency.or s.latency) (s : Shared) (line : Chars) :
    ((ms.findSome? fun m => (Chars.strip m.1 line).map fun rest => m.2 s rest).getD s).latency =
      ((ms.findSome? fun m => (Chars.strip m.1 line).map fun rest => m.2 .fresh rest).getD
        Shared.fresh).latency.or s.latency := by
  induction ms with
  | nil => rfl
  | cons m ms ih =>
    rw [List.forall_mem_cons] at h
    rw [List.findSome?_cons, List.findSome?_cons]
    rcases Chars.strip m.1 line with _ | rest
    · exact ih h.2
    · exact h.1 s rest

/-- `dispatch` takes the first message whose prefix the line has. -/
theorem dispatch_eq (s : Shared) (line : Chars) : s.dispatch line =
    (messages.findSome? fun m => (Chars.strip m.1 (Chars.trim line)).map fun rest =>
      m.2 s rest).getD s := by
  rw [Shared.dispatch]
  split
  · rename_i t ht
    rw [ht]
    rfl
  · rename_i ht
    rw [ht]
    rfl

/-- A line sets the latency or leaves it alone. -/
theorem latency_dispatch (s : Shared) (line : Chars) :
    (s.dispatch line).latency = (Shared.fresh.dispatch line).latency.or s.latency := by
  rw [dispatch_eq, dispatch_eq]
  apply latency_findSome
  unfold messages
  simp only [List.forall_mem_cons, List.not_mem_nil, false_implies, implies_true, and_true]
  refine ⟨fun s rest => rfl, ?_, ?_, ?_, ?_, ?_, ?_, ?_, ?_⟩
  · intro s rest
    unfold Shared.onLatency
    dsimp only
    split <;> rfl
  · intro s rest
    unfold Shared.onParam
    split <;> rfl
  · intro s rest
    unfold Shared.onLogBegin
    split <;> rfl
  · intro s rest
    unfold Shared.onLog
    dsimp only
    (repeat' split) <;> rfl
  · intro s rest
    unfold Shared.onLogEnd
    dsimp only
    (repeat' split) <;> rfl
  · intro s rest
    unfold Shared.onMods
    (repeat' split) <;> rfl
  · intro s rest
    unfold Shared.onMod
    split <;> rfl
  · intro s rest
    unfold Shared.onPcLink
    dsimp only
    (repeat' split) <;> rfl

/-! ## The client's steps -/

section Client

variable {c d : Client} {conn : Nat} {text : Chars}

/-- Sending learns no latency. -/
theorem latency_sendLine (s : Shared) (w : Wrote) (cmd : Cmd) :
    (s.sendLine w cmd).1.latency = s.latency := by
  rcases s.sendLine_cases w cmd with ⟨-, -, -, h⟩ | ⟨-, -, -, h⟩ | ⟨-, h⟩
  · rw [h]
  · rw [h]
  · rw [h]

/-- Neither does resending. -/
theorem latency_flushPending (s : Shared) (luck : List Wrote) :
    (s.flushPending luck).1.latency = s.latency := by
  rcases s.flushPending_cases luck with ⟨-, h⟩ | ⟨-, -, h⟩ | ⟨-, -, h⟩
  · rw [h]
  · rw [h]
  · rw [h]

/-- A line may tell one. -/
theorem latency_handle (c : Client) (conn : Nat) (text : Chars) :
    (c.handle conn text).shared.latency = (told text).or c.shared.latency := by
  rw [Client.handle, told]
  split
  · rfl
  · exact latency_dispatch _ _

/-- Sending leaves the reader where it is. -/
theorem reader_sendLine (c : Client) (text : Chars) (w : Wrote) :
    (c.sendLine text w).reader = c.reader := by
  simp [Client.sendLine]

theorem latency_client_sendLine (c : Client) (text : Chars) (w : Wrote) :
    (c.sendLine text w).shared.latency = c.shared.latency := latency_sendLine _ _ _

/-- What is known of the latency depends on the shared part and the reader. -/
theorem known_of (hlatency : d.shared.latency = c.shared.latency) (hreader : d.reader = c.reader) :
    known d = known c := by
  rw [known, known, hlatency, hreader]

theorem known_sendLine (c : Client) (text : Chars) (w : Wrote) :
    known (c.sendLine text w) = known c :=
  known_of (latency_client_sendLine c text w) (reader_sendLine c text w)

/-- A reader between two lines knows what is shared. -/
theorem known_reading (h : c.reader = .reading conn) : known c = c.shared.latency.isSome := by
  rw [known, h, Bool.or_false]

theorem known_idle (h : c.reader = .idle) : known c = c.shared.latency.isSome := by
  rw [known, h, Bool.or_false]

/-- One at a line knows what the line tells as well. -/
theorem known_handling (h : c.reader = .handling conn text) :
    known c = (c.shared.latency.isSome || (told text).isSome) := by
  rw [known, h]

/-- What is new comes with a line. -/
theorem known_step {a : Client.Event} (hs : client.step c a = some d) (hd : known d = true) :
    known c = true ∨ ∃ text luck, a = .line text luck ∧ (told text).isSome = true := by
  -- only a line of the guest may tell a latency
  cases a with
  | command cmd w =>
    left
    dsimp only [client] at hs
    split at hs
    · cases hs
      rwa [known_sendLine] at hd
    · cases hs
      exact hd
  | ask name =>
    left
    dsimp only [client] at hs
    split at hs
    · cases hs
      exact hd
    · cases hs
      exact hd
  | send name w =>
    left
    dsimp only [client] at hs
    split at hs
    · cases hs
      rwa [known_sendLine] at hd
    · cases hs
  | connect cloned =>
    left
    dsimp only [client] at hs
    split at hs
    · rename_i hidle
      cases hs
      -- a new connection forgets no latency and brings none
      rw [known_idle hidle]
      rw [known_reading rfl] at hd
      cases cloned with
      | true => exact hd
      | false => exact hd
    · cases hs
  | line text luck =>
    dsimp only [client] at hs
    split at hs
    · rename_i conn hreading
      cases hs
      rw [known_reading hreading]
      -- whether the queue is flushed first does not matter here
      rw [Client.lineArrived] at hd
      split at hd
      · rw [known_handling rfl, Bool.or_eq_true] at hd
        exact hd.imp_right fun ht => ⟨text, luck, rfl, ht⟩
      · rw [known_handling rfl, Bool.or_eq_true] at hd
        refine hd.imp ?_ fun ht => ⟨text, luck, rfl, ht⟩
        intro hl
        rwa [latency_flushPending] at hl
    · cases hs
  | handle =>
    left
    dsimp only [client] at hs
    split at hs
    · rename_i conn text hhandling
      cases hs
      rw [known_handling hhandling]
      -- what the line has told is in the shared state when it has been handled
      rw [known_reading rfl, latency_handle, Option.isSome_or, Bool.or_comm] at hd
      exact hd
    · cases hs
  | disconnect =>
    left
    dsimp only [client] at hs
    split at hs
    · rename_i conn hreading
      cases hs
      rw [known_reading hreading]
      rwa [known_idle rfl] at hd
    · cases hs
  | ping w =>
    left
    dsimp only [client] at hs
    cases hs
    rw [Client.ping] at hd
    split at hd
    · exact hd
    · rwa [known_of (c := c) (by simp) (by simp)] at hd
  | newBoot =>
    left
    dsimp only [client] at hs
    cases hs
    exact hd

end Client

/-! ## A latency of the guest that runs -/

/-- The condition on a step: no QEMU starts when a latency is known; none exits between its latency
    and the push; and no line of a guest that is gone brings a latency before the running guest's
    own, as long as the value has not been sent. -/
def Kept (s : State) : Event → Prop
  | .spawned true => known s.client = false
  | .exit => s.pushed = true ∨ known s.client = false
  | .client (.line text _) => (told text).isSome = true → s.pushed = true ∨ s.Up ∨
      s.running = some s.peer
  | _ => True

instance (s : State) (e : Event) : Decidable (Kept s e) := by
  unfold Kept
  split <;> infer_instance

/-- A latency is the running guest's, unless the value has been sent. -/
def Waits (s : State) : Prop := known s.client = true → s.pushed = true ∨ s.Up

variable {s t : State}

/-- A step of the client keeps the push waiting. -/
theorem waits_client {a : Client.Event} (h : Waits s) (hkept : Kept s (.client a))
    (hs : s.clientStep a = some t) : Waits t := by
  -- before the step it was known already, or the line has told it
  obtain ⟨c, hc, ht⟩ := Option.bind_eq_some_iff.mp hs
  intro hknown
  cases a with
  | connect cloned =>
    obtain ⟨q, -, rfl⟩ := Option.map_eq_some_iff.mp ht
    rcases known_step hc hknown with hbefore | ⟨text, luck, hline, -⟩
    · exact h hbefore
    · cases hline
  | line text luck =>
    cases ht
    rcases known_step hc hknown with hbefore | ⟨text', luck', hline, htold⟩
    · -- what was heard stays heard
      refine (h hbefore).imp_right ?_
      rintro ⟨q, hrunning, hq⟩
      refine ⟨q, hrunning, ?_⟩
      show q ∈ if _ then _ else _
      split
      · exact List.mem_cons_of_mem _ hq
      · exact hq
    · cases hline
      have hheard : s.peer ∈ (if (told text).isSome then s.peer :: s.heard else s.heard) := by
        rw [if_pos htold]
        exact List.mem_cons_self
      -- the condition: pushed before, heard of the running guest, or heard now
      rcases hkept htold with hpushed | ⟨q, hrunning, hq⟩ | hpeer
      · exact Or.inl hpushed
      · refine Or.inr ⟨q, hrunning, ?_⟩
        show q ∈ if _ then _ else _
        rw [if_pos htold]
        exact List.mem_cons_of_mem _ hq
      · exact Or.inr ⟨s.peer, hpeer, hheard⟩
  | newBoot => cases ht
  | command | ask | send | handle | disconnect | ping =>
    cases ht
    rcases known_step hc hknown with hbefore | ⟨text, luck, hline, -⟩
    · exact h hbefore
    · cases hline

/-- The push: it does nothing, or sends the value and marks the boot. -/
theorem pushAlcOnce_cases (s : State) (enabled : Bool) (w : Wrote) :
    s.pushAlcOnce enabled w = s ∨ ∃ c, known c = known s.client ∧
    s.pushAlcOnce enabled w = { s with client := c, pushed := true } := by
  rw [State.pushAlcOnce]
  split
  · exact Or.inl rfl
  · split
    · exact Or.inr ⟨_, known_sendLine _ _ _, rfl⟩
    · exact Or.inl rfl

/-- So does every step that meets the condition. -/
theorem waits_step {e : Event} (h : Waits s) (hkept : Kept s e) (hs : machine.step s e = some t) :
    Waits t := by
  cases e with
  | client a => exact waits_client h hkept hs
  | exit =>
    dsimp only [machine] at hs
    split at hs
    -- by the condition the value has been sent, or none is known
    · cases hs
      intro hknown
      rcases hkept with hpushed | hno
      · exact Or.inl hpushed
      · exact absurd hknown (by rw [hno]; exact Bool.false_ne_true)
    · cases hs
  | newBoot =>
    dsimp only [machine] at hs
    split at hs
    · cases hs
    · cases hs
      exact h
  | spawned ok =>
    dsimp only [machine] at hs
    split at hs
    · cases hs
    · split at hs
      -- by the condition nothing is known when a guest starts
      · rename_i hok
        subst hok
        cases hs
        intro hknown
        exact absurd hknown
          (by rw [show known s.client = false from hkept]; exact Bool.false_ne_true)
      · cases hs
        exact h
  | push enabled w =>
    dsimp only [machine] at hs
    split at hs
    · cases hs
    · cases hs
      -- a push that goes out is what was waited for
      rcases pushAlcOnce_cases s enabled w with hnone | ⟨c, -, hsent⟩
      · rw [hnone]
        exact h
      · rw [hsent]
        exact fun _ => Or.inl rfl

/-- So does every such run. -/
theorem waits_reach (h : machine.Reach Kept .init s) : Waits s :=
  h.inv (fun hknown => absurd hknown (by decide)) fun _ _ _ ht hkept hs => waits_step ht hkept hs

/-- What is pushed was known. -/
theorem known_of_sends (h : s.Sends) : known s.client = true := by
  rw [known, h.2.2, Bool.true_or]

/-! ## Early pushes -/

/-- The numbers of the QEMUs. -/
structure Sane (s : State) : Prop where
  heard : ∀ q ∈ s.heard, q < s.born
  running : ∀ q, s.running = some q → q < s.born
  peer : s.client.reader ≠ .idle → s.peer < s.born

/-- The worker can send the value although the running guest has not reported. -/
def Early (s : State) : Prop := ∃ t, machine.Reach Free s t ∧ t.Sends ∧ ¬ t.Up

/-- A push that came too early stays on the record. -/
theorem Early.of_step {e : Event} (hs : machine.step s e = some t) (h : Early t) : Early s := by
  obtain ⟨u, hu, hsends⟩ := h
  exact ⟨u, (Reach.refl.step trivial hs).trans hu, hsends⟩

/-- A reader starts with a connection. -/
theorem reader_step {c d : Client} {a : Client.Event} (hs : client.step c a = some d)
    (hd : d.reader ≠ .idle) :
    c.reader ≠ .idle ∨ ∃ cloned, a = .connect cloned := by
  by_contra hno
  rw [not_or, not_not, not_exists] at hno
  obtain ⟨hidle, hconnect⟩ := hno
  apply hd
  -- without a reader nothing is read; a reader comes with a connection alone
  cases a with
  | command cmd w =>
    dsimp only [client] at hs
    split at hs
    · cases hs
      rw [reader_sendLine, hidle]
    · cases hs
      exact hidle
  | ask name =>
    dsimp only [client] at hs
    split at hs
    · cases hs
      exact hidle
    · cases hs
      exact hidle
  | send name w =>
    dsimp only [client] at hs
    split at hs
    · cases hs
      rw [reader_sendLine]
      exact hidle
    · cases hs
  | connect cloned => exact absurd rfl (hconnect cloned)
  | line text luck =>
    dsimp only [client] at hs
    rw [hidle] at hs
    cases hs
  | handle =>
    dsimp only [client] at hs
    rw [hidle] at hs
    cases hs
  | disconnect =>
    dsimp only [client] at hs
    rw [hidle] at hs
    cases hs
  | ping w =>
    dsimp only [client] at hs
    cases hs
    rw [Client.ping]
    split
    · exact hidle
    · rw [Client.put_reader, hidle]
  | newBoot =>
    dsimp only [client] at hs
    cases hs
    exact hidle

/-- A client's step leaves the bookkeeping consistent. -/
theorem sane_client {a : Client.Event} (h : Sane s) (hs : s.clientStep a = some t) : Sane t := by
  obtain ⟨c, hc, ht⟩ := Option.bind_eq_some_iff.mp hs
  have hpeer : (∀ cloned, a ≠ .connect cloned) → c.reader ≠ .idle → s.peer < s.born := by
    intro hno hreader
    rcases reader_step hc hreader with hbefore | ⟨cloned, hconnect⟩
    · exact h.peer hbefore
    · exact absurd hconnect (hno cloned)
  cases a with
  | connect cloned =>
    obtain ⟨q, hq, rfl⟩ := Option.map_eq_some_iff.mp ht
    exact ⟨h.heard, h.running, fun _ => h.running q hq⟩
  | line text luck =>
    cases ht
    refine ⟨?_, h.running, hpeer (by simp)⟩
    have hreading : s.client.reader ≠ .idle := by
      intro hidle
      dsimp only [client] at hc
      rw [hidle] at hc
      cases hc
    intro q hq
    dsimp only at hq
    split at hq
    · rcases List.mem_cons.mp hq with rfl | hq
      · exact h.peer hreading
      · exact h.heard q hq
    · exact h.heard q hq
  | newBoot => cases ht
  | command | ask | send | handle | disconnect | ping =>
    cases ht
    exact ⟨h.heard, h.running, hpeer (by simp)⟩

/-- So does every step. -/
theorem sane_step {e : Event} (h : Sane s) (hs : machine.step s e = some t) : Sane t := by
  cases e with
  | client a => exact sane_client h hs
  | exit =>
    dsimp only [machine] at hs
    split at hs
    · cases hs
      exact ⟨h.heard, by simp, h.peer⟩
    · cases hs
  | newBoot =>
    dsimp only [machine] at hs
    split at hs
    · cases hs
    · cases hs
      exact ⟨h.heard, h.running, h.peer⟩
  | spawned ok =>
    dsimp only [machine] at hs
    split at hs
    · cases hs
    · split at hs
      · cases hs
        -- the new guest has the next number, above all those that were heard
        refine ⟨fun q hq => Nat.lt_succ_of_lt (h.heard q hq), ?_,
          fun hr => Nat.lt_succ_of_lt (h.peer hr)⟩
        intro q hq
        obtain rfl := Option.some_inj.mp hq
        exact Nat.lt_succ_self _
      · cases hs
        exact ⟨h.heard, h.running, h.peer⟩
  | push enabled w =>
    dsimp only [machine] at hs
    split at hs
    · cases hs
    · cases hs
      rw [State.pushAlcOnce]
      -- only a push that is sent touches the client
      split
      · exact h
      · split
        · refine ⟨h.heard, h.running, ?_⟩
          rw [reader_sendLine]
          exact h.peer
        · exact h

theorem sane_reach (h : machine.Reach Kept .init s) : Sane s :=
  h.inv ⟨by simp [State.init], by simp [State.init], fun hno => absurd rfl hno⟩ fun _ _ _ ht _ hs =>
    sane_step ht hs

/-- The worker pushes at the latest when a start has failed. -/
theorem early_of_latency (hpushed : s.pushed = false)
    (hlatency : s.client.shared.latency.isSome = true) (hup : ¬ s.Up) :
    Early s := by
  have hfail : ∀ u : State, u.spawning = true → u.running = none → u.pushed = false →
      u.client.shared.latency.isSome = true → Early u := by
    intro u hspawning hrunning hpushed hlatency
    have hstep : machine.step u (.spawned false) = some { u with spawning := false } := by
      simp [machine, hspawning, hrunning]
    refine .of_step hstep ⟨_, .refl, ⟨rfl, hpushed, hlatency⟩, ?_⟩
    rintro ⟨q, hq, -⟩
    rw [show u.running = some q from hq] at hrunning
    cases hrunning
  by_cases hspawning : s.spawning = true
  · rcases hrunning : s.running with _ | q
    · exact hfail s hspawning hrunning hpushed hlatency
    · have hexit : machine.step s .exit = some { s with running := none } := by
        simp [machine, hrunning]
      exact .of_step hexit (hfail _ hspawning rfl hpushed hlatency)
  · exact ⟨s, .refl, ⟨by simpa using hspawning, hpushed, hlatency⟩, hup⟩

/-- A latency known while the guest is not up lets the next push come early. -/
theorem early_of_known (hpushed : s.pushed = false) (hknown : known s.client = true)
    (hup : ¬ s.Up) : Early s := by
  by_cases hlatency : s.client.shared.latency.isSome = true
  · exact early_of_latency hpushed hlatency hup
  · rcases hreader : s.client.reader with _ | conn | ⟨conn, text⟩
    · rw [known_idle hreader] at hknown
      exact absurd hknown hlatency
    · rw [known_reading hreader] at hknown
      exact absurd hknown hlatency
    · rw [known_handling hreader, Bool.or_eq_true] at hknown
      have htold := hknown.resolve_left hlatency
      have hhandle : machine.step s (.client .handle) =
          some { s with client := s.client.handle conn text } := by
        simp [machine, State.clientStep, client, hreader]
      refine .of_step hhandle (early_of_latency hpushed ?_ hup)
      show (s.client.handle conn text).shared.latency.isSome = true
      rw [latency_handle, Option.isSome_or, htold, Bool.true_or]

/-- A step that does not meet the condition. -/
theorem early_of_not_kept {e : Event} (h : Sane s) (hno : ¬ Kept s e)
    (hs : machine.step s e = some t) : Early t := by
  cases e with
  | client a =>
    cases a with
    | line text luck =>
      -- told by a guest that is not the one running, and nothing was pushed
      simp only [Kept, Classical.not_imp, not_or, Bool.not_eq_true] at hno
      obtain ⟨htold, hpushed, hup, hpeer⟩ := hno
      obtain ⟨c, hc, ht⟩ := Option.bind_eq_some_iff.mp hs
      cases ht
      refine early_of_known hpushed ?_ ?_
      · show known c = true
        dsimp only [client] at hc
        split at hc
        · cases hc
          rw [Client.lineArrived]
          split
          · rw [known_handling rfl, htold, Bool.or_true]
          · rw [known_handling rfl, htold, Bool.or_true]
        · cases hc
      · rintro ⟨q, hrunning, hq⟩
        dsimp only at hrunning hq
        rw [if_pos htold] at hq
        rcases List.mem_cons.mp hq with rfl | hq
        · exact hpeer hrunning
        · exact hup ⟨q, hrunning, hq⟩
    | command | ask | send | connect | handle | disconnect | ping | newBoot =>
        exact absurd trivial hno
  | exit =>
    -- the guest has gone with a latency known and not pushed
    simp only [Kept, not_or, Bool.not_eq_true, Bool.not_eq_false] at hno
    dsimp only [machine] at hs
    split at hs
    · cases hs
      refine early_of_known hno.1 hno.2 ?_
      rintro ⟨q, hq, -⟩
      cases hq
    · cases hs
  | spawned ok =>
    cases ok with
    | false => exact absurd trivial hno
    | true =>
      have hknown : known s.client = true := by simpa [Kept] using hno
      dsimp only [machine] at hs
      -- a new guest that starts with a latency known: nothing has been heard of it
      split at hs
      · cases hs
      · cases hs
        refine early_of_known rfl hknown ?_
        rintro ⟨q, hq, hmem⟩
        cases hq
        exact Nat.lt_irrefl _ (h.heard _ hmem)
  | newBoot | push => exact absurd trivial hno

/-- **The value waits for the running guest's latency** in every run whose steps meet the condition;
    and behind any step that does not, the worker can send it early. -/
theorem push_waits_of_kept {s : State} (h : machine.Reach Kept .init s) :
    (s.Sends → s.Up) ∧ ∀ e t, ¬ Kept s e → machine.step s e = some t → Early t := by
  refine ⟨?_, fun e t hno hs => early_of_not_kept (sane_reach h) hno hs⟩
  intro hsends
  rcases waits_reach h (known_of_sends hsends) with hpushed | hup
  · rw [hsends.2.1] at hpushed
    exact absurd hpushed Bool.false_ne_true
  · exact hup

/-- QEMU starts, and its guest reports a latency. -/
def reported : List Event :=
  [.newBoot, .spawned true, .client (.connect true), .client (.line (chars "latency 5,12,17") []),
    .client .handle]

/-- In a first boot the push is sent to the guest that is up. -/
theorem first_boot_waits : ∃ s, machine.Reach Kept .init s ∧ s.Sends ∧ s.Up := by
  obtain ⟨s, hreach, hsends⟩ :=
    Reach.of_run_any (M := machine) (G := Kept) (s := .init) (p := fun s => decide s.Sends) reported
    (by decide)
  have hsends := of_decide_eq_true hsends
  exact ⟨s, hreach, hsends, (push_waits_of_kept hreach).1 hsends⟩

/-- Behind a restart the first guest's latency is still there. -/
theorem restart_sends_early : ¬ ∀ s, machine.Reach Free .init s → s.Sends → s.Up := by
  intro h
  obtain ⟨s, hreach, hearly⟩ := Reach.of_run_any (M := machine) (G := Free) (s := .init)
    (p := fun s => decide s.Sends && !decide s.Up)
    (reported ++ [.push true .all, .exit, .client .disconnect, .newBoot, .spawned true])
      (by decide)
  rw [Bool.and_eq_true, Bool.not_eq_true', decide_eq_true_eq, decide_eq_false_iff_not] at hearly
  exact hearly.2 (h s hreach hearly.1)

end CdjEmu.Runtime.AlcPush
