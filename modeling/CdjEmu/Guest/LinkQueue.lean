/-
  THE DELAYED PRO DJ LINK PACKETS — the hooks of `sendto`, `sendmsg` and `close`, and the worker
  that sends.

  A packet to a Pro DJ Link port waits in a ring of 512 entries until its audio is heard; the worker
  takes the oldest entry, sends it, and only then moves the tail.  While a packet waits, the app may
  close its descriptor: the hook of `close` marks the entry and reports success, and the worker
  closes the descriptor after the packet.

  Any number of the app's threads are in the hooks, and each step is one access to shared state: an
  atomic, a section under the queue's lock, or a system call.  The kernel's table says which file a
  descriptor is; a number that is free can be given to the next file that is opened.  `app` is the
  app's own view: the descriptors that it has opened and not closed.  The app uses and closes only
  these.

  `thread` and `number` name a packet by its sender and its place among the sender's calls, `file`
  is the file that the descriptor was when the packet was queued, and `queued`, `shut` and `behind`
  are history; no step reads them.  The time is not modelled, a packet may become due at any moment.
-/
import CdjEmu.Lib.Buffer
import CdjEmu.Lib.Machine
import CdjEmu.Lib.Ring

namespace CdjEmu.Link

/-! ## Packets -/

/-- `LINK_QUEUE_SIZE`. -/
def queueSize : Nat := 512

/-- `LINK_PKT_MAX`. -/
def pktMax : Nat := 1500

/-- `"Qspt1WmJOL"`. -/
def djplMagic : Bytes := [0x51, 0x73, 0x70, 0x74, 0x31, 0x57, 0x6D, 0x4A, 0x4F, 0x4C]

structure Packet where
  fd : Nat
  buf : Bytes
  flags : Int
  /-- The address, empty if there is none. -/
  dest : Bytes
  deriving DecidableEq

/-- `port_from_sa`: the port of an IPv4 address, else 0. -/
def portFromSa (sa : Bytes) : Nat := if sa.length < 16 ∨ slice sa 0 2 ≠ [2, 0] then 0 else be16 sa 2

def isDjplPort (port : Nat) : Bool := port = 50001 ∨ port = 50002

def isDjplPacket (buf : Bytes) : Bool := 11 ≤ buf.length ∧ djplMagic.isPrefixOf buf

/-- A packet to a Pro DJ Link port with the magic header. -/
def Packet.isLink (p : Packet) : Bool := isDjplPort (portFromSa p.dest) && isDjplPacket p.buf

/-- Why a packet is sent at once. -/
inductive Why where
  | notLink
  /-- `sendmsg` with more than one buffer, or none. -/
  | scattered
  | tooLong
  | off
  | noDelay
  | noWorker
  | full
  deriving DecidableEq

/-- A call of `sendto`, or of `sendmsg`; `single` says whether the hook looks at it. -/
structure Call where
  packet : Packet
  single : Bool
  number : Nat
  deriving DecidableEq

/-- What the hooks find out from the call alone. -/
def Call.refused (c : Call) : Option Why :=
  if c.single = false then some .scattered
  else if isDjplPort (portFromSa c.packet.dest) = false then some .notLink
  else if pktMax < c.packet.buf.length then some .tooLong
  else if isDjplPacket c.packet.buf = false then some .notLink
  else none

/-! ## The state -/

section State

variable (ι : Type)

/-- `pending_send_t`. -/
structure Entry where
  packet : Packet
  appWantsClose : Bool
  thread : ι
  number : Nat
  file : Option Nat
  deriving DecidableEq

/-- Where a thread of the app is. -/
inductive Place where
  | idle
  /-- In the hook of a send. -/
  | entered (c : Call)
  /-- The switch is on. -/
  | enabled (c : Call)
  /-- The delay is read. -/
  | delayed (c : Call) (ms : Int)
  /-- In `pthread_create`. -/
  | creating (c : Call)
  /-- `ensure_worker_started` has returned. -/
  | ready (c : Call)
  /-- The worker is there. -/
  | cleared (c : Call)
  /-- It sends the packet itself. -/
  | passing (c : Call) (why : Why)
  /-- In `close`: no packet waits on the descriptor. -/
  | closing (fd file : Nat)
  deriving DecidableEq

/-- How a packet went out: from the queue, where its descriptor was this file, or at once. -/
inductive Route where
  | queued (file : Option Nat)
  | passed (why : Why)
  deriving DecidableEq

/-- A send to the kernel: the packet, the file that its descriptor was, and
    what waited in the queue. -/
structure Sent where
  thread : ι
  number : Nat
  packet : Packet
  route : Route
  hit : Option Nat
  behind : List (ι × Nat)
  deriving DecidableEq

/-- A close that reached the kernel: the file that the app closed, and the one
    that the descriptor was. -/
structure Closed where
  file : Option Nat
  hit : Option Nat
  deriving DecidableEq

/-- Where the worker is. -/
inductive Worker where
  | idle
  | picked
  | sent
  | closing (fd : Nat) (file : Option Nat)
  deriving DecidableEq

structure State where
  ring : Ring (Entry ι) queueSize (2 ^ 32)
  enabled : Int
  delay : Int
  started : Bool
  running : Bool
  worker : Worker
  place : ι → Place
  calls : ι → Nat
  /-- The kernel's descriptors. -/
  fds : Nat → Option Nat
  /-- How many files have been opened. -/
  files : Nat
  /-- The descriptors that the app has open. -/
  app : Nat → Option Nat
  wire : List (Sent ι)
  closes : List Closed
  queued : List (ι × Nat)
  /-- The files that the app has closed. -/
  shut : List Nat

end State

variable {ι : Type}

/-- The app has closed the descriptor. -/
def Entry.mark (e : Entry ι) : Entry ι := { e with appWantsClose := true }

def Entry.item (e : Entry ι) : ι × Nat := (e.thread, e.number)

def Sent.item (s : Sent ι) : ι × Nat := (s.thread, s.number)

namespace State

/-- The packets that wait to be sent. -/
def waiting (s : State ι) : List (Entry ι) :=
  match s.worker with
  | .sent => s.ring.toList.tail
  | _ => s.ring.toList

/-- The place of the entry that the hook of `close` marks: the oldest one on the descriptor. -/
def scan (s : State ι) (fd : Nat) : Option Nat :=
  (List.range s.ring.count).find? fun i => (s.ring.entry i).packet.fd = fd

/-- The raw system call. -/
def transmit (s : State ι) (t : ι) (number : Nat) (packet : Packet) (route : Route) : State ι :=
  { s with
    wire := s.wire ++ [⟨t, number, packet, route, s.fds packet.fd, s.waiting.map Entry.item⟩] }

/-- `sys_close` of a descriptor that was `file` to the app. -/
def sysClose (s : State ι) (fd : Nat) (file : Option Nat) : State ι :=
  { s with fds := Function.update s.fds fd none, closes := s.closes ++ [⟨file, s.fds fd⟩] }

variable [DecidableEq ι]

/-- The thread goes on. -/
def moveTo (s : State ι) (t : ι) (p : Place) : State ι :=
  { s with place := Function.update s.place t p }

/-- `try_enqueue` under the lock. -/
def tryEnqueue (s : State ι) (t : ι) (c : Call) : State ι :=
  if queueSize ≤ s.ring.count then s.moveTo t (.passing c .full)
  else { s.moveTo t .idle with
    ring := s.ring.push ⟨c.packet, false, t, c.number, s.fds c.packet.fd⟩
    queued := s.queued ++ [(t, c.number)] }

/-- `shim_link_intercept_close`, and what `close` makes of it. -/
def interceptClose (s : State ι) (t : ι) (fd file : Nat) : State ι :=
  let u := { s with app := Function.update s.app fd none, shut := s.shut ++ [file] }
  match s.scan fd with
  | some i => { u with ring := u.ring.modify i Entry.mark }
  | none => u.moveTo t (.closing fd file)

end State

inductive Event (ι : Type) where
  /-- A thread calls `sendto` or `sendmsg`, and goes through the hook step by step. -/
  | call (t : ι) (packet : Packet) (single : Bool)
  | loadEnabled (t : ι)
  | loadDelay (t : ι)
  | ensure (t : ι)
  | create (t : ι) (ok : Bool)
  | check (t : ι)
  | enqueue (t : ι)
  | pass (t : ι)
  /-- A thread calls `close`; the system call, if the hook leaves it to the caller. -/
  | close (t : ι) (fd : Nat)
  | sysClose (t : ι)
  /-- A file is opened and gets this number. -/
  | opened (fd : Nat)
  /-- The two stores of `refresh_delay_ms`. -/
  | refreshEnabled (enabled : Int)
  | refreshDelay (manual auto : Int)
  /-- The worker. -/
  | pick
  | send
  | advance
  | workerClose

/-- No descriptor is open and the queue is empty. -/
def State.init (t : ι) : State ι where
  ring := ⟨fun _ => ⟨⟨0, [], 0, []⟩, false, t, 0, none⟩, 0, 0, by decide, by decide⟩
  enabled := 0
  delay := 0
  started := false
  running := false
  worker := .idle
  place := fun _ => .idle
  calls := fun _ => 0
  fds := fun _ => none
  files := 0
  app := fun _ => none
  wire := []
  closes := []
  queued := []
  shut := []

variable [DecidableEq ι]

/-- The shim in the app. -/
def link : Machine (State ι) (Event ι) where
  step s
    | .call t packet single =>
      if s.place t = .idle ∧ s.app packet.fd ≠ none then
        some { s.moveTo t (.entered ⟨packet, single, s.calls t⟩) with
          calls := Function.update s.calls t (s.calls t + 1) }
      else none
    | .loadEnabled t =>
      match s.place t with
      | .entered c =>
        match c.refused with
        | some why => some (s.moveTo t (.passing c why))
        | none => some (s.moveTo t (if s.enabled = 0 then .passing c .off else .enabled c))
      | _ => none
    | .loadDelay t =>
      match s.place t with
      | .enabled c => some (s.moveTo t (.delayed c s.delay))
      | _ => none
    | .ensure t =>
      match s.place t with
      | .delayed c ms =>
        if ms ≤ 0 then some (s.moveTo t (.passing c .noDelay))
        else if pktMax < c.packet.buf.length then some (s.moveTo t (.passing c .tooLong))
        else if s.started then some (s.moveTo t (.ready c))
        else some { s.moveTo t (.creating c) with started := true }
      | _ => none
    | .create t ok =>
      match s.place t with
      | .creating c =>
        some (if ok then { s.moveTo t (.ready c) with running := true } else
          { s.moveTo t (.ready c) with started := false })
      | _ => none
    | .check t =>
      match s.place t with
      | .ready c => some (s.moveTo t (if s.started then .cleared c else .passing c .noWorker))
      | _ => none
    | .enqueue t =>
      match s.place t with
      | .cleared c => some (s.tryEnqueue t c)
      | _ => none
    | .pass t =>
      match s.place t with
      | .passing c why => some ((s.moveTo t .idle).transmit t c.number c.packet (.passed why))
      | _ => none
    | .close t fd =>
      match s.app fd with
      | some file => if s.place t = .idle then some (s.interceptClose t fd file) else none
      | none => none
    | .sysClose t =>
      match s.place t with
      | .closing fd file => some ((s.moveTo t .idle).sysClose fd (some file))
      | _ => none
    | .opened fd =>
      if s.fds fd = none then
        some { s with
          fds := Function.update s.fds fd (some s.files)
          app := Function.update s.app fd (some s.files)
          files := s.files + 1 }
      else none
    | .refreshEnabled enabled => some { s with enabled := max enabled 0 }
    | .refreshDelay manual auto =>
        some { s with delay := min (if 0 < manual then manual else max auto 0) 5000 }
    | .pick =>
      if s.running ∧ s.worker = .idle ∧ 0 < s.ring.count then some { s with worker := .picked }
      else none
    | .send =>
      if s.worker = .picked then
        let e := s.ring.entry 0
        some { s.transmit e.thread e.number e.packet (.queued e.file) with worker := .sent }
      else none
    | .advance =>
      if s.worker = .sent then
        let e := s.ring.entry 0
        some { s with
          ring := s.ring.drop
          worker := if e.appWantsClose then .closing e.packet.fd e.file else .idle }
      else none
    | .workerClose =>
      match s.worker with
      | .closing fd file => some { s.sysClose fd file with worker := .idle }
      | _ => none

/-! ## What a step does -/

namespace Place

/-- The send that a thread is in. -/
def call : Place → Option Call
  | .entered c | .enabled c | .delayed c _ | .creating c | .ready c | .cleared c
  | .passing c _ => some c
  | .idle | .closing _ _ => none

/-- The close that a thread is in. -/
def toClose : Place → Option (Nat × Nat)
  | .closing fd file => some (fd, file)
  | _ => none

end Place

/-- Only the switches and the way through a hook changed, or the worker picked the oldest entry. -/
structure Quiet (s u : State ι) : Prop where
  ring : u.ring = s.ring
  calls : u.calls = s.calls
  fds : u.fds = s.fds
  files : u.files = s.files
  app : u.app = s.app
  wire : u.wire = s.wire
  closes : u.closes = s.closes
  queued : u.queued = s.queued
  shut : u.shut = s.shut
  call : ∀ t, (u.place t).call = (s.place t).call
  toClose : ∀ t, (u.place t).toClose = (s.place t).toClose
  worker : u.worker = s.worker ∨ (s.worker = .idle ∧ u.worker = .picked ∧ 0 < s.ring.count)

/-- What an event does. -/
inductive Change (s : State ι) : Event ι → State ι → Prop
  | quiet {a : Event ι} {u : State ι} : Quiet s u → Change s a u
  | call {t : ι} {c : Call} : s.place t = .idle → s.app c.packet.fd ≠ none → c.number = s.calls t →
      Change s (.call t c.packet c.single)
        { s.moveTo t (.entered c) with calls := Function.update s.calls t (s.calls t + 1) }
  | enqueue {t : ι} {c : Call} : s.place t = .cleared c → s.ring.count < queueSize →
      Change s (.enqueue t) { s.moveTo t .idle with
        ring := s.ring.push ⟨c.packet, false, t, c.number, s.fds c.packet.fd⟩
        queued := s.queued ++ [(t, c.number)] }
  | pass {t : ι} {c : Call} {why : Why} : s.place t = .passing c why →
      Change s (.pass t) ((s.moveTo t .idle).transmit t c.number c.packet (.passed why))
  | closeLater {t : ι} {fd file i : Nat} :
      s.app fd = some file → s.place t = .idle → s.scan fd = some i →
      Change s (.close t fd) { s with
        app := Function.update s.app fd none
        shut := s.shut ++ [file]
        ring := s.ring.modify i Entry.mark }
  | closeNow {t : ι} {fd file : Nat} : s.app fd = some file → s.place t = .idle → s.scan fd = none →
      Change s (.close t fd) { s with
        app := Function.update s.app fd none
        shut := s.shut ++ [file]
        place := Function.update s.place t (.closing fd file) }
  | sysClose {t : ι} {fd file : Nat} : s.place t = .closing fd file →
      Change s (.sysClose t) ((s.moveTo t .idle).sysClose fd (some file))
  | opened {fd : Nat} : s.fds fd = none →
      Change s (.opened fd) { s with
        fds := Function.update s.fds fd (some s.files)
        app := Function.update s.app fd (some s.files)
        files := s.files + 1 }
  | send : s.worker = .picked →
      Change s .send
        { s.transmit (s.ring.entry 0).thread (s.ring.entry 0).number (s.ring.entry 0).packet
        (.queued (s.ring.entry 0).file) with worker := .sent }
  | advance : s.worker = .sent →
      Change s .advance { s with
        ring := s.ring.drop
        worker := if (s.ring.entry 0).appWantsClose then .closing (s.ring.entry 0).packet.fd
          (s.ring.entry 0).file
          else .idle }
  | workerClose {fd : Nat} {file : Option Nat} : s.worker = .closing fd file →
      Change s .workerClose { s.sysClose fd file with worker := .idle }

variable {s u : State ι} {a : Event ι}

/-- A thread goes on in the hook of a send. -/
theorem Quiet.of_moveTo {t : ι} {c : Call} {p q : Place} (hp : s.place t = p)
    (hpc : p.call = some c) (hqc : q.call = some c) : Quiet s (s.moveTo t q) := by
  have hnone : ∀ r : Place, r.call = some c → r.toClose = none := by
    intro r hr
    cases r <;> first | rfl | cases hr
  refine ⟨rfl, rfl, rfl, rfl, rfl, rfl, rfl, rfl, rfl, fun v => ?_, fun v => ?_, .inl rfl⟩
  · show (Function.update s.place t q v).call = (s.place v).call
    rcases eq_or_ne v t with rfl | hv
    · rw [Function.update_self, hp, hpc, hqc]
    · rw [Function.update_of_ne hv]
  · show (Function.update s.place t q v).toClose = (s.place v).toClose
    rcases eq_or_ne v t with rfl | hv
    · rw [Function.update_self, hp, hnone p hpc, hnone q hqc]
    · rw [Function.update_of_ne hv]

omit [DecidableEq ι] in
/-- The two atomics of the worker's start. -/
theorem Quiet.with_started (h : Quiet s u) (started running : Bool) :
    Quiet s { u with started := started, running := running } :=
  ⟨h.ring, h.calls, h.fds, h.files, h.app, h.wire, h.closes, h.queued, h.shut, h.call, h.toClose,
    h.worker⟩

omit [DecidableEq ι] in
/-- The two values that are read again. -/
theorem Quiet.of_switches (enabled delay : Int) :
    Quiet s { s with enabled := enabled, delay := delay } :=
  ⟨rfl, rfl, rfl, rfl, rfl, rfl, rfl, rfl, rfl, fun _ => rfl, fun _ => rfl, .inl rfl⟩

/-- **Every step is one of these changes.** -/
theorem step_change (hs : link.step s a = some u) : Change s a u := by
  cases a with
  -- the calls of the hook one place after the other, then `close`, the switches and the worker
  | call t packet single =>
    obtain ⟨⟨hidle, happ⟩, hu⟩ := Option.ite_none_right_eq_some.mp hs
    obtain rfl := Option.some.inj hu
    exact .call (c := ⟨packet, single, s.calls t⟩) hidle happ rfl
  | loadEnabled t =>
    cases hp : s.place t with
    | entered c =>
      simp only [link, hp] at hs
      cases hr : c.refused with
      | some why =>
        simp only [hr] at hs
        obtain rfl := Option.some.inj hs
        exact .quiet (.of_moveTo hp rfl rfl)
      | none =>
        simp only [hr] at hs
        obtain rfl := Option.some.inj hs
        -- a place of the hook moves the thread and nothing else
        refine .quiet (.of_moveTo (c := c) hp rfl ?_)
        split <;> rfl
    | _ => simp only [link, hp] at hs; cases hs
  | loadDelay t =>
    cases hp : s.place t with
    | enabled c =>
      simp only [link, hp] at hs
      obtain rfl := Option.some.inj hs
      exact .quiet (.of_moveTo hp rfl rfl)
    | _ => simp only [link, hp] at hs; cases hs
  | ensure t =>
    cases hp : s.place t with
    | delayed c ms =>
      simp only [link, hp] at hs
      split at hs
      · obtain rfl := Option.some.inj hs
        exact .quiet (.of_moveTo hp rfl rfl)
      split at hs
      · obtain rfl := Option.some.inj hs
        exact .quiet (.of_moveTo hp rfl rfl)
      split at hs
      · obtain rfl := Option.some.inj hs
        exact .quiet (.of_moveTo hp rfl rfl)
      -- only here is the worker asked for
      · obtain rfl := Option.some.inj hs
        exact .quiet ((Quiet.of_moveTo (q := .creating c) hp rfl rfl).with_started true s.running)
    | _ => simp only [link, hp] at hs; cases hs
  | create t ok =>
    cases hp : s.place t with
    | creating c =>
      simp only [link, hp] at hs
      have hq : Quiet s (s.moveTo t (.ready c)) := .of_moveTo hp rfl rfl
      split at hs
      · obtain rfl := Option.some.inj hs
        exact .quiet (hq.with_started s.started true)
      · obtain rfl := Option.some.inj hs
        exact .quiet (hq.with_started false s.running)
    | _ => simp only [link, hp] at hs; cases hs
  | check t =>
    cases hp : s.place t with
    | ready c =>
      simp only [link, hp] at hs
      obtain rfl := Option.some.inj hs
      refine .quiet (.of_moveTo (c := c) hp rfl ?_)
      split <;> rfl
    | _ => simp only [link, hp] at hs; cases hs
  | enqueue t =>
    cases hp : s.place t with
    | cleared c =>
      simp only [link, hp] at hs
      obtain rfl := Option.some.inj hs
      unfold State.tryEnqueue
      -- a full ring passes the packet; else it is put in
      split
      · exact .quiet (.of_moveTo hp rfl rfl)
      · exact .enqueue hp (by omega)
    | _ => simp only [link, hp] at hs; cases hs
  | pass t =>
    cases hp : s.place t with
    | passing c why =>
      simp only [link, hp] at hs
      obtain rfl := Option.some.inj hs
      exact .pass hp
    | _ => simp only [link, hp] at hs; cases hs
  | close t fd =>
    cases happ : s.app fd with
    | some file =>
      simp only [link, happ] at hs
      obtain ⟨hidle, hu⟩ := Option.ite_none_right_eq_some.mp hs
      obtain rfl := Option.some.inj hu
      unfold State.interceptClose
      -- an entry on this fd has the socket closed for it, else the thread does it
      split
      · exact .closeLater happ hidle ‹_›
      · exact .closeNow happ hidle ‹_›
    | none => simp only [link, happ] at hs; cases hs
  | sysClose t =>
    cases hp : s.place t with
    | closing fd file =>
      simp only [link, hp] at hs
      obtain rfl := Option.some.inj hs
      exact .sysClose hp
    | _ => simp only [link, hp] at hs; cases hs
  | opened fd =>
    obtain ⟨hfree, hu⟩ := Option.ite_none_right_eq_some.mp hs
    obtain rfl := Option.some.inj hu
    exact .opened hfree
  | refreshEnabled enabled =>
    obtain rfl := Option.some.inj hs
    exact .quiet (.of_switches _ _)
  | refreshDelay manual auto =>
    obtain rfl := Option.some.inj hs
    exact .quiet (.of_switches _ _)
  | pick =>
    obtain ⟨⟨-, hidle, hcount⟩, hu⟩ := Option.ite_none_right_eq_some.mp hs
    obtain rfl := Option.some.inj hu
    exact .quiet ⟨rfl, rfl, rfl, rfl, rfl, rfl, rfl, rfl, rfl, fun _ => rfl, fun _ => rfl,
      .inr ⟨hidle, rfl, hcount⟩⟩
  | send =>
    obtain ⟨hpicked, hu⟩ := Option.ite_none_right_eq_some.mp hs
    obtain rfl := Option.some.inj hu
    exact .send hpicked
  | advance =>
    obtain ⟨hsent, hu⟩ := Option.ite_none_right_eq_some.mp hs
    obtain rfl := Option.some.inj hu
    exact .advance hsent
  | workerClose =>
    cases hw : s.worker with
    | closing fd file =>
      simp only [link, hw] at hs
      obtain rfl := Option.some.inj hs
      exact .workerClose hw
    | _ => simp only [link, hw] at hs; cases hs

end CdjEmu.Link
