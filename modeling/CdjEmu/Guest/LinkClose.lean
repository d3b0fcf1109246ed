/-
  THE SOCKETS OF THE DELAYED PACKETS — who closes them, and when.

  A socket is kept by the app that opened it.  The app's `close` gives it to the queue if a packet
  waits on it, else to the thread that closes; from the queue it goes to the worker, which closes
  it.  `Tracks` says that the shim's state is such a custody.

  The hook marks only the oldest entry on the descriptor.  With more than one the worker closes too
  early, and the rest are sent on whatever the number is then.  Nor may an entry come in after the
  close.  `Tidy` is that neither happens.

  1. **Program** — `Guest/LinkQueue` has the shim: the hooks of `sendto` and `close`, the ring of
     waiting packets and its worker, over numbers that the kernel gives out again and open files
     that it does not.

  2. **Specification** — a packet from the queue is sent on the open file that it was queued with; a
     file is closed once, by someone, after the app has closed it and when no packet of it waits;
     and a worker that goes on comes to the end of its work.

  3. **The crux (`Tracks`)** — custody, as `Lib/Custody` has it: a file has one keeper, and each
     step passes it on or lets it end.  The steps of the shim are compared with custody steps, and
     the exactly-once comes from there.

  4. **Bridge** — `State.work` counts the worker's remaining steps, so that the run in which only it
     moves is found by induction.
-/
import CdjEmu.Guest.LinkOrder
import CdjEmu.Lib.Custody

namespace CdjEmu.Link

open Machine

variable {ι : Type}

/-- Who has to close a socket. -/
inductive Keeper (ι : Type) where
  | app
  | entry
  | worker
  | thread (t : ι)
  deriving DecidableEq

/-- At most one packet waits on the descriptor. -/
def Alone (l : List (Entry ι)) (fd : Nat) : Prop :=
  l.Pairwise fun e e' => e.packet.fd = fd → e'.packet.fd ≠ fd

instance (l : List (Entry ι)) (fd : Nat) : Decidable (Alone l fd) :=
  inferInstanceAs (Decidable (List.Pairwise _ _))

/-- When the app closes a descriptor, at most one packet waits on it; a packet is queued while the
    app has its descriptor open. -/
def Tidy (s : State ι) : Event ι → Prop
  | .close _ fd => Alone s.ring.toList fd
  | .enqueue t => ∀ c ∈ (s.place t).call, s.ring.count < queueSize → s.app c.packet.fd ≠ none
  | _ => True

instance (s : State ι) (a : Event ι) : Decidable (Tidy s a) := by
  cases a <;> (unfold Tidy; infer_instance)

/-! ## Who keeps a socket -/

/-- The party would close the file, through this descriptor. -/
def Holds (s : State ι) (k : Keeper ι) (fd n : Nat) : Prop :=
  match k with
  | .app => s.app fd = some n
  | .entry => ∃ e ∈ s.ring.toList, e.appWantsClose = true ∧ e.packet.fd = fd ∧ e.file = some n
  | .worker => s.worker = .closing fd (some n)
  | .thread t => (s.place t).toClose = some (fd, n)

/-- The state as a custody. -/
structure Tracks (s : State ι) (c : Custody (Keeper ι)) : Prop where
  table : c.table = s.fds
  opened : c.opened = s.files
  given : c.given = s.shut
  closes : s.closes = c.closed.map fun n => ⟨some n, some n⟩
  holds : ∀ k fd n, Holds s k fd n ↔ c.Holding k fd n
  /-- A packet is queued with its open file, and the app has it until the entry is marked. -/
  pending : ∀ e ∈ s.ring.toList, ∃ n, e.file = some n ∧
    (e.appWantsClose = false → s.app e.packet.fd = some n)
  alone : ∀ e ∈ s.ring.toList, e.appWantsClose = true → Alone s.ring.toList e.packet.fd
  worker : ∀ fd, s.worker ≠ .closing fd none
  /-- The queue's packets were sent on their files. -/
  sent : ∀ x ∈ s.wire, ∀ file, x.route = .queued file → ∃ n, file = some n ∧ x.hit = some n

namespace Alone

variable {l : List (Entry ι)} {fd : Nat}

theorem congr {l' : List (Entry ι)}
    (h : l'.map (fun e => e.packet.fd) = l.map fun e => e.packet.fd) :
    Alone l' fd ↔ Alone l fd := by
  have key : ∀ m : List (Entry ι), Alone m fd ↔ (m.map fun e => e.packet.fd).Pairwise fun x y =>
    x = fd → y ≠ fd :=
    fun m => by rw [List.pairwise_map]; rfl
  rw [key, key, h]

/-- The one entry on a descriptor is found by it. -/
theorem modify_eq_map (h : Alone l fd) {i : Nat} {e : Entry ι} (hi : l[i]? = some e)
    (he : e.packet.fd = fd) (f : Entry ι → Entry ι) :
    l.modify i f = l.map fun e => if e.packet.fd = fd then f e else e := by
  induction l generalizing i with
  | nil => cases hi
  | cons e' l ih =>
    obtain ⟨hhead, htail⟩ := List.pairwise_cons.mp h
    cases i with
    | zero =>
      obtain rfl := Option.some.inj hi
      rw [List.map_cons, if_pos he]
      have hrest : l.map (fun e => if e.packet.fd = fd then f e else e) = l.map id :=
        List.map_congr_left fun x hx => if_neg (hhead x hx he)
      rw [hrest, List.map_id]
      rfl
    | succ i =>
      have hmem : e ∈ l := List.mem_of_getElem? hi
      have hne : e'.packet.fd ≠ fd := fun heq => hhead e hmem heq he
      rw [List.map_cons, if_neg hne, List.modify_succ_cons, ih htail hi]

end Alone

/-! ## A step -/

section Step

variable {s u : State ι} {c : Custody (Keeper ι)}

/-- What is kept elsewhere is not touched. -/
theorem Tracks.elsewhere (h : Tracks s c) (k' : Keeper ι) {k : Keeper ι} {fd n : Nat}
    (hk : Holds s k fd n) (hne : k' ≠ k) (fd' m : Nat) :
    Holds s k' fd' m ↔ fd' ≠ fd ∧ Holds s k' fd' m := by
  refine ⟨fun hm => ⟨?_, hm⟩, And.right⟩
  rintro rfl
  exact hne (((h.holds _ _ _).mp hk).eq ((h.holds _ _ _).mp hm)).2

theorem Tracks.elsewhere_hand (h : Tracks s c) (k k' : Keeper ι) {k₀ : Keeper ι} {fd n : Nat}
    (hk : Holds s k₀ fd n) (hne : k ≠ k₀) (hne' : k ≠ k') (fd' m : Nat) :
    Holds s k fd' m ↔ (fd' ≠ fd ∧ Holds s k fd' m) ∨ (fd' = fd ∧ m = n ∧ k = k') :=
  (h.elsewhere k hk hne fd' m).trans (or_iff_left fun hnew => hne' hnew.2.2).symm

/-- Nothing that concerns the sockets has changed. -/
theorem Tracks.congr (h : Tracks s c) (hfds : u.fds = s.fds) (hfiles : u.files = s.files)
    (happ : u.app = s.app) (hshut : u.shut = s.shut) (hcloses : u.closes = s.closes)
    (hring : u.ring = s.ring)
    (hclosing : ∀ fd file, u.worker = .closing fd file ↔ s.worker = .closing fd file)
    (hplace : ∀ t, (u.place t).toClose = (s.place t).toClose) (hsent : ∀ x ∈ u.wire, ∀ file,
      x.route = .queued file → ∃ n, file = some n ∧ x.hit = some n) : Tracks u c := by
  refine ⟨hfds ▸ h.table, hfiles ▸ h.opened, hshut ▸ h.given, hcloses ▸ h.closes, fun k fd n => ?_,
    ?_, ?_, ?_, hsent⟩
  · rw [← h.holds]
    cases k with
    | app => show u.app fd = _ ↔ s.app fd = _; rw [happ]
    | entry => show (∃ e ∈ u.ring.toList, _) ↔ ∃ e ∈ s.ring.toList, _; rw [hring]
    | worker => exact hclosing _ _
    | thread t => show (u.place t).toClose = _ ↔ (s.place t).toClose = _; rw [hplace]
  · rw [hring, happ]
    exact h.pending
  · rw [hring]
    exact h.alone
  · exact fun fd hw => h.worker fd ((hclosing _ _).mp hw)

/-- The wire after one more packet. -/
theorem Tracks.sent_append (h : Tracks s c) {y : Sent ι}
    (hy : ∀ file, y.route = .queued file → ∃ n, file = some n ∧ y.hit = some n) :
    ∀ x ∈ s.wire ++ [y], ∀ file, x.route = .queued file → ∃ n, file = some n ∧ x.hit = some n := by
  intro x hx
  rcases List.mem_append.mp hx with hold | hnew
  · exact h.sent x hold
  · obtain rfl := List.mem_singleton.mp hnew
    exact hy

/-- A packet's descriptor is its file as long as it is pending. -/
theorem Tracks.fds_entry (h : Tracks s c) {e : Entry ι} (he : e ∈ s.ring.toList) :
    ∃ n, e.file = some n ∧ s.fds e.packet.fd = some n := by
  obtain ⟨n, hfile, happ⟩ := h.pending e he
  refine ⟨n, hfile, ?_⟩
  rw [← h.table]
  cases hmark : e.appWantsClose with
  | false => exact ((h.holds .app _ _).mp (happ hmark)).1
  | true => exact ((h.holds .entry _ _).mp ⟨e, he, hmark, rfl, hfile⟩).1

/-- A socket that another party keeps has no marked packet. -/
theorem Tracks.not_marked (h : Tracks s c) {k : Keeper ι} {fd n : Nat} (hk : Holds s k fd n)
    (hne : k ≠ .entry) {e : Entry ι} (he : e ∈ s.ring.toList) (hfd : e.packet.fd = fd) :
    e.appWantsClose = false := by
  by_contra hmark
  obtain ⟨m, hfile, -⟩ := h.pending e he
  have hentry : Holds s .entry fd m := ⟨e, he, Bool.eq_true_of_not_eq_false hmark, hfd, hfile⟩
  exact hne (((h.holds _ _ _).mp hentry).eq ((h.holds _ _ _).mp hk)).2

/-- A new entry, for a descriptor that the app has open. -/
theorem Tracks.push (h : Tracks s c) {e : Entry ι} {ring : Ring (Entry ι) queueSize (2 ^ 32)}
    {queued : List (ι × Nat)} {place : ι → Place} (hring : ring.toList = s.ring.toList ++ [e])
    (hopen : s.app e.packet.fd ≠ none) (hmark : e.appWantsClose = false)
    (hfile : e.file = s.fds e.packet.fd) (hplace : ∀ t, (place t).toClose = (s.place t).toClose) :
    Tracks { s with ring := ring, queued := queued, place := place } c := by
  obtain ⟨n, hn⟩ := Option.ne_none_iff_exists'.mp hopen
  have hheld : Holds s .app e.packet.fd n := hn
  have hfd : s.fds e.packet.fd = some n := h.table ▸ ((h.holds _ _ _).mp hheld).1
  refine ⟨h.table, h.opened, h.given, h.closes, fun k fd m => ?_, ?_, ?_, h.worker, h.sent⟩
  · rw [← h.holds]
    cases k with
    | entry =>
      show (∃ e' ∈ ring.toList, _) ↔ ∃ e' ∈ s.ring.toList, _
      rw [hring]
      constructor
      · rintro ⟨e', he', hmark', hrest⟩
        rcases List.mem_append.mp he' with hold | hnew
        · exact ⟨e', hold, hmark', hrest⟩
        · obtain rfl := List.mem_singleton.mp hnew
          rw [hmark] at hmark'
          cases hmark'
      · rintro ⟨e', he', hrest⟩
        exact ⟨e', List.mem_append_left _ he', hrest⟩
    | thread t => show (place t).toClose = _ ↔ (s.place t).toClose = _; rw [hplace]
    | _ => rfl
  · show ∀ e' ∈ ring.toList, _
    rw [hring]
    intro e' he'
    rcases List.mem_append.mp he' with hold | hnew
    · exact h.pending e' hold
    · obtain rfl := List.mem_singleton.mp hnew
      exact ⟨n, hfile.trans hfd, fun _ => hn⟩
  · show ∀ e' ∈ ring.toList, _ → Alone ring.toList _
    rw [hring]
    intro e' he' hmark'
    rcases List.mem_append.mp he' with hold | hnew
    · refine List.pairwise_append.mpr ⟨h.alone e' hold hmark', List.pairwise_singleton _ _, ?_⟩
      intro x _ y hy _ hyfd
      obtain rfl := List.mem_singleton.mp hy
      -- the app has the new entry's socket, so it is not a marked one's
      rw [h.not_marked hheld nofun hold hyfd.symm] at hmark'
      cases hmark'
    · obtain rfl := List.mem_singleton.mp hnew
      rw [hmark] at hmark'
      cases hmark'

/-- `close` marks the entry: the app gives the socket to the queue. -/
theorem Tracks.mark (h : Tracks s c) (hsound : c.Sound .app) {fd n i : Nat}
    (happ : s.app fd = some n) (halone : Alone s.ring.toList fd) (hroom : s.ring.count ≤ queueSize)
    (hscan : s.scan fd = some i) :
    ∃ d, c.Step .app d ∧ Tracks { s with
      app := Function.update s.app fd none
      shut := s.shut ++ [n]
      ring := s.ring.modify i Entry.mark } d := by
  obtain ⟨hi, hfd⟩ := State.scan_eq_some hscan
  have hget := s.ring.getElem?_toList hi
  have hown : Holds s .app fd n := happ
  have hheld := (h.holds _ _ _).mp hown
  -- the fd has one entry, so marking that entry is marking whatever has the fd
  have hlist : (s.ring.modify i Entry.mark).toList = s.ring.toList.map fun e =>
    if e.packet.fd = fd then e.mark else e := by
    rw [s.ring.toList_modify (by decide) hi hroom, halone.modify_eq_map hget hfd]
  have hfds : ((s.ring.modify i Entry.mark).toList.map fun e => e.packet.fd) =
      s.ring.toList.map fun e => e.packet.fd := by
    rw [hlist, List.map_map]
    refine List.map_congr_left fun e _ => ?_
    show (ite _ _ _ : Entry ι).packet.fd = _
    split <;> rfl
  -- the marked entries: those of other fds as before, and the one of this socket
  have hentry : ∀ fd' m,
      (∃ e ∈ (s.ring.modify i Entry.mark).toList, e.appWantsClose = true ∧ e.packet.fd = fd' ∧
      e.file = some m) ↔ (fd' ≠ fd ∧ Holds s .entry fd' m) ∨
        (fd' = fd ∧ m = n ∧ Keeper.entry (ι := ι) = .entry) := by
    intro fd' m
    rw [hlist]
    constructor
    · rintro ⟨e', he', hmark', hfd', hfile⟩
      obtain ⟨e, he, rfl⟩ := List.mem_map.mp he'
      by_cases heq : e.packet.fd = fd
      -- the entry on the app's own fd holds the app's own file
      · rw [if_pos heq] at hfd' hfile
        obtain rfl : fd = fd' := heq.symm.trans hfd'
        obtain ⟨m', hfile', htable⟩ := h.fds_entry he
        rw [heq, ← h.table, hheld.1] at htable
        obtain rfl := Option.some.inj htable
        exact .inr ⟨rfl, Option.some.inj (hfile.symm.trans hfile'), rfl⟩
      · rw [if_neg heq] at hmark' hfd' hfile
        exact .inl ⟨hfd' ▸ heq, e, he, hmark', hfd', hfile⟩
    · rintro (⟨hne, e, he, hmark', hfd', hfile⟩ | ⟨rfl, rfl, -⟩)
      · exact ⟨e, List.mem_map.mpr ⟨e, he, if_neg (hfd' ▸ hne)⟩, hmark', hfd', hfile⟩
      · have he := List.mem_of_getElem? hget
        obtain ⟨m', hfile, htable⟩ := h.fds_entry he
        rw [hfd, ← h.table, hheld.1] at htable
        obtain rfl := Option.some.inj htable
        exact ⟨(s.ring.entry i).mark, List.mem_map.mpr ⟨_, he, if_pos hfd⟩, rfl, hfd, hfile⟩
  refine ⟨_, .give hheld.1 hheld.2 (k := .entry) nofun, h.table, h.opened,
    congrArg (· ++ [n]) h.given, h.closes, fun k fd' m => ?_, ?_, ?_, h.worker, h.sent⟩
  -- the custody passes from the app to the entry; nobody else's changes
  · refine Iff.trans ?_ (hsound.holding_hand hheld.1 .entry k fd' m).symm
    rw [← h.holds]
    cases k with
    | app =>
      refine Iff.trans ?_ (or_iff_left fun hnew => nomatch hnew.2.2).symm
      exact Custody.update_none_eq_some
    | entry => exact hentry fd' m
    | worker => exact h.elsewhere_hand .worker .entry hown nofun nofun fd' m
    | thread v => exact h.elsewhere_hand (.thread v) .entry hown nofun nofun fd' m
  · show ∀ e' ∈ (s.ring.modify i Entry.mark).toList, _
    rw [hlist]
    intro e' he'
    obtain ⟨e, he, rfl⟩ := List.mem_map.mp he'
    obtain ⟨m, hfile, hopen⟩ := h.pending e he
    by_cases hfd' : e.packet.fd = fd
    · rw [if_pos hfd']
      exact ⟨m, hfile, fun hmark => by cases hmark⟩
    · rw [if_neg hfd']
      refine ⟨m, hfile, fun hmark => ?_⟩
      show Function.update s.app fd none e.packet.fd = _
      rw [Function.update_of_ne hfd', hopen hmark]
  -- no other entry has the fd, neither before nor now
  · intro e' he' hmark'
    refine (Alone.congr hfds).mpr ?_
    change e' ∈ (s.ring.modify i Entry.mark).toList at he'
    rw [hlist] at he'
    obtain ⟨e, he, rfl⟩ := List.mem_map.mp he'
    by_cases hfd' : e.packet.fd = fd
    · rw [if_pos hfd']
      exact hfd' ▸ halone
    · rw [if_neg hfd'] at hmark' ⊢
      exact h.alone e he hmark'

section Threads

variable [DecidableEq ι]

theorem toClose_update {t : ι} {p : Place} {place : ι → Place} (v : ι) (fd' m : Nat) :
    (Function.update place t p v).toClose = some (fd', m) ↔
      (v ≠ t ∧ (place v).toClose = some (fd', m)) ∨ (v = t ∧ p.toClose = some (fd', m)) := by
  rcases eq_or_ne v t with rfl | hv
  · simp
  · simp [hv]

theorem toClose_moveTo {t : ι} {p : Place} {place : ι → Place} (h : p.toClose = (place t).toClose)
    (v : ι) :
    (Function.update place t p v).toClose = (place v).toClose := by
  rcases eq_or_ne v t with rfl | hv
  · rw [Function.update_self, h]
  · rw [Function.update_of_ne hv]

/-- `close` finds no entry: the app gives the socket to the thread. -/
theorem Tracks.close (h : Tracks s c) (hsound : c.Sound .app) {t : ι} {fd n : Nat}
    (happ : s.app fd = some n) (hidle : s.place t = .idle) (hscan : s.scan fd = none) :
    ∃ d, c.Step .app d ∧ Tracks { s with
      app := Function.update s.app fd none
      shut := s.shut ++ [n]
      place := Function.update s.place t (.closing fd n) } d := by
  have hown : Holds s .app fd n := happ
  have hheld := (h.holds _ _ _).mp hown
  -- the scan has found no entry, so none is on this fd
  have hout : ∀ e ∈ s.ring.toList, e.packet.fd ≠ fd := by
    intro e he hfd
    obtain ⟨i, hi, rfl⟩ := List.mem_map.mp he
    exact absurd hfd (of_decide_eq_false (Bool.eq_false_iff.mpr (List.find?_eq_none.mp hscan i hi)))
  refine ⟨_, .give hheld.1 hheld.2 (k := .thread t) nofun, h.table, h.opened,
    congrArg (· ++ [n]) h.given, h.closes, fun k fd' m => ?_, ?_, h.alone, h.worker, h.sent⟩
  · refine Iff.trans ?_ (hsound.holding_hand hheld.1 (.thread t) k fd' m).symm
    rw [← h.holds]
    cases k with
    | app =>
      refine Iff.trans ?_ (or_iff_left fun hnew => nomatch hnew.2.2).symm
      exact Custody.update_none_eq_some
    | thread v =>
      refine (toClose_update v fd' m).trans ?_
      -- the thread that closes holds the file from here, the others hold what they held
      rcases eq_or_ne v t with rfl | hv
      · show (v ≠ v ∧ _) ∨ (v = v ∧ some (fd, n) = some (fd', m)) ↔
            (fd' ≠ fd ∧ (s.place v).toClose = some (fd', m)) ∨ _
        rw [hidle]
        simp [Place.toClose, eq_comm]
      · refine Iff.trans ?_
          (h.elsewhere_hand (.thread v) (.thread t) hown nofun
            (fun heq => hv (Keeper.thread.inj heq)) fd' m)
        simp [hv, Holds]
    | entry => exact h.elsewhere_hand .entry (.thread t) hown nofun nofun fd' m
    | worker => exact h.elsewhere_hand .worker (.thread t) hown nofun nofun fd' m
  -- the entries that are not marked are on other fds
  · intro e he
    obtain ⟨m, hfile, hopen⟩ := h.pending e he
    refine ⟨m, hfile, fun hmark => ?_⟩
    show Function.update s.app fd none e.packet.fd = _
    rw [Function.update_of_ne (hout e he), hopen hmark]

/-- The thread closes it. -/
theorem Tracks.sysClose (h : Tracks s c) (hsound : c.Sound .app) {t : ι} {fd n : Nat}
    (hp : s.place t = .closing fd n) :
    ∃ d, c.Step .app d ∧ Tracks ((s.moveTo t .idle).sysClose fd (some n)) d := by
  have hown : Holds s (.thread t) fd n := by
    show (s.place t).toClose = _
    rw [hp]
    rfl
  have hheld := (h.holds _ _ _).mp hown
  refine ⟨_, .close hheld.1 hheld.2 nofun, ?_, h.opened, h.given, ?_, fun k fd' m => ?_, h.pending,
    h.alone, h.worker, h.sent⟩
  · exact congrArg (Function.update · fd none) h.table
  · show s.closes ++ [⟨some n, s.fds fd⟩] = (c.closed ++ [n]).map _
    rw [List.map_append, h.closes, ← h.table, hheld.1]
    rfl
  · refine Iff.trans ?_ (hsound.holding_close hheld.1 k fd' m).symm
    rw [← h.holds]
    cases k with
    | thread v =>
      refine (toClose_update v fd' m).trans ?_
      rcases eq_or_ne v t with rfl | hv
      · show (v ≠ v ∧ _) ∨ (v = v ∧ none = _) ↔ fd' ≠ fd ∧ (s.place v).toClose = some (fd', m)
        rw [hp]
        have hmoved : ¬ (fd' ≠ fd ∧ (Place.closing fd n).toClose = some (fd', m)) := by
          rintro ⟨hne, heq⟩
          exact hne (Prod.mk.inj (Option.some.inj heq)).1.symm
        simpa using hmoved
      · refine Iff.trans ?_
          (h.elsewhere (.thread v) hown (fun heq => hv (Keeper.thread.inj heq)) fd' m)
        simp [hv, Holds, Place.toClose]
    | app => exact h.elsewhere .app hown nofun fd' m
    | entry => exact h.elsewhere .entry hown nofun fd' m
    | worker => exact h.elsewhere .worker hown nofun fd' m

end Threads

/-- The worker closes it. -/
theorem Tracks.workerClose (h : Tracks s c) (hsound : c.Sound .app) {fd : Nat} {file : Option Nat}
    (hw : s.worker = .closing fd file) :
    ∃ d, c.Step .app d ∧ Tracks { s.sysClose fd file with worker := .idle } d := by
  obtain ⟨n, rfl⟩ : ∃ n, file = some n := by
    cases file with
    | none => exact absurd hw (h.worker fd)
    | some n => exact ⟨n, rfl⟩
  have hown : Holds s .worker fd n := hw
  have hheld := (h.holds _ _ _).mp hown
  refine ⟨_, .close hheld.1 hheld.2 nofun, ?_, h.opened, h.given, ?_, fun k fd' m => ?_, h.pending,
    h.alone, nofun, h.sent⟩
  · exact congrArg (Function.update · fd none) h.table
  · show s.closes ++ [⟨some n, s.fds fd⟩] = (c.closed ++ [n]).map _
    rw [List.map_append, h.closes, ← h.table, hheld.1]
    rfl
  · refine Iff.trans ?_ (hsound.holding_close hheld.1 k fd' m).symm
    rw [← h.holds]
    cases k with
    | worker =>
      show Worker.idle = _ ↔ fd' ≠ fd ∧ s.worker = _
      rw [hw]
      refine iff_of_false nofun fun ⟨hne, heq⟩ => hne (Worker.closing.inj heq).1.symm
    | app => exact h.elsewhere .app hown nofun fd' m
    | entry => exact h.elsewhere .entry hown nofun fd' m
    | thread t => exact h.elsewhere (.thread t) hown nofun fd' m

/-- A new file: the app keeps it. -/
theorem Tracks.acquire (h : Tracks s c) (hsound : c.Sound .app) {fd : Nat}
    (hfree : s.fds fd = none) :
    ∃ d, c.Step .app d ∧ Tracks { s with
      fds := Function.update s.fds fd (some s.files)
      app := Function.update s.app fd (some s.files)
      files := s.files + 1 } d := by
  have hfree' : c.table fd = none := by rw [h.table, hfree]
  -- the fd was free, so nobody holds anything on it
  have hother : ∀ k fd' m, Holds s k fd' m → fd' ≠ fd := by
    rintro k fd' m hk rfl
    rw [((h.holds _ _ _).mp hk).1] at hfree'
    cases hfree'
  have hsame : ∀ k, k ≠ .app → ∀ fd' m,
      (Holds s k fd' m ↔ (fd' ≠ fd ∧ Holds s k fd' m) ∨ (fd' = fd ∧ m = c.opened ∧ k = .app)) := by
    intro k hk fd' m
    refine ⟨fun hm => .inl ⟨hother k fd' m hm, hm⟩, ?_⟩
    rintro (⟨-, hm⟩ | ⟨-, -, heq⟩)
    · exact hm
    · exact absurd heq hk
  refine ⟨_, .acquire hfree', ?_, congrArg (· + 1) h.opened, h.given, h.closes, fun k fd' m => ?_,
    ?_, h.alone, h.worker, h.sent⟩
  -- files are numbered in the order in which they are opened
  · show Function.update c.table fd (some c.opened) = _
    rw [h.table, h.opened]
  · refine Iff.trans ?_ (hsound.holding_acquire k fd' m).symm
    rw [← h.holds]
    cases k with
    | app =>
      show Function.update s.app fd (some s.files) fd' = some m ↔ _
      rcases eq_or_ne fd' fd with rfl | hne
      · rw [Function.update_self, ← h.opened]
        simp [eq_comm]
      · simp [hne, Holds]
    | entry => exact hsame .entry nofun fd' m
    | worker => exact hsame .worker nofun fd' m
    | thread t => exact hsame (.thread t) nofun fd' m
  -- an entry without a mark is on the app's own fd, and that is not the new one
  · intro e he
    obtain ⟨m, hfile, hopen⟩ := h.pending e he
    refine ⟨m, hfile, fun hmark => ?_⟩
    have hne := hother .app e.packet.fd m (hopen hmark)
    show Function.update s.app fd _ e.packet.fd = _
    rw [Function.update_of_ne hne, hopen hmark]

/-- The worker drops an entry, and has its socket if it is marked. -/
theorem Tracks.advance (h : Tracks s c) (hsound : c.Sound .app) (hsent : s.worker = .sent)
    (hpos : 0 < s.ring.count) :
    ∃ d, c.Step .app d ∧ Tracks { s with
      ring := s.ring.drop
      worker := if (s.ring.entry 0).appWantsClose then .closing (s.ring.entry 0).packet.fd
        (s.ring.entry 0).file
        else .idle } d := by
  have hlist := s.ring.toList_cons hpos
  have hfirst : s.ring.entry 0 ∈ s.ring.toList := by rw [hlist]; exact List.mem_cons_self
  -- what is left of the ring was there before
  have hrest : ∀ e ∈ s.ring.drop.toList, e ∈ s.ring.toList := fun e he => by
    rw [hlist]; exact List.mem_cons_of_mem _ he
  have hpending : ∀ e ∈ s.ring.drop.toList, ∃ n, e.file = some n ∧
      (e.appWantsClose = false → s.app e.packet.fd = some n) :=
    fun e he => h.pending e (hrest e he)
  have halone : ∀ e ∈ s.ring.drop.toList, e.appWantsClose = true →
      Alone s.ring.drop.toList e.packet.fd := by
    intro e he hmark
    have := h.alone e (hrest e he) hmark
    rw [hlist] at this
    exact (List.pairwise_cons.mp this).2
  -- without a mark the app has the socket still; with one, the worker takes it from the entry
  cases hmark : (s.ring.entry 0).appWantsClose with
  | false =>
    refine ⟨c, .stay, h.table, h.opened, h.given, h.closes, fun k fd m => ?_, hpending, halone,
      nofun, h.sent⟩
    rw [← h.holds]
    cases k with
    | entry =>
      show (∃ e ∈ s.ring.drop.toList, _) ↔ ∃ e ∈ s.ring.toList, _
      rw [hlist]
      simp [hmark]
    | worker =>
      show Worker.idle = _ ↔ s.worker = _
      rw [hsent]
      exact iff_of_false nofun nofun
    | _ => rfl
  | true =>
    obtain ⟨n, hfile, -⟩ := h.pending _ hfirst
    have hown : Holds s .entry (s.ring.entry 0).packet.fd n := ⟨_, hfirst, hmark, rfl, hfile⟩
    have hheld := (h.holds _ _ _).mp hown
    have hothers := h.alone _ hfirst hmark
    rw [hlist] at hothers
    have hne := (List.pairwise_cons.mp hothers).1
    refine ⟨_, .pass hheld.1 hheld.2 nofun (show Keeper.worker ≠ .app from nofun), h.table,
      h.opened, h.given, h.closes, fun k fd m => ?_, hpending, halone, ?_, h.sent⟩
    · refine Iff.trans ?_ (hsound.holding_hand hheld.1 .worker k fd m).symm
      rw [← h.holds]
      cases k with
      | app => exact h.elsewhere_hand .app .worker hown nofun nofun fd m
      | thread t => exact h.elsewhere_hand (.thread t) .worker hown nofun nofun fd m
      | entry =>
        refine Iff.trans ?_ (or_iff_left fun hnew => nomatch hnew.2.2).symm
        show (∃ e ∈ s.ring.drop.toList, _) ↔ _ ∧ ∃ e ∈ s.ring.toList, _
        -- the entries left, and the one that was dropped
        constructor
        · rintro ⟨e, he, hmark', rfl, hrest'⟩
          exact ⟨hne e he rfl, e, hrest e he, hmark', rfl, hrest'⟩
        · rintro ⟨hfd, e, he, hmark', rfl, hrest'⟩
          rw [hlist] at he
          rcases List.mem_cons.mp he with rfl | he
          · exact absurd rfl hfd
          · exact ⟨e, he, hmark', rfl, hrest'⟩
      | worker =>
        show Worker.closing _ _ = Worker.closing fd (some m) ↔ (_ ∧ s.worker = _) ∨ _
        rw [hsent, hfile]
        simp [eq_comm]
    -- the file of an entry is known
    · intro fd hw
      rw [hfile] at hw
      exact nomatch (Worker.closing.inj hw).2

variable [DecidableEq ι] {a : Event ι}

/-- **A tidy step is a step of the custody.** -/
theorem Tracks.step (h : Tracks s c) (hsound : c.Sound .app) (hs : s.Sound) (hg : Tidy s a)
    (hc : Change s a u) :
    ∃ d, c.Step .app d ∧ Tracks u d := by
  cases hc with
  | quiet hq =>
    -- the worker may have picked up a packet: it closes nothing then
    refine ⟨c, .stay, h.congr hq.fds hq.files hq.app hq.shut hq.closes hq.ring
      (fun fd file => ?_) hq.toClose ?_⟩
    · rcases hq.worker with heq | ⟨hidle, hpicked, -⟩
      · rw [heq]
      · rw [hidle, hpicked]
        exact iff_of_false nofun nofun
    · rw [hq.wire]
      exact h.sent
  | @call t call hidle happ hnumber =>
    exact ⟨c, .stay, h.congr rfl rfl rfl rfl rfl rfl (fun _ _ => Iff.rfl)
      (toClose_moveTo (by rw [hidle]; rfl)) h.sent⟩
  | @enqueue t call hp hfree =>
    -- this is where the run is tidy: a packet is queued on an open socket
    have hopen : s.app call.packet.fd ≠ none := hg call (by rw [hp]; rfl) hfree
    have hring :=
      s.ring.toList_push (a := ⟨call.packet, false, t, call.number, s.fds call.packet.fd⟩)
        (by decide) hfree
      (Nat.lt_of_le_of_lt hfree (by decide))
    exact ⟨c, .stay, h.push hring hopen rfl rfl (toClose_moveTo (by rw [hp]; rfl))⟩
  | @pass t call why hp =>
    exact ⟨c, .stay, h.congr rfl rfl rfl rfl rfl rfl (fun _ _ => Iff.rfl)
      (toClose_moveTo (by rw [hp]; rfl))
      (h.sent_append nofun)⟩
  | closeLater happ hidle hscan => exact h.mark hsound happ hg hs.room hscan
  | closeNow happ hidle hscan => exact h.close hsound happ hidle hscan
  | sysClose hp => exact h.sysClose hsound hp
  | opened hfree => exact h.acquire hsound hfree
  | send hpicked =>
    -- the packet goes out on the file that its entry has kept
    have hmem : s.ring.entry 0 ∈ s.ring.toList := by
      rw [s.ring.toList_cons (hs.busy (.inl hpicked))]
      exact List.mem_cons_self
    obtain ⟨n, hfile, hhit⟩ := h.fds_entry hmem
    refine ⟨c, .stay, h.congr rfl rfl rfl rfl rfl rfl (fun fd file => ?_) (fun _ => rfl)
      (h.sent_append fun file hroute => ?_)⟩
    · show Worker.sent = _ ↔ s.worker = _
      rw [hpicked]
      exact iff_of_false nofun nofun
    · obtain rfl := Route.queued.inj hroute
      exact ⟨n, hfile, hhit⟩
  | advance hsent => exact h.advance hsound hsent (hs.busy (.inr hsent))
  | workerClose hw => exact h.workerClose hsound hw

end Step

/-! ## Runs -/

theorem tracks_init (t : ι) : Tracks (State.init t) Custody.empty := by
  have hnil : (State.init t).ring.toList = [] := (Ring.toList_eq_nil _).mpr (count_init t)
  refine ⟨rfl, rfl, rfl, rfl, fun k fd n => iff_of_false ?_ (fun h => nomatch h.1), ?_, ?_,
    nofun, nofun⟩
  · cases k with
    | entry =>
      rintro ⟨e, he, -⟩
      rw [hnil] at he
      cases he
    | _ => exact nofun
  · rw [hnil]
    exact nofun
  · rw [hnil]
    exact nofun

section Runs

variable [DecidableEq ι] {t₀ : ι} {s : State ι}

/-- In a tidy run the sockets are always in custody. -/
theorem tracks_of_reach (hr : link.Reach Tidy (.init t₀) s) : ∃ c, c.Sound .app ∧ Tracks s c := by
  refine (hr.inv (I := fun s => s.Sound ∧ ∃ c, c.Sound .app ∧ Tracks s c)
    ⟨sound_init t₀, _, Custody.empty_sound Keeper.app, tracks_init t₀⟩
      fun u a v ⟨hu, c, hc, htracks⟩ hg hs => ?_).2
  have hchange := step_change hs
  obtain ⟨d, hstep, htracks'⟩ := htracks.step hc hu hg hchange
  exact ⟨State.sound_step hu hchange, d, hstep.sound hc, htracks'⟩

/-- Only the worker moves. -/
def ByWorker (_ : State ι) : Event ι → Prop
  | .pick | .send | .advance | .workerClose => True
  | _ => False

/-- How many steps the worker still has to do. -/
def State.work (s : State ι) : Nat :=
  match s.worker with
  | .idle => 4 * s.ring.count
  | .picked => 4 * s.ring.count - 1
  | .sent => 4 * s.ring.count - 2
  | .closing _ _ => 4 * s.ring.count + 1

omit [DecidableEq ι] in
theorem State.Sound.work_eq_zero (h : s.Sound) (hwork : s.work = 0) :
    s.worker = .idle ∧ s.ring.count = 0 := by
  unfold State.work at hwork
  split at hwork
  · exact ⟨‹_›, by omega⟩
  · have := h.busy (.inl ‹_›)
    omega
  · have := h.busy (.inr ‹_›)
    omega
  · omega

/-- The worker has a next step as long as there is something to do. -/
theorem worker_step (h : s.Sound) (hrun : s.running = true) (hwork : s.work ≠ 0) :
    ∃ a u, ByWorker s a ∧ link.step s a = some u ∧ u.work < s.work ∧ u.running = true ∧
    u.queued = s.queued ∧
      u.shut = s.shut ∧ u.place = s.place := by
  cases hw : s.worker with
  | idle =>
    have hpos : 0 < s.ring.count := by
      simp only [State.work, hw] at hwork
      omega
    refine ⟨.pick, { s with worker := .picked }, trivial, if_pos ⟨hrun, hw, hpos⟩, ?_, hrun, rfl,
      rfl, rfl⟩
    simp only [State.work, hw]
    omega
  | picked =>
    have hpos := h.busy (.inl hw)
    refine ⟨.send, _, trivial, if_pos hw, ?_, hrun, rfl, rfl, rfl⟩
    simp only [State.work, State.transmit, hw]
    omega
  | sent =>
    have hpos := h.busy (.inr hw)
    have hcount := s.ring.count_drop hpos
    refine ⟨.advance, _, trivial, if_pos hw, ?_, hrun, rfl, rfl, rfl⟩
    cases (s.ring.entry 0).appWantsClose <;>
      simp only [State.work, hw, if_true, Bool.false_eq_true, if_false] <;> omega
  | closing fd file =>
    refine ⟨.workerClose, { s.sysClose fd file with worker := .idle }, trivial, ?_, ?_, hrun, rfl,
      rfl, rfl⟩
    · simp only [link, hw]
    · simp only [State.work, State.sysClose, hw]
      omega

/-- The worker alone comes to the end of its work. -/
theorem worker_ends (h : s.Sound) (hrun : s.running = true) :
    ∃ u, link.Reach ByWorker s u ∧ u.work = 0 ∧ u.queued = s.queued ∧ u.shut = s.shut ∧
    u.place = s.place := by
  induction hn : s.work using Nat.strong_induction_on generalizing s with
  | _ n ih =>
    rcases Nat.eq_zero_or_pos s.work with hzero | hpos
    · exact ⟨s, .refl, hzero, rfl, rfl, rfl⟩
    · obtain ⟨a, v, hby, hs, hless, hrun', hqueued, hshut, hplace⟩ := worker_step h hrun (by omega)
      obtain ⟨u, hr, hend, hqueued', hshut', hplace'⟩ :=
        ih v.work (hn ▸ hless) (State.sound_step h (step_change hs)) hrun' rfl
      exact ⟨u, (Reach.refl.step hby hs).trans hr, hend, hqueued'.trans hqueued, hshut'.trans hshut,
        hplace'.trans hplace⟩

omit [DecidableEq ι] in
theorem ByWorker.tidy {a : Event ι} (h : ByWorker s a) : Tidy s a := by
  cases a with
  | close => exact h.elim
  | enqueue => exact h.elim
  | _ => trivial

omit [DecidableEq ι] in
/-- A file that the app has closed is closed, or it is with the one who will do it. -/
theorem Tracks.shut {c : Custody (Keeper ι)} (h : Tracks s c) (hsound : c.Sound .app) {n : Nat}
    (hn : n ∈ s.shut) :
    (⟨some n, some n⟩ : Closed) ∈ s.closes ∨ ∃ k fd, k ≠ .app ∧ Holds s k fd n := by
  rw [← h.given, hsound.mem_given] at hn
  cases hk : c.keeper n with
  | none =>
    left
    rw [h.closes]
    exact List.mem_map.mpr ⟨n, (hsound.mem_closed n).mpr ⟨hn.1, hk⟩, rfl⟩
  | some k =>
    obtain ⟨fd, hfd⟩ := (hsound.kept n).mp (by rw [hk]; nofun)
    exact .inr ⟨k, fd, fun heq => hn.2 (heq ▸ hk), (h.holds k fd n).mpr ⟨hfd, hk⟩⟩

/-- **Delayed packets keep their sockets**: a packet from the queue is sent once, on the open file
    it was queued with; a close closes a file that the app has closed, itself, once, and when none
    of its packets waits; the worker sends what is queued and closes what was left to it. -/
theorem sockets_kept (hr : link.Reach Tidy (.init t₀) s) :
    (∀ x ∈ s.wire, ∀ file, x.route = .queued file → ∃ n, file = some n ∧ x.hit = some n) ∧
    (s.wire.map Sent.item ++ s.waiting.map Entry.item).Nodup ∧
    s.wire.filterMap Sent.fromQueue ++ s.waiting.map Entry.item = s.queued ∧
    (∀ x ∈ s.closes, ∃ n ∈ s.shut, x = ⟨some n, some n⟩) ∧ (s.closes.map Closed.file).Nodup ∧
    (∀ e ∈ s.waiting, ∀ x ∈ s.closes, x.file ≠ e.file) ∧
    (s.running = true → ∃ u, link.Reach ByWorker s u ∧ u.waiting = [] ∧ u.queued = s.queued ∧
      u.shut = s.shut ∧
      ∀ n ∈ u.shut, (⟨some n, some n⟩ : Closed) ∈ u.closes ∨
      ∃ t fd, u.place t = .closing fd n) := by
  obtain ⟨c, hc, htracks⟩ := tracks_of_reach hr
  obtain ⟨hsound, hordered⟩ := ordered_of_reach hr
  refine ⟨htracks.sent, hordered.once, hordered.log, ?_, ?_, ?_, fun hrun => ?_⟩
  -- the custody's closes are the code's, each by its own file
  · rw [htracks.closes, ← htracks.given]
    intro x hx
    obtain ⟨n, hn, rfl⟩ := List.mem_map.mp hx
    obtain ⟨hlt, hnone⟩ := (hc.mem_closed n).mp hn
    exact ⟨n, (hc.mem_given n).mpr ⟨hlt, by rw [hnone]; nofun⟩, rfl⟩
  · rw [htracks.closes, List.map_map]
    exact hc.closed_once.map fun _ _ => Option.some.inj
  -- a packet that waits keeps its file open
  · intro e he x hx heq
    obtain ⟨m, hfile, htable⟩ := htracks.fds_entry (State.mem_waiting he)
    rw [htracks.closes] at hx
    obtain ⟨n, hn, rfl⟩ := List.mem_map.mp hx
    obtain rfl : n = m := Option.some.inj (heq.trans hfile)
    rw [← htracks.table] at htable
    exact (hc.kept n).mpr ⟨_, htable⟩ ((hc.mem_closed n).mp hn).2
  -- after the worker has run on, the ring is empty: what is shut is closed, or with its thread
  · obtain ⟨u, hru, hend, hqueued, hshut, hplace⟩ := worker_ends hsound hrun
    have hru' : link.Reach Tidy (.init t₀) u := hr.trans (hru.mono fun v a _ hby => hby.tidy)
    obtain ⟨d, hd, htracks'⟩ := tracks_of_reach hru'
    obtain ⟨hidle, hcount⟩ := (ordered_of_reach hru').1.work_eq_zero hend
    have hnil : u.ring.toList = [] := u.ring.toList_eq_nil.mpr hcount
    refine ⟨u, hru, ?_, hqueued, hshut, fun n hn => ?_⟩
    · rw [State.waiting_of_ne (by rw [hidle]; exact nofun), hnil]
    · rcases htracks'.shut hd hn with hclosed | ⟨k, fd, hk, hholds⟩
      · exact .inl hclosed
      -- who may still hold a file that was given up
      · cases k with
        | app => exact absurd rfl hk
        | entry =>
          obtain ⟨e, he, -⟩ := hholds
          rw [hnil] at he
          cases he
        | worker =>
          rw [Holds, hidle] at hholds
          cases hholds
        | thread t =>
          refine .inr ⟨t, fd, ?_⟩
          change (u.place t).toClose = _ at hholds
          cases hp : u.place t with
          | closing fd' file =>
            rw [hp] at hholds
            obtain ⟨rfl, rfl⟩ := Prod.mk.inj (Option.some.inj hholds)
            rfl
          | _ => rw [hp] at hholds; cases hholds

/-- The app closes the socket while its packet waits. -/
theorem closed_after_its_packet : ∃ s, link.Reach Tidy (State.init ()) s ∧
    s.closes = [⟨some 0, some 0⟩] ∧ s.shut = [0] ∧
    ∀ x ∈ s.wire, ∀ file, x.route = .queued file → ∃ n, file = some n ∧ x.hit = some n := by
  obtain ⟨s, hr, hs⟩ := Reach.of_run_any (M := link) (G := Tidy) (s := State.init ())
    (p := fun s => s.closes = [⟨some 0, some 0⟩] ∧ s.shut = [0])
    (queueOne ++ [.pick, .close () 3, .send, .advance, .workerClose]) (by decide)
  exact ⟨s, hr, (of_decide_eq_true hs).1, (of_decide_eq_true hs).2, (sockets_kept hr).1⟩

/-- Two packets on one socket: the worker closes it after the first, and sends the
    second on the next file. -/
theorem second_packet_hits_the_next_file :
    ¬ ∀ s, link.Reach Free (State.init ()) s → ∀ x ∈ s.wire, ∀ file,
    x.route = .queued file → x.hit = file := by
  intro hall
  obtain ⟨s, hr, hs⟩ := Reach.of_run_any (M := link) (G := Free) (s := State.init ())
    (p := fun s => s.wire.map (fun x => (x.route, x.hit)) =
      [(.queued (some 0), some 0), (.queued (some 0), some 1)])
    (queueOne ++ [.call () linkPacket true, .loadEnabled (), .loadDelay (), .ensure (), .check (),
      .enqueue (), .close () 3, .pick, .send, .advance, .workerClose, .opened 3, .pick, .send])
        (by decide)
  obtain ⟨x, l, hwire, -, hl⟩ := List.map_eq_cons_iff.mp (of_decide_eq_true hs)
  obtain ⟨y, l', rfl, hy, -⟩ := List.map_eq_cons_iff.mp hl
  have heq := hall s hr y (by rw [hwire]; simp) (some 0) (Prod.mk.inj hy).1
  rw [(Prod.mk.inj hy).2] at heq
  exact absurd heq (by decide)

end Runs

end CdjEmu.Link
