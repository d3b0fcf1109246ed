/-
  THE RETURN OF SOUND BUFFERS — from the guest's queue over the writer and the pending list back to
  the guest.

  A buffer waits in its stream's queue until the writer has put it into the ring, then on the
  pending list until the callback has read it, and then on a local list of the main thread, which
  gives the buffers back one by one.

  A step is one section: a round of `vsnd_writer_drain_stream`, a read of the callback,
  `virtio_snd_bypass_set_active`, the load of the tail in `vsnd_bypass_pending_drain`, the moving of
  entries under the mutex, and each release.  What runs under the BQL does not overlap.
  `vsnd_bypass_active` is left out; it only keeps the threads from beginning a section. Buffers are
  numbered as they are queued.  `dropped` and `epoch` of an entry, the kind of a return and `epoch`
  of the state, which counts the cold starts, are history.

  1. **Program** — the writer's round on one stream, the callback's read, the activation of a
     stream, and the two ways in which the main thread gives buffers back; a cold start resets both
     counters.

  2. **Specification** — `Tx.places`: each buffer that was queued is in exactly one place.
     `Return.InTime`: a buffer that is returned by the drain was dropped, or the callback has read
     up to its end.

  3. **The crux (`Timely`)** — pending entries have their ends in the order in which they were
     written, and none beyond what the writer has published, so the tail that was loaded tells who
     is due.  A cold start makes the ends meaningless, and only the condition keeps it from finding
     any.
-/
import CdjEmu.Qemu.BypassRing

namespace CdjEmu.Bypass

open Machine

/-- `VsndBypassPending`; `dropped` if the stream was inactive, and the cold starts before
    the buffer was written. -/
structure Entry where
  buf : Nat
  stream : Nat
  endHead : Nat
  dropped : Bool
  epoch : Nat
  deriving DecidableEq

/-- A buffer that goes back: taken off by `pending_drain` or by `pending_flush`, and whether all its
    bytes had been read since the last cold start. -/
structure Return where
  buf : Nat
  drained : Bool
  dropped : Bool
  read : Bool
  deriving DecidableEq

/-- Where the main thread is: outside, in `pending_drain` with the tail it loaded, or with a local
    list to release. -/
inductive Bql where
  | idle
  | loaded (t : Nat)
  | releasing
  deriving DecidableEq

structure Tx where
  /-- The queues of the streams, as one list of streams and buffers. -/
  queue : List (Nat × Nat)
  active : Nat → Bool
  head : Nat
  tail : Nat
  pending : List Entry
  main : Bql
  leaving : List Return
  returned : List Return
  srcFmt : Option Format
  /-- Whether the writer thread runs. -/
  started : Bool
  queued : Nat
  epoch : Nat

inductive TxEvent where
  /-- `virtio_snd_handle_tx_xfer` queues a buffer; START and STOP set `active`. -/
  | enqueue (stream : Nat)
  | setStream (stream : Nat) (active : Bool)
  /-- A round of the writer, with the length of the buffer in the ring. -/
  | writer (stream bytes : Nat)
  | read (bytes : Nat)
  | drainLoad
  | drainMove
  | flush
  | release
  | activate (fmt : Format)
  | deactivate

namespace Tx

/-- The state at boot. -/
def init : Tx where
  queue := []
  active := fun _ => false
  head := 0
  tail := 0
  pending := []
  main := .idle
  leaving := []
  returned := []
  srcFmt := none
  started := false
  queued := 0
  epoch := 0

variable (s : Tx)

/-- The return of an entry. -/
def giveBack (drained : Bool) (e : Entry) : Return where
  buf := e.buf
  drained := drained
  dropped := e.dropped
  read := decide (e.epoch = s.epoch ∧ e.endHead ≤ s.tail)

/-- The loop of `pending_drain`: the entries in front that the tail has reached. -/
def takeReached (t : Nat) : List Entry → List Entry × List Entry
  | [] => ([], [])
  | e :: es =>
    if t < e.endHead then ([], e :: es)
    else
      let (out, rest) := takeReached t es
      (e :: out, rest)

/-- A round of the writer on the first buffer of the stream.  That of an inactive stream goes on the
    pending list with an end that every tail has reached (patch 21). -/
def writeRound (stream bytes : Nat) : Option Tx :=
  match s.queue.find? fun q => q.1 = stream with
  | none => none
  | some q =>
    let push (head endHead : Nat) (dropped : Bool) : Tx := { s with
      queue := s.queue.erase q
      head := head
      pending := s.pending ++ [⟨q.2, stream, endHead, dropped, s.epoch⟩] }
    if s.active stream = false then some (push s.head 0 true)
    else if 0 < bytes ∧ bytes ≤ diff bypassBytes (diff s.head s.tail) then
      some (push ((s.head + bytes) % 2 ^ 64) ((s.head + bytes) % 2 ^ 64) false)
    else some s

/-- `vsnd_bypass_pending_flush`, up to the releases. -/
def flush : Tx :=
  { s with pending := [], leaving := s.pending.map (s.giveBack false), main := .releasing }

end Tx

def tx : Machine Tx TxEvent where
  step s
    | .enqueue stream =>
        some { s with queue := s.queue ++ [(stream, s.queued)], queued := s.queued + 1 }
    | .setStream stream active => some { s with active := Function.update s.active stream active }
    | .writer stream bytes => if s.started then s.writeRound stream bytes else none
    | .read bytes =>
        if bytes ≤ diff s.head s.tail then some { s with tail := (s.tail + bytes) % 2 ^ 64 }
          else none
    | .drainLoad => if s.main = .idle then some { s with main := .loaded s.tail } else none
    | .drainMove =>
      match s.main with
      | .loaded t =>
        let (out, rest) := Tx.takeReached t s.pending
        some { s with pending := rest, leaving := out.map (s.giveBack true), main := .releasing }
      | _ => none
    | .flush => if s.main = .idle then some s.flush else none
    | .release =>
      if s.main = .releasing then
        match s.leaving with
        | [] => some { s with main := .idle }
        | r :: leaving => some { s with leaving := leaving, returned := s.returned ++ [r] }
      else none
    | .activate fmt =>
      if s.main = .idle then
        if s.srcFmt = some fmt then some { s with started := true }
        else
          some { s with
            srcFmt := some fmt, tail := 0, head := prefillBytes, started := true,
            epoch := s.epoch + 1 }
      else none
    | .deactivate => if s.main = .idle then some { s.flush with started := false } else none

/-! ## What is to hold -/

/-- The buffers in all places. -/
def Tx.places (s : Tx) : List Nat :=
  s.queue.map Prod.snd ++
    (s.pending.map Entry.buf ++ (s.leaving.map Return.buf ++ s.returned.map Return.buf))

/-- A buffer that `pending_drain` returned was dropped, or has been read. -/
def Return.InTime (r : Return) : Prop := r.drained = true → r.dropped = true ∨ r.read = true

instance (r : Return) : Decidable r.InTime := inferInstanceAs (Decidable (_ → _))

/-- A cold start finds only buffers pending that were dropped, and the head does not run over. -/
def Settled (s : Tx) : TxEvent → Prop
  | .activate fmt => s.srcFmt = some fmt ∨ ∀ e ∈ s.pending, e.dropped = true
  | .writer _ bytes => s.head + bytes < 2 ^ 64
  | _ => True

instance (s : Tx) (a : TxEvent) : Decidable (Settled s a) := by
  cases a <;> (unfold Settled; infer_instance)

namespace Tx

variable {s t : Tx}

/-! ## Each buffer in one place -/

/-- Nothing is lost or doubled: the places hold the buffers that were queued, once each. -/
structure Whole (s : Tx) : Prop where
  once : s.places.Perm (List.range s.queued)
  leaving : s.main ≠ .releasing → s.leaving = []

theorem takeReached_append (t : Nat) (l : List Entry) :
    (takeReached t l).1 ++ (takeReached t l).2 = l := by
  induction l with
  | nil => rfl
  | cons e es ih =>
    unfold takeReached
    split
    · rfl
    · exact congrArg (e :: ·) ih

theorem le_of_mem_takeReached {t : Nat} {l : List Entry} {e : Entry} (h : e ∈ (takeReached t l).1) :
    e.endHead ≤ t := by
  induction l with
  | nil => cases h
  | cons d ds ih =>
    unfold takeReached at h
    split at h
    · cases h
    · rename_i hge
      rcases List.mem_cons.mp h with rfl | hrest
      · omega
      · exact ih hrest

theorem buf_giveBack (drained : Bool) (l : List Entry) :
    (l.map (s.giveBack drained)).map Return.buf = l.map Entry.buf := by
  rw [List.map_map]
  rfl

/-- What a round of the writer does. -/
theorem writeRound_cases {stream bytes : Nat} (h : s.writeRound stream bytes = some t) :
    t = s ∨ ∃ q ∈ s.queue, ∃ head endHead dropped,
      (dropped = true ∧ head = s.head ∨
        dropped = false ∧ 0 < bytes ∧ bytes ≤ diff bypassBytes (diff s.head s.tail) ∧
          head = (s.head + bytes) % 2 ^ 64) ∧
      t = { s with
        queue := s.queue.erase q
        head := head
        pending := s.pending ++ [⟨q.2, stream, endHead, dropped, s.epoch⟩] } := by
  unfold writeRound at h
  split at h
  · cases h
  · rename_i q hq
    have hmem := List.mem_of_find?_eq_some hq
    dsimp only at h
    split at h
    · obtain rfl := Option.some.inj h
      exact .inr ⟨q, hmem, s.head, 0, true, .inl ⟨rfl, rfl⟩, rfl⟩
    · split at h
      · rename_i hroom
        obtain rfl := Option.some.inj h
        exact .inr ⟨q, hmem, _, _, false, .inr ⟨rfl, hroom.1, hroom.2, rfl⟩, rfl⟩
      · exact .inl (Option.some.inj h).symm

theorem whole_init : init.Whole := ⟨List.Perm.refl _, fun _ => rfl⟩

theorem Whole.flush (h : s.Whole) (hidle : s.main = .idle) : s.flush.Whole := by
  have hleaving := h.leaving (by rw [hidle]; nofun)
  refine ⟨?_, fun hne => absurd rfl hne⟩
  have hplaces := h.once
  unfold Tx.places at hplaces ⊢
  rw [hleaving, List.map_nil, List.nil_append] at hplaces
  show (s.queue.map Prod.snd ++
      ([] ++ ((s.pending.map (s.giveBack false)).map Return.buf ++ s.returned.map Return.buf))).Perm
        _
  rwa [buf_giveBack, List.nil_append]

/-- **The step**: a buffer goes from one place to the next. -/
theorem Whole.step (h : s.Whole) {a : TxEvent} (hs : tx.step s a = some t) : t.Whole := by
  have hplaces := h.once
  unfold Tx.places at hplaces
  cases a with
  | enqueue stream =>
    obtain rfl := Option.some.inj hs
    -- the new buffer has the next number
    refine ⟨?_, h.leaving⟩
    show ((s.queue ++ [(stream, s.queued)]).map Prod.snd ++ _).Perm (List.range (s.queued + 1))
    rw [List.range_succ, List.map_append, List.append_assoc]
    exact ((List.perm_append_comm).append_left _).trans (by
      rw [← List.append_assoc]
      exact hplaces.append_right _)
  | setStream stream active =>
    obtain rfl := Option.some.inj hs
    exact ⟨h.once, h.leaving⟩
  | writer stream bytes =>
    obtain ⟨-, hround⟩ := Option.ite_none_right_eq_some.mp hs
    rcases writeRound_cases hround with rfl | ⟨q, hq, head, endHead, dropped, -, rfl⟩
    · exact h
    -- a buffer from the queue is pending now
    · refine ⟨?_, h.leaving⟩
      have hqueue := (List.perm_cons_erase hq).map Prod.snd
      refine List.Perm.trans ?_ hplaces
      show ((s.queue.erase q).map Prod.snd ++ ((s.pending ++ [_]).map Entry.buf ++ _)).Perm _
      -- the order differs: the counts of each buffer are what is compared
      rw [List.map_append, List.perm_iff_count]
      intro b
      have hcount := hqueue.count_eq b
      simp only [List.map_cons, List.map_nil, List.count_append, List.count_cons,
        List.count_nil] at hcount ⊢
      omega
  | read bytes =>
    obtain ⟨-, ht⟩ := Option.ite_none_right_eq_some.mp hs
    obtain rfl := Option.some.inj ht
    exact ⟨h.once, h.leaving⟩
  | drainLoad =>
    obtain ⟨hidle, ht⟩ := Option.ite_none_right_eq_some.mp hs
    obtain rfl := Option.some.inj ht
    exact ⟨h.once, fun _ => h.leaving (by rw [hidle]; nofun)⟩
  | drainMove =>
    simp only [tx] at hs
    split at hs
    · rename_i t hloaded
      obtain rfl := Option.some.inj hs
      have hleaving := h.leaving (by rw [hloaded]; nofun)
      -- nothing is on its way back yet, so what is taken off goes there
      rw [hleaving, List.map_nil, List.nil_append, ← takeReached_append t s.pending] at hplaces
      refine ⟨List.Perm.trans ?_ hplaces, fun hne => absurd rfl hne⟩
      show (_ ++ ((takeReached t s.pending).2.map Entry.buf ++
        (((takeReached t s.pending).1.map (s.giveBack true)).map Return.buf ++ _))).Perm _
      rw [buf_giveBack, List.map_append, List.perm_iff_count]
      intro b
      simp only [List.count_append]
      omega
    · cases hs
  | flush =>
    obtain ⟨hidle, ht⟩ := Option.ite_none_right_eq_some.mp hs
    obtain rfl := Option.some.inj ht
    exact h.flush hidle
  | release =>
    obtain ⟨hmain, hs⟩ := Option.ite_none_right_eq_some.mp hs
    cases hl : s.leaving with
    | nil =>
      simp only [hl] at hs
      obtain rfl := Option.some.inj hs
      rw [hl] at hplaces
      exact ⟨hplaces, fun _ => rfl⟩
    | cons r leaving =>
      simp only [hl] at hs
      obtain rfl := Option.some.inj hs
      -- the first one on its way is given back
      refine ⟨List.Perm.trans ?_ hplaces, fun hne => absurd hmain hne⟩
      show (_ ++ (_ ++ (leaving.map Return.buf ++ (s.returned ++ [r]).map Return.buf))).Perm _
      rw [List.map_append, List.perm_iff_count]
      intro b
      rw [hl]
      simp only [List.map_cons, List.map_nil, List.count_append, List.count_cons, List.count_nil]
      omega
  | activate fmt =>
    obtain ⟨hidle, hs⟩ := Option.ite_none_right_eq_some.mp hs
    split at hs <;> (obtain rfl := Option.some.inj hs; exact ⟨h.once, h.leaving⟩)
  | deactivate =>
    obtain ⟨hidle, ht⟩ := Option.ite_none_right_eq_some.mp hs
    obtain rfl := Option.some.inj ht
    have hflush := h.flush hidle
    exact ⟨hflush.once, hflush.leaving⟩

/-! ## Not early -/

/-- Under the condition, the counters do not run over and what is pending was written
    since the last cold start. -/
structure Timely (s : Tx) : Prop where
  le : s.tail ≤ s.head
  lt : s.head < 2 ^ 64
  pending : ∀ e ∈ s.pending, e.dropped = true ∨ e.epoch = s.epoch
  loaded : ∀ t, s.main = .loaded t → t ≤ s.tail
  leaving : ∀ r ∈ s.leaving, r.InTime
  returned : ∀ r ∈ s.returned, r.InTime

theorem timely_init : init.Timely := ⟨Nat.le_refl 0, by decide, nofun, nofun, nofun, nofun⟩

theorem Timely.flush (h : s.Timely) : s.flush.Timely := by
  refine ⟨h.le, h.lt, nofun, nofun, fun r hr hdrained => ?_, h.returned⟩
  obtain ⟨e, -, rfl⟩ := List.mem_map.mp hr
  cases hdrained

/-- **The step.** -/
theorem Timely.step (h : s.Timely) {a : TxEvent} (hguard : Settled s a)
    (hs : tx.step s a = some t) : t.Timely := by
  have hle := h.le
  have hlt := h.lt
  cases a with
  -- neither counter moves
  | enqueue stream | setStream stream active =>
    obtain rfl := Option.some.inj hs
    exact ⟨h.le, h.lt, h.pending, h.loaded, h.leaving, h.returned⟩
  | writer stream bytes =>
    obtain ⟨-, hround⟩ := Option.ite_none_right_eq_some.mp hs
    have hsum : s.head + bytes < 2 ^ 64 := hguard
    rcases writeRound_cases hround with rfl | ⟨q, hq, head, endHead, dropped, hor, rfl⟩
    · exact h
    -- the head moves by what was written, and 64 bits hold it
    · have hhead : s.head ≤ head ∧ head < 2 ^ 64 := by omega
      refine ⟨hle.trans hhead.1, hhead.2, fun e he => ?_, h.loaded, h.leaving, h.returned⟩
      rcases List.mem_append.mp he with hold | hnew
      · exact h.pending e hold
      · obtain rfl := List.mem_singleton.mp hnew
        exact .inr rfl
  | read bytes =>
    obtain ⟨hroom, ht⟩ := Option.ite_none_right_eq_some.mp hs
    obtain rfl := Option.some.inj ht
    unfold diff at hroom
    -- the reader's tail stays behind the head
    have htail : s.tail ≤ (s.tail + bytes) % 2 ^ 64 ∧ (s.tail + bytes) % 2 ^ 64 ≤ s.head := by omega
    exact ⟨htail.2, h.lt, h.pending, fun t hmain => (h.loaded t hmain).trans htail.1, h.leaving,
      h.returned⟩
  | drainLoad =>
    obtain ⟨-, ht⟩ := Option.ite_none_right_eq_some.mp hs
    obtain rfl := Option.some.inj ht
    exact ⟨h.le, h.lt, h.pending, fun t hmain => (Bql.loaded.inj hmain).ge, h.leaving, h.returned⟩
  | drainMove =>
    simp only [tx] at hs
    split at hs
    · rename_i t hloaded
      obtain rfl := Option.some.inj hs
      have hsplit := takeReached_append t s.pending
      -- what has been played is at the front, the rest stays pending
      have hin : ∀ e, e ∈ (takeReached t s.pending).1 ∨ e ∈ (takeReached t s.pending).2 →
          e ∈ s.pending := by
        intro e he
        rw [← hsplit]
        exact List.mem_append.mpr he
      refine ⟨h.le, h.lt, fun e he => h.pending e (hin e (.inr he)), nofun, fun r hr _ => ?_,
        h.returned⟩
      obtain ⟨e, he, rfl⟩ := List.mem_map.mp hr
      refine (h.pending e (hin e (.inl he))).imp_right fun hepoch => ?_
      -- its end has been read, in the epoch that it was written in
      exact decide_eq_true ⟨hepoch, (le_of_mem_takeReached he).trans (h.loaded t hloaded)⟩
    · cases hs
  | flush =>
    obtain ⟨-, ht⟩ := Option.ite_none_right_eq_some.mp hs
    obtain rfl := Option.some.inj ht
    exact h.flush
  | release =>
    obtain ⟨hmain, hs⟩ := Option.ite_none_right_eq_some.mp hs
    cases hl : s.leaving with
    | nil =>
      simp only [hl] at hs
      obtain rfl := Option.some.inj hs
      exact ⟨h.le, h.lt, h.pending, nofun, nofun, h.returned⟩
    | cons r leaving =>
      simp only [hl] at hs
      obtain rfl := Option.some.inj hs
      have hleaving := h.leaving
      rw [hl] at hleaving
      -- the first of those on their way is given back with what was found out about it
      refine ⟨h.le, h.lt, h.pending, h.loaded, fun r hr => hleaving r (List.mem_cons_of_mem _ hr),
        fun q hq => ?_⟩
      rcases List.mem_append.mp hq with hold | hnew
      · exact h.returned q hold
      · exact List.mem_singleton.mp hnew ▸ hleaving r List.mem_cons_self
  | activate fmt =>
    obtain ⟨hidle, hs⟩ := Option.ite_none_right_eq_some.mp hs
    split at hs
    · obtain rfl := Option.some.inj hs
      exact ⟨h.le, h.lt, h.pending, h.loaded, h.leaving, h.returned⟩
    · rename_i hother
      obtain rfl := Option.some.inj hs
      -- a cold start counts anew, and by the condition it finds dropped buffers only
      have hdropped : ∀ e ∈ s.pending, e.dropped = true := hguard.resolve_left hother
      have hprefill : prefillBytes < 2 ^ 64 := by decide
      refine ⟨Nat.zero_le _, hprefill, fun e he => .inl (hdropped e he), fun t hmain => ?_,
        h.leaving, h.returned⟩
      cases hidle.symm.trans hmain
  | deactivate =>
    obtain ⟨-, ht⟩ := Option.ite_none_right_eq_some.mp hs
    obtain rfl := Option.some.inj ht
    have hflush := h.flush
    exact ⟨hflush.le, hflush.lt, hflush.pending, hflush.loaded, hflush.leaving, hflush.returned⟩

/-! ## Runs -/

/-- **Each buffer is returned once and not early**: in every run each is in exactly one place, and
    while no cold start finds a written buffer pending, what `pending_drain` returns was dropped or
    has been read. -/
theorem returned_once_and_in_time (hr : tx.Reach Free .init s) :
    s.places.Perm (List.range s.queued) ∧ s.places.Nodup ∧
    (tx.Reach Settled .init s → ∀ r ∈ s.returned, r.InTime) := by
  have hwhole : s.Whole := hr.inv whole_init fun _ _ _ h _ hs => h.step hs
  refine ⟨hwhole.once, hwhole.once.nodup_iff.mpr List.nodup_range, fun hsettled => ?_⟩
  exact (hsettled.inv timely_init fun _ _ _ h hg hs => h.step hg hs).returned

/-- One buffer is read and returned, and one is dropped with its stream. -/
theorem two_buffers_returned : ∃ s :
    Tx, s.returned = [⟨0, true, false, true⟩, ⟨1, true, true, true⟩] ∧
    s.places.Perm (List.range 2) ∧ ∀ r ∈ s.returned, r.InTime := by
  obtain ⟨s, hr, hs⟩ := Reach.of_run_any (M := tx) (G := Settled) (s := .init)
    (p := fun s => s.returned = [⟨0, true, false, true⟩, ⟨1, true, true, true⟩] ∧ s.queued = 2)
    [.setStream 0 true, .activate .s32, .enqueue 0, .enqueue 0, .writer 0 8192, .read 16384,
      .setStream 0 false, .writer 0 0, .drainLoad, .drainMove, .release, .read 8192, .drainLoad,
      .drainMove, .release, .release, .release] (by decide)
  obtain ⟨hreturned, hqueued⟩ := of_decide_eq_true hs
  obtain ⟨hplaces, -, htimely⟩ := returned_once_and_in_time (hr.mono fun _ _ _ _ => trivial)
  exact ⟨s, hreturned, hqueued ▸ hplaces, htimely hr⟩

/-- A cold start throws away what a pending buffer has in the ring, and the buffer goes back as if
    it had been played. -/
theorem cold_start_forgets_a_buffer : ¬ ∀ s, tx.Reach Free .init s →
    ∀ r ∈ s.returned, r.InTime := by
  intro hall
  obtain ⟨s, hr, hs⟩ := Reach.of_run_any (M := tx) (G := Free) (s := .init)
    (p := fun s => s.returned = [⟨0, true, false, false⟩])
    [.setStream 0 true, .activate .s32, .enqueue 0, .writer 0 8192, .activate .f32, .enqueue 0,
      .writer 0 16384, .read 32768, .drainLoad, .drainMove, .release] (by decide)
  have htimely :=
    hall s hr ⟨0, true, false, false⟩
      (by rw [of_decide_eq_true hs]; exact List.mem_singleton_self _)
  rcases htimely rfl with hdropped | hread
  · cases hdropped
  · cases hread

end Tx

end CdjEmu.Bypass
