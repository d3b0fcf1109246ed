/-
  THE ORDER OF THE DELAYED PACKETS — a queue, and a way past it.

  `Flow` is what the hooks and the worker are to the packets: a call hands its packet to the queue
  or to the wire, and the worker hands the oldest one in the queue to the wire.  Each step of the
  shim is one of these, or moves no packet.

  A packet that goes through the queue is behind all that its thread sent before it.  One that is
  sent at once passes those that still wait, and the hooks do send at once while packets wait: the
  switch may be turned off in between.

  1. **Program** — the machine of `Guest/LinkQueue`, seen through `flow`: what was sent, what waits,
     and how many sends of each thread have returned.

  2. **Specification** — a packet that leaves before an earlier one of its own thread was passed by
     a hook, for one of the reasons that the hooks have (`Reason`), and while the earlier one
     waited; the queue keeps its order, and a waiting entry keeps its mark.

  3. **The crux (`Ordered`)** — a packet in the queue is behind all earlier packets of its thread
     that wait, and behind all that were sent; the ring's array is the list it stands for (`Sound`).
-/
import CdjEmu.Guest.LinkQueue

namespace CdjEmu.Link

open Machine

variable {ι : Type} [DecidableEq ι]

/-! ## The packets -/

/-- The packet, if it came from the queue. -/
def Sent.fromQueue (x : Sent ι) : Option (ι × Nat) :=
  match x.route with
  | .queued _ => some x.item
  | .passed _ => none

/-- The packets that were sent and that wait, and how many sends of each thread are over. -/
structure Flow (ι : Type) where
  wire : List (Sent ι)
  waiting : List (ι × Nat)
  queued : List (ι × Nat)
  returned : ι → Nat

namespace Flow

/-- What may happen to the packets. -/
inductive Step (f : Flow ι) : Flow ι → Prop
  | stay : Step f f
  | wait {t : ι} : Step f { f with
      waiting := f.waiting ++ [(t, f.returned t)]
      queued := f.queued ++ [(t, f.returned t)]
      returned := Function.update f.returned t (f.returned t + 1) }
  | pass {x : Sent ι} {why : Why} : x.number = f.returned x.thread → x.route = .passed why →
      x.behind = f.waiting →
      Step f { f with
        wire := f.wire ++ [x]
        returned := Function.update f.returned x.thread (f.returned x.thread + 1) }
  | send {x : Sent ι} {file : Option Nat} {rest : List (ι × Nat)} :
      f.waiting = x.item :: rest → x.route = .queued file →
      Step f { f with wire := f.wire ++ [x], waiting := rest }

/-- Nothing has changed. -/
theorem Step.of_eq {f g : Flow ι} (h : g = f) : f.Step g := h ▸ .stay

theorem Step.congr {f g g' : Flow ι} (h : f.Step g) (hg : g' = g) : f.Step g' := hg ▸ h

/-- The packets whose calls are over. -/
def settled (f : Flow ι) : List (ι × Nat) := f.wire.map Sent.item ++ f.waiting

structure Ordered (f : Flow ι) : Prop where
  /-- A packet is on the wire or waits from the end of its call on. -/
  mem_settled : ∀ t n, (t, n) ∈ f.settled ↔ n < f.returned t
  once : f.settled.Nodup
  ascending : f.waiting.Pairwise fun i j => i.1 = j.1 → i.2 < j.2
  /-- The queue has passed on what it was given, and in that order. -/
  log : f.wire.filterMap Sent.fromQueue ++ f.waiting = f.queued
  /-- A packet that is out before an earlier one of its thread has passed it. -/
  overtakes : ∀ pre x post, f.wire = pre ++ x :: post →
    ∀ i < x.number, (x.thread, i) ∉ pre.map Sent.item →
    (∃ why, x.route = .passed why) ∧ (x.thread, i) ∈ x.behind

variable {f g : Flow ι}

omit [DecidableEq ι] in
theorem Ordered.mem_waiting (h : f.Ordered) {p : ι × Nat} (hp : p ∈ f.waiting) :
    p.2 < f.returned p.1 :=
  (h.mem_settled p.1 p.2).mp (List.mem_append_right _ hp)

omit [DecidableEq ι] in
theorem ordered_empty : (⟨[], [], [], fun _ => 0⟩ : Flow ι).Ordered := by
  refine ⟨by simp [settled], List.nodup_nil, List.Pairwise.nil, rfl, fun pre x post hsplit => ?_⟩
  exact absurd hsplit.symm (List.append_ne_nil_of_right_ne_nil pre (List.cons_ne_nil x post))

omit [DecidableEq ι] in
/-- A packet that has just been sent: the ones before it keep their places. -/
theorem overtakes_append {wire : List (Sent ι)} {y : Sent ι} {P : List (Sent ι) → Sent ι → Prop}
    (h : ∀ pre x post, wire = pre ++ x :: post → P pre x) (hy : P wire y) :
    ∀ pre x post, wire ++ [y] = pre ++ x :: post → P pre x := by
  intro pre x post hsplit
  rcases List.eq_nil_or_concat post with rfl | ⟨post, z, rfl⟩
  · obtain ⟨rfl, hlast⟩ := List.append_inj' hsplit rfl
    obtain rfl := List.singleton_inj.mp hlast
    exact hy
  · have hsplit' : wire ++ [y] = (pre ++ x :: post) ++ [z] := by simpa using hsplit
    obtain ⟨hwire, -⟩ := List.append_inj' hsplit' rfl
    exact h pre x post hwire

/-- The next number of a thread is settled next. -/
theorem mem_settled_succ (h : ∀ t n, (t, n) ∈ f.settled ↔ n < f.returned t)
    {l : List (ι × Nat)} {u : ι} (hl : ∀ p, p ∈ l ↔ p ∈ f.settled ∨ p = (u, f.returned u)) (t : ι)
    (n : Nat) :
    (t, n) ∈ l ↔ n < Function.update f.returned u (f.returned u + 1) t := by
  rw [hl, h]
  rcases eq_or_ne t u with rfl | ht
  · have heq : (t, n) = (t, f.returned t) ↔ n = f.returned t := by simp
    rw [Function.update_self, heq]
    omega
  · rw [Function.update_of_ne ht, Prod.mk.injEq]
    simp [ht]

omit [DecidableEq ι] in
theorem Ordered.next_notMem (h : f.Ordered) (t : ι) : (t, f.returned t) ∉ f.settled := by
  rw [h.mem_settled]
  omega

/-- **The step.** -/
theorem Step.ordered (hs : f.Step g) (h : f.Ordered) : g.Ordered := by
  cases hs with
  | stay => exact h
  | @wait t =>
    refine ⟨?_, ?_, ?_, ?_, h.overtakes⟩
    · intro u n
      refine mem_settled_succ h.mem_settled (fun p => ?_) u n
      show p ∈ f.wire.map Sent.item ++ (f.waiting ++ [(t, f.returned t)]) ↔ _
      rw [← List.append_assoc, List.mem_append, List.mem_singleton]
      rfl
    · show (f.wire.map Sent.item ++ (f.waiting ++ [(t, f.returned t)])).Nodup
      rw [← List.append_assoc, ← List.concat_eq_append]
      exact h.once.concat (h.next_notMem t)
    · refine List.pairwise_append.mpr ⟨h.ascending, List.pairwise_singleton _ _, ?_⟩
      intro p hp q hq heq
      obtain rfl := List.mem_singleton.mp hq
      have := h.mem_waiting hp
      rwa [heq] at this
    · show f.wire.filterMap Sent.fromQueue ++ (f.waiting ++ [(t, f.returned t)]) = f.queued ++
          [(t, f.returned t)]
      rw [← List.append_assoc, h.log]
  | @pass x why hnumber hroute hbehind =>
    have hitem : x.item = (x.thread, f.returned x.thread) := by rw [Sent.item, hnumber]
    have hmap : (f.wire ++ [x]).map Sent.item = f.wire.map Sent.item ++
        [(x.thread, f.returned x.thread)] := by
      rw [List.map_append, List.map_singleton, hitem]
    refine ⟨?_, ?_, h.ascending, ?_, ?_⟩
    · intro u n
      refine mem_settled_succ h.mem_settled (fun p => ?_) u n
      show p ∈ (f.wire ++ [x]).map Sent.item ++ f.waiting ↔
          p ∈ f.wire.map Sent.item ++ f.waiting ∨ _
      rw [hmap]
      simp only [List.mem_append, List.mem_singleton]
      tauto
    · show ((f.wire ++ [x]).map Sent.item ++ f.waiting).Nodup
      rw [hmap, List.append_assoc]
      refine (List.perm_middle.nodup_iff).mpr (List.nodup_cons.mpr ⟨h.next_notMem x.thread, h.once⟩)
    · show (f.wire ++ [x]).filterMap Sent.fromQueue ++ f.waiting = f.queued
      have hnone : Sent.fromQueue x = none := by rw [Sent.fromQueue, hroute]
      rw [List.filterMap_append, List.filterMap_cons_none hnone, List.filterMap_nil,
        List.append_nil, h.log]
    · refine overtakes_append h.overtakes ?_
      intro i hi hout
      have hin : (x.thread, i) ∈ f.settled := by
        rw [h.mem_settled]
        omega
      rw [hbehind]
      exact ⟨⟨why, hroute⟩, (List.mem_append.mp hin).resolve_left hout⟩
  | @send x file rest hwaiting hroute =>
    have hsettled : (f.wire ++ [x]).map Sent.item ++ rest = f.settled := by
      rw [settled, hwaiting, List.map_append, List.map_singleton, List.append_assoc,
        List.singleton_append]
    have hascending := h.ascending
    rw [hwaiting, List.pairwise_cons] at hascending
    refine ⟨?_, ?_, hascending.2, ?_, ?_⟩
    · intro t n
      show (t, n) ∈ (f.wire ++ [x]).map Sent.item ++ rest ↔ n < f.returned t
      rw [hsettled, h.mem_settled]
    · show ((f.wire ++ [x]).map Sent.item ++ rest).Nodup
      rw [hsettled]
      exact h.once
    · show (f.wire ++ [x]).filterMap Sent.fromQueue ++ rest = f.queued
      have hsome : Sent.fromQueue x = some x.item := by rw [Sent.fromQueue, hroute]
      rw [List.filterMap_append, List.filterMap_cons_some hsome, List.filterMap_nil,
        List.append_assoc, List.singleton_append, ← hwaiting, h.log]
    · refine overtakes_append h.overtakes ?_
      -- the ones that wait behind the packet are later ones
      intro i hi hout
      have hbound : x.number < f.returned x.thread :=
        h.mem_waiting (p := x.item) (by rw [hwaiting]; simp)
      have hin : (x.thread, i) ∈ f.settled := by
        rw [h.mem_settled]
        omega
      have hwait : (x.thread, i) ∈ x.item :: rest := by
        rw [← hwaiting]
        exact (List.mem_append.mp hin).resolve_left hout
      rcases List.mem_cons.mp hwait with heq | hrest
      · have hsame : i = x.number := congrArg Prod.snd heq
        omega
      · have hlater : x.number < i := hascending.1 (x.thread, i) hrest rfl
        omega

end Flow

/-! ## The shim -/

namespace State

/-- How many sends of a thread are over. -/
def returned (s : State ι) (t : ι) : Nat := (s.place t).call.elim (s.calls t) Call.number

def flow (s : State ι) : Flow ι := ⟨s.wire, s.waiting.map Entry.item, s.queued, s.returned⟩

/-- The queue is no longer than its array, the worker is at an entry of it, and a
    thread is in its last call. -/
structure Sound (s : State ι) : Prop where
  room : s.ring.count ≤ queueSize
  busy : s.worker = .picked ∨ s.worker = .sent → 0 < s.ring.count
  last : ∀ t c, (s.place t).call = some c → s.calls t = c.number + 1

variable {s u : State ι} {a : Event ι}

omit [DecidableEq ι] in
theorem waiting_of_ne (h : s.worker ≠ .sent) : s.waiting = s.ring.toList := by
  unfold waiting
  split
  · contradiction
  · rfl

omit [DecidableEq ι] in
theorem waiting_of_sent (h : s.worker = .sent) :
    s.waiting = s.ring.drop.toList ∨ s.ring.count = 0 := by
  rcases Nat.eq_zero_or_pos s.ring.count with hzero | hpos
  · exact .inr hzero
  · left
    rw [waiting, h]
    show s.ring.toList.tail = _
    rw [s.ring.toList_cons hpos, List.tail_cons]

omit [DecidableEq ι] in
theorem mem_waiting {e : Entry ι} (h : e ∈ s.waiting) : e ∈ s.ring.toList := by
  unfold waiting at h
  split at h
  · exact List.mem_of_mem_tail h
  · exact h

omit [DecidableEq ι] in
/-- What waits is decided by the queue and whether the worker has sent the oldest packet. -/
theorem waiting_congr (hring : u.ring = s.ring) (hworker : u.worker = .sent ↔ s.worker = .sent) :
    u.waiting = s.waiting := by
  by_cases h : s.worker = .sent
  · rw [waiting, waiting, h, hworker.mpr h, hring]
  · rw [waiting_of_ne h, waiting_of_ne (mt hworker.mp h), hring]

omit [DecidableEq ι] in
/-- The entry that the hook of `close` finds is the oldest one on the descriptor. -/
theorem scan_eq_some {fd i : Nat} (h : s.scan fd = some i) :
    i < s.ring.count ∧ (s.ring.entry i).packet.fd = fd := by
  have hmem := List.mem_range.mp (List.mem_of_find?_eq_some h)
  have hfd := List.find?_some h
  exact ⟨hmem, of_decide_eq_true hfd⟩

omit [DecidableEq ι] in
/-- The mark is not part of the packets. -/
theorem map_modify_mark (l : List (Entry ι)) (i : Nat) :
    (l.modify i Entry.mark).map Entry.item = l.map Entry.item := by
  refine List.ext_getElem? fun j => ?_
  rw [List.getElem?_map, List.getElem?_map, List.getElem?_modify]
  rcases eq_or_ne i j with rfl | hij
  · cases l[i]? with
    | none => rfl
    | some e => simp [Entry.item, Entry.mark]
  · simp [hij]

omit [DecidableEq ι] in
theorem item_waiting_modify {i : Nat} (hi : i < s.ring.count) (hroom : s.ring.count ≤ queueSize)
    (hring : u.ring = s.ring.modify i Entry.mark) (hworker : u.worker = s.worker) :
    u.waiting.map Entry.item = s.waiting.map Entry.item := by
  have hlist := s.ring.toList_modify (by decide) hi hroom Entry.mark
  by_cases h : s.worker = .sent
  · rw [waiting, waiting, hworker, h, hring]
    show List.map _ (s.ring.modify i Entry.mark).toList.tail = List.map _ s.ring.toList.tail
    rw [hlist, List.map_tail, map_modify_mark, ← List.map_tail]
  · rw [waiting_of_ne h, waiting_of_ne (hworker ▸ h), hring, hlist, map_modify_mark]

/-- A thread has come to the end of its call. -/
theorem returned_idle (h : s.Sound) {t : ι} {c : Call} (hc : (s.place t).call = some c)
    (hcalls : u.calls = s.calls) (hplace : u.place = Function.update s.place t .idle) :
    s.returned t = c.number ∧ u.returned = Function.update s.returned t (s.returned t + 1) := by
  have hnow : s.returned t = c.number := by rw [returned, hc]; rfl
  refine ⟨hnow, funext fun v => ?_⟩
  rw [returned, hplace, hcalls]
  rcases eq_or_ne v t with rfl | hv
  · rw [Function.update_self, Function.update_self, hnow]
    exact h.last v c hc
  · rw [Function.update_of_ne hv, Function.update_of_ne hv]
    rfl

/-- The other threads are in their calls as before. -/
theorem last_idle (h : s.Sound) {t v : ι} {d : Call}
    (hd : (Function.update s.place t .idle v).call = some d) :
    s.calls v = d.number + 1 := by
  rcases eq_or_ne v t with rfl | hv
  · rw [Function.update_self] at hd
    cases hd
  · rw [Function.update_of_ne hv] at hd
    exact h.last v d hd

omit [DecidableEq ι] in
theorem returned_congr (hcalls : u.calls = s.calls)
    (hcall : ∀ t, (u.place t).call = (s.place t).call) :
    u.returned = s.returned := funext fun t => by rw [returned, returned, hcalls, hcall]

theorem call_update {t : ι} {p : Place} (h : p.call = (s.place t).call) (v : ι) :
    (Function.update s.place t p v).call = (s.place v).call := by
  rcases eq_or_ne v t with rfl | hv
  · rw [Function.update_self, h]
  · rw [Function.update_of_ne hv]

omit [DecidableEq ι] in
theorem flow_eq {f : Flow ι} (hwire : u.wire = f.wire)
    (hwaiting : u.waiting.map Entry.item = f.waiting) (hqueued : u.queued = f.queued)
    (hreturned : u.returned = f.returned) : u.flow = f := by
  rw [flow, hwire, hwaiting, hqueued, hreturned]

omit [DecidableEq ι] in
/-- The new entry waits behind the others. -/
theorem waiting_push (h : s.Sound) (hfree : s.ring.count < queueSize) {e : Entry ι}
    (hring : u.ring = s.ring.push e) (hworker : u.worker = s.worker) :
    u.waiting = s.waiting ++ [e] := by
  have hlist : (s.ring.push e).toList = s.ring.toList ++ [e] :=
    s.ring.toList_push (by decide) hfree (Nat.lt_of_le_of_lt hfree (by decide))
  by_cases hsent : s.worker = .sent
  · have hne : s.ring.toList ≠ [] := by
      have := h.busy (.inr hsent)
      rw [Ne, s.ring.toList_eq_nil]
      omega
    rw [waiting, waiting, hworker, hsent, hring]
    show (s.ring.push e).toList.tail = s.ring.toList.tail ++ [e]
    rw [hlist, List.tail_append_of_ne_nil hne]
  · rw [waiting_of_ne hsent, waiting_of_ne (hworker ▸ hsent), hring, hlist]

/-- **The shim does to the packets what `Flow` says.** -/
theorem flow_step (h : s.Sound) (hc : Change s a u) : s.flow.Step u.flow := by
  cases hc with
  | quiet hq =>
    -- the worker's quiet step may be the picking up, not the sending
    have hworker : u.worker = .sent ↔ s.worker = .sent := by
      rcases hq.worker with heq | ⟨hidle, hpicked, -⟩
      · rw [heq]
      · simp [hidle, hpicked]
    exact .of_eq (flow_eq hq.wire (by rw [waiting_congr hq.ring hworker]; rfl) hq.queued
      (returned_congr hq.calls hq.call))
  | @call t c hidle happ hnumber =>
    refine .of_eq (flow_eq rfl rfl rfl (funext fun v => ?_))
    show (Function.update s.place t (.entered c) v).call.elim
        (Function.update s.calls t _ v) Call.number =
      (s.place v).call.elim (s.calls v) Call.number
    -- the thread that calls, or another one
    rcases eq_or_ne v t with rfl | hv
    · rw [Function.update_self, hidle]
      exact hnumber
    · rw [Function.update_of_ne hv, Function.update_of_ne hv]
  | @enqueue t c hp hfree =>
    obtain ⟨hnow, hreturned⟩ := returned_idle h (t := t) (c := c) (u := { s.moveTo t .idle with
      ring := s.ring.push ⟨c.packet, false, t, c.number, s.fds c.packet.fd⟩
      queued := s.queued ++ [(t, c.number)] }) (by rw [hp]; rfl) rfl rfl
    refine Flow.Step.congr (.wait (t := t)) (flow_eq rfl ?_ ?_ hreturned)
    -- the packet waits behind the others, under the number that its call now has
    · refine Eq.trans (congrArg (List.map Entry.item) (waiting_push h hfree rfl rfl)) ?_
      rw [List.map_append]
      show _ ++ [(t, c.number)] = _ ++ [(t, s.returned t)]
      rw [hnow]
      rfl
    · show s.queued ++ [(t, c.number)] = s.queued ++ [(t, s.returned t)]
      rw [hnow]
  | @pass t c why hp =>
    obtain ⟨hnow, hreturned⟩ := returned_idle h (t := t) (c := c)
      (u := (s.moveTo t .idle).transmit t c.number c.packet (.passed why)) (by rw [hp]; rfl) rfl rfl
    exact Flow.Step.congr (.pass (x := ⟨t, c.number, c.packet, .passed why, s.fds c.packet.fd,
      s.waiting.map Entry.item⟩) hnow.symm rfl rfl) (flow_eq rfl rfl rfl hreturned)
  | closeLater happ hidle hscan =>
    -- a mark does not change which packet an entry has
    exact .of_eq (flow_eq rfl (item_waiting_modify (scan_eq_some hscan).1 h.room rfl rfl) rfl rfl)
  | @closeNow t fd file happ hidle hscan =>
    exact .of_eq (flow_eq rfl rfl rfl (returned_congr rfl (call_update (by rw [hidle]; rfl))))
  | @sysClose t fd file hp =>
    exact .of_eq (flow_eq rfl rfl rfl (returned_congr rfl (call_update (by rw [hp]; rfl))))
  | opened hfree => exact .stay
  | send hpicked =>
    have hpos := h.busy (.inl hpicked)
    -- the worker sends the front of what waits
    have hwaiting : s.waiting = s.ring.entry 0 :: s.ring.drop.toList := by
      rw [waiting_of_ne (by rw [hpicked]; decide), s.ring.toList_cons hpos]
    have hitems :
        s.waiting.map Entry.item = (s.ring.entry 0).item :: s.ring.drop.toList.map Entry.item := by
      rw [hwaiting]
      rfl
    refine Flow.Step.congr
      (.send (x := ⟨(s.ring.entry 0).thread, (s.ring.entry 0).number, (s.ring.entry 0).packet,
        .queued (s.ring.entry 0).file, s.fds (s.ring.entry 0).packet.fd, s.waiting.map Entry.item⟩)
          hitems rfl)
      (flow_eq rfl ?_ rfl rfl)
    · show s.ring.toList.tail.map Entry.item = _
      rw [s.ring.toList_cons hpos]
      rfl
  | advance hsent =>
    refine .of_eq (flow_eq rfl ?_ rfl rfl)
    have hpos := h.busy (.inr hsent)
    -- a worker that goes on is at another place, so the entry it drops was the one already sent
    have hdone : ({ s with
        ring := s.ring.drop
        worker := if (s.ring.entry 0).appWantsClose then .closing (s.ring.entry 0).packet.fd
          (s.ring.entry 0).file
          else .idle } : State ι).worker ≠ .sent := by
      show ite _ _ _ ≠ Worker.sent
      split <;> exact nofun
    rw [waiting_of_ne hdone]
    show _ = s.waiting.map Entry.item
    rw [(waiting_of_sent hsent).resolve_right (by omega)]
  | workerClose hclosing =>
    refine .of_eq (flow_eq rfl ?_ rfl rfl)
    show _ = s.waiting.map Entry.item
    rw [waiting_of_ne (s := s) (by rw [hclosing]; exact nofun)]
    rfl

theorem sound_step (h : s.Sound) (hc : Change s a u) : u.Sound := by
  cases hc with
  | quiet hq =>
    refine ⟨by rw [hq.ring]; exact h.room, fun hw => ?_, fun t c ht => ?_⟩
    · rw [hq.ring]
      -- a picked-up packet is in the ring
      rcases hq.worker with heq | ⟨-, -, hpos⟩
      · exact h.busy (heq ▸ hw)
      · exact hpos
    · rw [hq.calls]
      exact h.last t c (hq.call t ▸ ht)
  | @call t c hidle happ hnumber =>
    refine ⟨h.room, h.busy, fun v d hd => ?_⟩
    change (Function.update s.place t (.entered c) v).call = some d at hd
    show Function.update s.calls t (s.calls t + 1) v = d.number + 1
    -- the calls of the thread that calls are one more; the others' are the same
    rcases eq_or_ne v t with rfl | hv
    · rw [Function.update_self] at hd ⊢
      obtain rfl := Option.some.inj hd
      rw [hnumber]
    · rw [Function.update_of_ne hv] at hd ⊢
      exact h.last v d hd
  | @enqueue t c hp hfree =>
    have hcount :
        (s.ring.push ⟨c.packet, false, t, c.number, s.fds c.packet.fd⟩).count = s.ring.count + 1 :=
      s.ring.count_push (Nat.lt_of_le_of_lt hfree (by decide))
    refine ⟨?_, fun _ => ?_, fun v d hd => last_idle h hd⟩
    -- the ring had room, which `enqueue` has looked at
    · show (s.ring.push _).count ≤ queueSize
      omega
    · show 0 < (s.ring.push _).count
      omega
  | pass hp => exact ⟨h.room, h.busy, fun v d hd => last_idle h hd⟩
  | closeLater happ hidle hscan => exact ⟨h.room, h.busy, h.last⟩
  | @closeNow t fd file happ hidle hscan =>
    refine ⟨h.room, h.busy, fun v d hd => ?_⟩
    have heq := call_update (p := .closing fd file)
        (show Place.call _ = (s.place t).call by rw [hidle]; rfl) v
    exact h.last v d (heq ▸ hd)
  | sysClose hp => exact ⟨h.room, h.busy, fun v d hd => last_idle h hd⟩
  | opened hfree => exact ⟨h.room, h.busy, h.last⟩
  | send hpicked => exact ⟨h.room, fun _ => h.busy (.inl hpicked), h.last⟩
  | advance hsent =>
    have hcount := s.ring.count_drop (h.busy (.inr hsent))
    have hroom := h.room
    refine ⟨?_, fun hw => ?_, h.last⟩
    · show s.ring.drop.count ≤ queueSize
      omega
    -- the worker has no entry in hand after it
    · split at hw <;> simp at hw
  | workerClose hclosing => exact ⟨h.room, fun hw => by simp at hw, h.last⟩

end State

/-! ## The array -/

/-- **The array's entries stay where they are while they are pending**, but
    for the mark of `close`. -/
theorem pending_kept {s u : State ι} {a : Event ι} (hc : Change s a u) {i : Nat}
    (hi : i < s.ring.count) :
    (u.ring.slot (s.ring.index i)).mark = (s.ring.entry i).mark := by
  cases hc with
  | quiet hq => rw [hq.ring]; rfl
  | @enqueue t c hp hfree =>
    have hne := s.ring.next_index_ne (by decide) hi hfree
    show (Function.update s.ring.slot _ _ (s.ring.index i)).mark = _
    rw [Function.update_of_ne hne]
    rfl
  | @closeLater t fd file j happ hidle hscan =>
    show (Function.update s.ring.slot (s.ring.index j) (s.ring.entry j).mark
        (s.ring.index i)).mark = _
    rcases eq_or_ne (s.ring.index i) (s.ring.index j) with heq | hne
    · rw [heq, Function.update_self]
      show (s.ring.entry j).mark.mark = (s.ring.slot (s.ring.index i)).mark
      rw [heq]
      rfl
    · rw [Function.update_of_ne hne]
      rfl
  | _ => rfl

/-! ## Why a packet is sent at once -/

/-- What a thread found when it decided to send the packet itself. -/
def Reason (s : State ι) (t : ι) (c : Call) : Why → Prop
  | .notLink => c.packet.isLink = false
  | .scattered => c.single = false
  | .tooLong => pktMax < c.packet.buf.length
  | .off => s.enabled = 0
  | .noDelay => ∃ ms ≤ 0, s.place t = .delayed c ms
  | .noWorker => s.started = false
  | .full => queueSize ≤ s.ring.count

omit [DecidableEq ι] in
theorem Call.refused_reason {s : State ι} {t : ι} {c : Call} {why : Why}
    (h : c.refused = some why) : Reason s t c why := by
  unfold Call.refused at h
  split at h
  · obtain rfl := Option.some.inj h
    assumption
  split at h
  · obtain rfl := Option.some.inj h
    simp [Reason, Packet.isLink, *]
  split at h
  · obtain rfl := Option.some.inj h
    assumption
  split at h
  · obtain rfl := Option.some.inj h
    simp [Reason, Packet.isLink, *]
  · cases h

/-- A thread that did not send the packet itself before: it is the one that moved. -/
theorem reason_of_moveTo {s : State ι} {t v : ι} {p : Place} {c : Call} {why : Why}
    (h : (s.moveTo v p).place t = .passing c why)
    (hp : v = t → p = .passing c why → Reason s t c why) :
    s.place t = .passing c why ∨ Reason s t c why := by
  change Function.update s.place v p t = _ at h
  rcases eq_or_ne t v with rfl | hv
  · rw [Function.update_self] at h
    exact .inr (hp rfl h)
  · rw [Function.update_of_ne hv] at h
    exact .inl h

/-- **A packet is sent at once for one of the hooks' reasons.** -/
theorem reason_of_passing {s u : State ι} {a : Event ι} (hs : link.step s a = some u) {t : ι}
    {c : Call} {why : Why} (hu : u.place t = .passing c why) :
    s.place t = .passing c why ∨ Reason s t c why := by
  -- a packet is passed for a reason that the place before has seen
  cases a with
  | call v packet single =>
    obtain ⟨-, ⟨⟩⟩ := Option.ite_none_right_eq_some.mp hs
    exact reason_of_moveTo hu fun _ hq => by cases hq
  | loadEnabled v =>
    cases hp : s.place v with
    | entered d =>
      simp only [link, hp] at hs
      cases hr : d.refused with
      -- the call itself speaks against a delay
      | some w =>
        simp only [hr] at hs
        obtain rfl := Option.some.inj hs
        refine reason_of_moveTo hu fun _ hq => ?_
        obtain ⟨rfl, rfl⟩ := Place.passing.inj hq
        exact Call.refused_reason hr
      | none =>
        simp only [hr] at hs
        obtain rfl := Option.some.inj hs
        refine reason_of_moveTo hu fun _ hq => ?_
        split at hq
        · obtain ⟨-, rfl⟩ := Place.passing.inj hq
          assumption
        · cases hq
    | _ => simp only [link, hp] at hs; cases hs
  | loadDelay v =>
    cases hp : s.place v with
    | enabled d =>
      simp only [link, hp] at hs
      obtain rfl := Option.some.inj hs
      exact reason_of_moveTo hu fun _ hq => by cases hq
    | _ => simp only [link, hp] at hs; cases hs
  | ensure v =>
    cases hp : s.place v with
    | delayed d ms =>
      simp only [link, hp] at hs
      split at hs
      · rename_i hms
        obtain rfl := Option.some.inj hs
        refine reason_of_moveTo hu fun hv hq => ?_
        obtain ⟨rfl, rfl⟩ := Place.passing.inj hq
        exact ⟨ms, hms, hv ▸ hp⟩
      -- next: a packet that is too long, a worker that has been asked for, or one to ask for
      split at hs
      · obtain rfl := Option.some.inj hs
        refine reason_of_moveTo hu fun _ hq => ?_
        obtain ⟨rfl, rfl⟩ := Place.passing.inj hq
        assumption
      split at hs
      · obtain rfl := Option.some.inj hs
        exact reason_of_moveTo hu fun _ hq => by cases hq
      · obtain rfl := Option.some.inj hs
        exact reason_of_moveTo hu fun _ hq => by cases hq
    | _ => simp only [link, hp] at hs; cases hs
  | create v ok =>
    cases hp : s.place v with
    | creating d =>
      simp only [link, hp] at hs
      obtain rfl := Option.some.inj hs
      -- whether the worker could be made is asked at the next place
      have hu' : (s.moveTo v (.ready d)).place t = .passing c why := by
        split at hu <;> exact hu
      exact reason_of_moveTo hu' fun _ hq => by cases hq
    | _ => simp only [link, hp] at hs; cases hs
  | check v =>
    cases hp : s.place v with
    | ready d =>
      simp only [link, hp] at hs
      obtain rfl := Option.some.inj hs
      refine reason_of_moveTo hu fun _ hq => ?_
      split at hq
      · cases hq
      -- the worker that was to be made is not running
      · obtain ⟨-, rfl⟩ := Place.passing.inj hq
        exact Bool.eq_false_iff.mpr ‹_›
    | _ => simp only [link, hp] at hs; cases hs
  | enqueue v =>
    cases hp : s.place v with
    | cleared d =>
      simp only [link, hp] at hs
      obtain rfl := Option.some.inj hs
      unfold State.tryEnqueue at hu
      split at hu
      -- the ring is full
      · refine reason_of_moveTo hu fun _ hq => ?_
        obtain ⟨-, rfl⟩ := Place.passing.inj hq
        assumption
      · exact reason_of_moveTo hu fun _ hq => by cases hq
    | _ => simp only [link, hp] at hs; cases hs
  | pass v =>
    cases hp : s.place v with
    | passing d w =>
      simp only [link, hp] at hs
      obtain rfl := Option.some.inj hs
      exact reason_of_moveTo hu fun _ hq => by cases hq
    | _ => simp only [link, hp] at hs; cases hs
  | close v fd =>
    cases happ : s.app fd with
    | some file =>
      simp only [link, happ] at hs
      obtain ⟨-, hs⟩ := Option.ite_none_right_eq_some.mp hs
      obtain rfl := Option.some.inj hs
      unfold State.interceptClose at hu
      split at hu
      · exact .inl hu
      · exact reason_of_moveTo (s := s) hu fun _ hq => by cases hq
    | none => simp only [link, happ] at hs; cases hs
  | sysClose v =>
    cases hp : s.place v with
    | closing fd file =>
      simp only [link, hp] at hs
      obtain rfl := Option.some.inj hs
      exact reason_of_moveTo hu fun _ hq => by cases hq
    | _ => simp only [link, hp] at hs; cases hs
  | opened fd =>
    obtain ⟨-, ⟨⟩⟩ := Option.ite_none_right_eq_some.mp hs
    exact .inl hu
  -- the switches and the worker leave the threads where they are
  | refreshEnabled enabled => obtain rfl := Option.some.inj hs; exact .inl hu
  | refreshDelay manual auto => obtain rfl := Option.some.inj hs; exact .inl hu
  | pick => obtain ⟨-, ⟨⟩⟩ := Option.ite_none_right_eq_some.mp hs; exact .inl hu
  | send => obtain ⟨-, ⟨⟩⟩ := Option.ite_none_right_eq_some.mp hs; exact .inl hu
  | advance => obtain ⟨-, ⟨⟩⟩ := Option.ite_none_right_eq_some.mp hs; exact .inl hu
  | workerClose =>
    cases hw : s.worker with
    | closing fd file =>
      simp only [link, hw] at hs
      obtain rfl := Option.some.inj hs
      exact .inl hu
    | _ => simp only [link, hw] at hs; cases hs

/-! ## Runs -/

omit [DecidableEq ι] in
theorem count_init (t : ι) : (State.init t).ring.count = 0 :=
  ((State.init t).ring.count_eq_zero).mpr rfl

omit [DecidableEq ι] in
theorem waiting_init (t : ι) : (State.init t).waiting = [] := by
  rw [State.waiting_of_ne (show Worker.idle ≠ Worker.sent from nofun), Ring.toList_eq_nil]
  exact count_init t

omit [DecidableEq ι] in
theorem sound_init (t : ι) : (State.init t).Sound := by
  refine ⟨?_, fun hw => ?_, nofun⟩
  · rw [count_init]
    exact Nat.zero_le _
  · rcases hw with hw | hw <;> cases hw

omit [DecidableEq ι] in
theorem flow_init (t : ι) : (State.init t).flow = ⟨[], [], [], fun _ => 0⟩ :=
  State.flow_eq rfl (by rw [waiting_init]; rfl) rfl rfl

/-- What holds of the packets in every state reached. -/
theorem ordered_of_reach {G : State ι → Event ι → Prop} {t : ι} {s : State ι}
    (hr : link.Reach G (.init t) s) :
    s.Sound ∧ s.flow.Ordered := by
  refine hr.inv (I := fun s => s.Sound ∧ s.flow.Ordered)
    ⟨sound_init t, flow_init t ▸ Flow.ordered_empty⟩ fun u a v ⟨hsound, hordered⟩ _ hs => ?_
  have hc := step_change hs
  exact ⟨State.sound_step hsound hc, (State.flow_step hsound hc).ordered hordered⟩

/-- **Order of the delayed packets**: what leaves before an earlier packet of its thread was sent at
    once, for one of the hooks' reasons and while the other one waited; the queue keeps its order,
    and no step changes an entry that is pending. -/
theorem queue_keeps_order {t₀ : ι} {s : State ι} (hr : link.Reach Free (.init t₀) s) :
    (∀ pre x post, s.wire = pre ++ x :: post → ∀ i < x.number, (x.thread, i) ∉ pre.map Sent.item →
      (∃ why, x.route = .passed why) ∧ (x.thread, i) ∈ x.behind) ∧
    s.wire.filterMap Sent.fromQueue ++ s.waiting.map Entry.item = s.queued ∧
    ∀ a u, link.step s a = some u →
      (∀ t c why, u.place t = .passing c why → s.place t = .passing c why ∨ Reason s t c why) ∧
      ∀ i < s.ring.count, (u.ring.slot (s.ring.index i)).mark = (s.ring.entry i).mark := by
  obtain ⟨-, hordered⟩ := ordered_of_reach hr
  exact ⟨hordered.overtakes, hordered.log, fun a u hs =>
    ⟨fun _ _ _ => reason_of_passing hs, fun _ => pending_kept (step_change hs)⟩⟩

/-- A packet for the port 50001, with the magic header. -/
def linkPacket : Packet :=
  ⟨3, djplMagic ++ [11], 0, [2, 0, 0xC3, 0x51, 0, 0, 0, 0, 0, 0, 0, 0, 0, 0, 0, 0]⟩

/-- The first packet of a thread is queued. -/
def queueOne : List (Event Unit) :=
  [.opened 3, .refreshEnabled 1, .refreshDelay 100 0, .call () linkPacket true, .loadEnabled (),
    .loadDelay (), .ensure (), .create () true, .check (), .enqueue ()]

/-- A further packet of the thread is queued, the worker's thread being there. -/
def queueNext : List (Event Unit) :=
  [.call () linkPacket true, .loadEnabled (), .loadDelay (), .ensure (), .check (), .enqueue ()]

/-- The switch is turned off, and the next packet passes. -/
def passNext : List (Event Unit) :=
  [.refreshEnabled 0, .call () linkPacket true, .loadEnabled (), .pass ()]

/-- Two packets are queued and the switch is turned off: the third one passes them for that reason,
    and the two leave in their order. -/
theorem third_packet_passes_two : ∃ s, link.Reach Free (State.init ()) s ∧
    s.wire.map Sent.item = [((), 2), ((), 0), ((), 1)] ∧
    (∀ x ∈ s.wire.head?, (∃ why, x.route = .passed why) ∧ ((), 0) ∈ x.behind ∧ ((), 1) ∈ x.behind) ∧
    s.wire.filterMap Sent.fromQueue ++ s.waiting.map Entry.item = s.queued := by
  obtain ⟨s, hr, hs⟩ := Reach.of_run_any (M := link) (G := Free) (s := State.init ())
    (p := fun s => s.wire.map Sent.item = [((), 2), ((), 0), ((), 1)])
    (queueOne ++ queueNext ++ passNext ++ [.pick, .send, .advance, .pick, .send])
      (by decide)
  have hitems := of_decide_eq_true hs
  obtain ⟨hovertakes, hqueue, -⟩ := queue_keeps_order hr
  refine ⟨s, hr, hitems, ?_, hqueue⟩
  obtain ⟨x, rest, hwire, hx, -⟩ := List.map_eq_cons_iff.mp hitems
  have hnumber : x.number = 2 := (Prod.mk.inj hx).2
  have hbehind : ∀ i < 2, (∃ why, x.route = .passed why) ∧ ((), i) ∈ x.behind := fun i hi =>
    hovertakes [] x rest hwire i (by rw [hnumber]; exact hi) List.not_mem_nil
  rw [hwire]
  rintro y ⟨⟩
  exact ⟨(hbehind 0 (by decide)).1, (hbehind 0 (by decide)).2, (hbehind 1 (by decide)).2⟩

/-- The switch is turned off while the first packet waits: the second one leaves before it. -/
theorem later_packet_leaves_first : ¬ ∀ s, link.Reach Free (State.init ()) s →
    ∀ pre x post, s.wire = pre ++ x :: post →
    ∀ y ∈ post, x.packet.isLink → y.packet.isLink → y.thread = x.thread → x.number < y.number := by
  intro hall
  obtain ⟨s, hr, hs⟩ := Reach.of_run_any (M := link) (G := Free) (s := State.init ())
    (p := fun s => s.wire.map (fun x => (x.number, x.packet)) = [(1, linkPacket), (0, linkPacket)])
    (queueOne ++ [.refreshEnabled 0, .call () linkPacket true, .loadEnabled (), .pass (),
      .pick, .send])
    (by decide)
  obtain ⟨x, l, hwire, hx, hl⟩ := List.map_eq_cons_iff.mp (of_decide_eq_true hs)
  obtain ⟨y, l', rfl, hy, -⟩ := List.map_eq_cons_iff.mp hl
  have hlt := hall s hr [] x (y :: l') hwire y List.mem_cons_self
  rw [(Prod.mk.inj hx).2, (Prod.mk.inj hy).2, (Prod.mk.inj hx).1, (Prod.mk.inj hy).1] at hlt
  exact absurd (hlt (by decide) (by decide) rfl) (by decide)

end CdjEmu.Link
