/-
  ONE REPLY EACH, IN ORDER — the requests of a connection and what comes back.

  The log is everything that was queued.  What the client has read is the front of it, then comes
  what is under way, then what the writer has not taken (`Streamed`).  The reply of a request is
  queued exactly when the server is done with it (`Served`): while the server waits, whoever answers
  is the first, and afterwards nobody's answer counts.  A client that is not in a request has read
  all replies, so the next message is an event; in a request it is an event or the reply.

  1. **Program** — `Control/Connection` has the machine: the client, the reader and the server of
     one connection, the window that answers, and the socket of `Control/Probe` with its writer
     thread and its probe, in which a write may fail.

  2. **Specification** — every request that the client has finished has returned one reply, its own,
     in the order of the requests; events come whole and in the order in which they were sent,
     between the replies or in front of them; and a client that goes on reading gets what it waits
     for.

  3. **The crux (`Streamed.step`)** — the octets that are anywhere between the server and the client
     are the lines of the log behind those that the client has read.  The socket's part of a step is
     one of its own machine (`reach_sink`, `reach_answer`, `reach_receive`), so that its health
     comes from `probe_spares`' invariant and is not proved again.

  4. **Bridge** — `Advance` and `serverWork`, `clientWork` measure what is left to do.  In a run of
     steps that are no new calls the work only shrinks, and where none is left every request has its
     reply (`Settled`).

  The condition on the run is that of the probe: no `write` is called into a full send buffer while
  the flag is set.  `live_client_gets_no_reply` is a run without it, in which a client that stays
  loses its connection and the reply with it.
-/
import CdjEmu.Control.Connection
import CdjEmu.Lib.Trim

namespace CdjEmu.Connection

open Machine Text

variable {J : Json} {s u : State J.Value}

/-- The item is read as what it is. -/
def Item.Fits : Item J.Value → Prop
  | .reply _ v => Connection.Fits J false v
  | .event v => Connection.Fits J true v

/-- A line that fits has no newline inside. -/
theorem Item.Fits.newline_notMem {i : Item J.Value} (h : i.Fits) : newline ∉ i.line J := by
  cases i <;> exact h.1

theorem newline_line : bytes "\n" = [newline] := by decide

/-- What a server that waits has still to do. -/
def Server.work : Server → Nat
  | .asking _ => 1
  | _ => 0

/-- What is left of the probe. -/
def askerWork : Control.Asker → Nat
  | .probing => 2
  | .peeked _ => 1
  | _ => 0

/-- A client that reads has begun. -/
def Caller.work : Caller → Nat
  | .listening => 0
  | _ => 1

namespace State

/-- The replies that were queued. -/
def replies (s : State J.Value) : List (Nat × J.Value) := s.log.filterMap Item.reply?

/-- What the client has before it: what has arrived, the send buffer, and what is left of the line
    that is being written. -/
def ahead (s : State J.Value) : LineReader UInt8 :=
  { s.reader with transit := s.socket.buffer ++ s.socket.writer.rest }

/-- Where everything is that was queued. -/
structure Streamed (s : State J.Value) : Prop where
  fits : ∀ i ∈ s.log, i.Fits
  split : ∃ read flight waiting, s.log = read ++ (flight ++ waiting) ∧
    s.ahead.Due newline (flight.map (Item.line J)) ∧
    s.socket.queue = waiting.map (fun i => i.line J ++ [newline]) ∧
    s.results = (read.filterMap Item.reply?).map (fun p => readBack J p.2) ∧
    (s.seen ++ s.events).map some = (read.filterMap Item.event?).map (readBack J)
  /-- `next_event` reads when no event is kept. -/
  empty : s.caller = .listening → s.events = []

/-- Which requests have their replies. -/
structure Served (s : State J.Value) : Prop where
  numbers : s.replies.map Prod.fst = List.range s.replies.length
  reading : s.server = .reading → s.replies.length = s.taken.length
  asking : ∀ n, s.server = .asking n → s.taken.length = n + 1 ∧
    s.replies.length = if s.done n then n + 1 else n
  held : ∀ n, s.responder n ≠ .none → n < s.taken.length ∧ (s.done n = true ∨ s.server = .asking n)
  bound : s.replies.length ≤ s.lines.length
  lines : ∀ l ∈ s.lines, newline ∉ l ∧ Valid l ∧ trim (l ++ [newline]) ≠ []
  requests : s.server ≠ .gone → s.requests.part = [] ∧
    s.requests.Due newline (s.lines.drop s.taken.length) ∧
    s.taken = (s.lines.take s.taken.length).map (· ++ [newline])
  gone : s.server = .gone → ∃ l ∈ s.lines, maxLine ≤ l.length
  returned : s.caller ≠ .requesting → s.results.length = s.lines.length
  waits : s.caller = .requesting → s.lines.length = s.results.length + 1
  /-- The probe runs in `ask_window` only. -/
  probes : s.server = .reading → s.socket.asker = .idle
  asks : ∀ n, s.server = .asking n → s.socket.asker ≠ .idle
  here : s.socket.asker ≠ .gone

/-! ## Queueing -/

section Queueing

variable (hw : s.socket.writer ≠ .failed)
include hw

/-- What a running writer thread leaves of `send`. -/
theorem sink_eq (i : Item J.Value) : s.sink J i = { s with
    socket := { s.socket with
      queue := s.socket.queue ++ [i.line J ++ [newline]],
      queued := s.socket.queued ++ [i.line J ++ [newline]] }
    log := s.log ++ [i] } := by
  rw [sink, Control.Socket.send, if_neg hw, if_neg hw, newline_line]

/-- What goes into the socket is recorded. -/
theorem replies_sink (i : Item J.Value) : (s.sink J i).replies = s.replies ++ i.reply?.toList := by
  rw [sink_eq hw]
  show (s.log ++ [i]).filterMap Item.reply? = _
  rw [List.filterMap_append]
  cases i <;> rfl

/-- One more line keeps the stream whole. -/
theorem Streamed.sink (h : s.Streamed) {i : Item J.Value} (hi : i.Fits) :
    (s.sink J i).Streamed := by
  obtain ⟨read, flight, waiting, hlog, hdue, hqueue, hresults, hseen⟩ := h.split
  rw [sink_eq hw]
  refine ⟨fun j hj => ?_, ⟨read, flight, waiting ++ [i], ?_, hdue, ?_, hresults, hseen⟩, h.empty⟩
  · rcases List.mem_append.mp hj with hold | hnew
    · exact h.fits j hold
    · exact List.mem_singleton.mp hnew ▸ hi
  · show s.log ++ [i] = _
    rw [hlog]
    simp
  · show s.socket.queue ++ [i.line J ++ [newline]] = _
    rw [hqueue]
    simp

end Queueing

/-- The probe is left as it was. -/
theorem asker_sink (i : Item J.Value) : (s.sink J i).socket.asker = s.socket.asker := by
  show (s.socket.send (i.line J)).asker = _
  unfold Control.Socket.send
  split <;> rfl

/-- What the client and the stream have in common with another state. -/
theorem Streamed.congr (h : s.Streamed) (hlog : u.log = s.log) (hahead : u.ahead = s.ahead)
    (hqueue : u.socket.queue = s.socket.queue) (hresults : u.results = s.results)
    (hseen : u.seen ++ u.events = s.seen ++ s.events)
    (hempty : u.caller = .listening → u.events = []) : u.Streamed := by
  refine ⟨?_, ?_, hempty⟩
  · rw [hlog]
    exact h.fits
  · rw [hlog, hahead, hqueue, hresults, hseen]
    exact h.split

/-- No more requests were taken than have arrived. -/
theorem Served.taken_le (h : s.Served) (hserver : s.server ≠ .gone) :
    s.taken.length ≤ s.lines.length := by
  have hlen := congrArg List.length (h.requests hserver).2.2
  rw [List.length_map, List.length_take] at hlen
  omega

/-- A reply is queued while the server waits for it, or not at all. -/
theorem Served.answer (h : s.Served) (hw : s.socket.writer ≠ .failed) {n : Nat} {v : J.Value}
    (hn : s.done n = true ∨ s.server = .asking n) :
    (s.answer J n v).Served ∧ (s.answer J n v).done n = true := by
  unfold State.answer
  -- either it was answered before, or this is the answer that the server waits for
  split
  · exact ⟨h, ‹_›⟩
  · rename_i hdone
    have hserver : s.server = .asking n := hn.resolve_left hdone
    obtain ⟨htaken, hreplies⟩ := h.asking n hserver
    have hle := h.taken_le (by rw [hserver]; nofun)
    rw [if_neg hdone] at hreplies
    have hnew : ({ s.sink J (.reply n v) with done := Function.update s.done n true } :
        State J.Value).replies =
        s.replies ++ [(n, v)] := replies_sink hw (.reply n v)
    refine ⟨⟨?_, ?_, fun m hm => ?_, fun m hm => ?_, ?_, h.lines, h.requests, h.gone, h.returned,
      h.waits, ?_, ?_, ?_⟩, Function.update_self ..⟩
    -- replies come in the order of the requests
    · rw [hnew, List.map_append, h.numbers, List.length_append, hreplies, List.length_singleton,
        List.range_succ]
      rfl
    · intro hreading
      rw [show s.server = .reading from hreading] at hserver
      cases hserver
    · obtain rfl := Server.asking.inj ((show s.server = .asking m from hm).symm.trans hserver)
      refine ⟨htaken, ?_⟩
      rw [hnew, List.length_append, hreplies]
      exact (if_pos (Function.update_self ..)).symm
    · obtain ⟨hlt, hor⟩ := h.held m hm
      refine ⟨hlt, ?_⟩
      -- the request that was in hand is answered now; any other keeps its flag
      show Function.update s.done n true m = true ∨ _
      rcases eq_or_ne m n with rfl | hne
      · exact .inl (Function.update_self ..)
      · rwa [Function.update_of_ne hne]
    · rw [hnew, List.length_append, List.length_singleton]
      show _ ≤ s.lines.length
      omega
    · intro hreading
      exact (asker_sink (.reply n v)).trans (h.probes hreading)
    · intro m hm
      exact (asker_sink (.reply n v)).trans_ne (h.asks m hm)
    · exact (asker_sink (.reply n v)).trans_ne h.here

/-- An answer is one more line. -/
theorem Streamed.answer (h : s.Streamed) (hw : s.socket.writer ≠ .failed) {n : Nat} {v : J.Value}
    (hv : Fits J false v) :
    (s.answer J n v).Streamed := by
  unfold State.answer
  split
  · exact h
  · exact (h.sink hw (i := .reply n v) hv).congr rfl rfl rfl rfl rfl h.empty

/-! ## The server -/

variable {κ : Type} {parse : Bytes → Except Bytes κ}

/-- The server goes on to the next line. -/
theorem Served.next (h : s.Served) {n : Nat} (hserver : s.server = .asking n)
    (hdone : s.done n = true) : s.resume.Served := by
  obtain ⟨htaken, hreplies⟩ := h.asking n hserver
  rw [if_pos hdone] at hreplies
  refine ⟨h.numbers, fun _ => hreplies.trans htaken.symm, nofun, fun m hm => ?_, h.bound, h.lines,
    fun _ => h.requests (by rw [hserver]; nofun), nofun, h.returned, h.waits, fun _ => rfl,
    nofun, nofun⟩
  obtain ⟨hlt, hor⟩ := h.held m hm
  refine ⟨hlt, .inl ?_⟩
  rcases hor with hdone' | hasking
  · exact hdone'
  · obtain rfl := Server.asking.inj (hserver.symm.trans hasking)
    exact hdone

/-- The next line is the next request. -/
theorem Served.next_line (h : s.Served) (hserver : s.server = .reading) {l : Bytes} {rest : Bytes}
    (hsplit : splitOnce newline s.requests.buffer = some (l, rest)) :
    s.lines.drop s.taken.length = l :: s.lines.drop (s.taken.length + 1) ∧ l ∈ s.lines ∧
      s.lines.take (s.taken.length + 1) = s.lines.take s.taken.length ++ [l] ∧
      ({ s.requests with buffer := rest } : LineReader UInt8).Due newline
        (s.lines.drop (s.taken.length + 1)) := by
  obtain ⟨hpart, hdue, -⟩ := h.requests (by rw [hserver]; nofun)
  have hread : s.requests.readUntil newline = (some l, { s.requests with buffer := rest }) := by
    rw [LineReader.readUntil, hsplit]
    simp [hpart]
  obtain ⟨lines, hlines, hdue', -⟩ := hdue.readUntil_some hread
  have hlt : s.taken.length < s.lines.length := by
    by_contra hge
    rw [List.drop_eq_nil_of_le (by omega)] at hlines
    cases hlines
  obtain ⟨hl, hrest⟩ := List.cons_eq_cons.mp ((List.drop_eq_getElem_cons hlt).symm.trans hlines)
  subst hl
  refine ⟨List.drop_eq_getElem_cons hlt, List.getElem_mem hlt, ?_, hrest ▸ hdue'⟩
  rw [List.take_succ_eq_append_getElem hlt]

/-- Between two requests all that were taken up are done. -/
theorem Served.done_of_held (h : s.Served) (hserver : s.server = .reading) {n : Nat}
    (hn : s.responder n ≠ .none) :
    n < s.taken.length ∧ s.done n = true := by
  obtain ⟨hlt, hor⟩ := h.held n hn
  refine ⟨hlt, hor.resolve_right ?_⟩
  rw [hserver]
  nofun

/-- The server leaves, and does not answer. -/
theorem Served.leave (h : s.Served) (hserver : s.server = .reading) (requests : LineReader UInt8)
    (hlong : ∃ l ∈ s.lines, maxLine ≤ l.length) :
    ({ s with server := .gone, requests := requests } : State J.Value).Served :=
  ⟨h.numbers, nofun, nofun, fun _ hn => (h.done_of_held hserver hn).imp_right .inl, h.bound,
    h.lines, fun hne => absurd rfl hne, fun _ => hlong, h.returned, h.waits, nofun, nofun, h.here⟩

/-- The server takes up a request and answers it itself. -/
theorem Served.reply (h : s.Served) (hw : s.socket.writer ≠ .failed) (hserver : s.server = .reading)
    (hlt : s.taken.length < s.lines.length) (v : J.Value) (line : Bytes) (server : Server)
    (requests : LineReader UInt8) (hreading : server = .reading → requests.part = [] ∧
      requests.Due newline (s.lines.drop (s.taken.length + 1)) ∧
      s.taken ++ [line] = (s.lines.take (s.taken.length + 1)).map (· ++ [newline]))
    (hgone : server ≠ .reading → server = .gone ∧ ∃ l ∈ s.lines, maxLine ≤ l.length) :
    ({ s.sink J (.reply s.taken.length v) with
      server := server, requests := requests, taken := s.taken ++ [line] } :
        State J.Value).Served := by
  have hlen : (s.taken ++ [line]).length = s.taken.length + 1 := by
    rw [List.length_append, List.length_singleton]
  have hreplies := h.reading hserver
  have hnew : ({ s.sink J (.reply s.taken.length v) with
      server := server, requests := requests, taken := s.taken ++ [line] } :
        State J.Value).replies =
      s.replies ++ [(s.taken.length, v)] := replies_sink hw (.reply s.taken.length v)
  refine ⟨?_, fun _ => ?_, fun n hn => ?_, fun n hn => ?_, ?_, h.lines, fun hne => ?_, fun hg => ?_,
    h.returned, h.waits, fun _ => (asker_sink _).trans (h.probes hserver), fun n hn => ?_,
    (asker_sink _).trans_ne h.here⟩
  -- the number of the reply is the number of requests taken up before it
  · rw [hnew, List.map_append, h.numbers, List.length_append, hreplies, List.length_singleton,
      List.range_succ]
    rfl
  · show _ = (s.taken ++ [line]).length
    rw [hnew, List.length_append, List.length_singleton, hreplies, hlen]
  -- the server does not wait after an answer of its own
  · obtain ⟨hg, -⟩ := hgone (by rw [show server = .asking n from hn]; nofun)
    rw [show server = .asking n from hn] at hg
    cases hg
  · obtain ⟨hold, hdone⟩ := h.done_of_held hserver hn
    refine ⟨?_, .inl hdone⟩
    show n < (s.taken ++ [line]).length
    omega
  · rw [hnew, List.length_append, List.length_singleton, hreplies]
    exact hlt
  -- it reads on, or a line too long has ended it
  · have hr : server = .reading := by
      by_contra hne'
      exact hne (hgone hne').1
    have hnext := hreading hr
    rw [← hlen] at hnext
    exact hnext
  · exact (hgone (by rw [show server = .gone from hg]; nofun)).2
  · obtain ⟨hg, -⟩ := hgone (by rw [show server = .asking n from hn]; nofun)
    rw [show server = .asking n from hn] at hg
    cases hg

/-- The server takes up a request and asks the window. -/
theorem Served.ask (h : s.Served) (hserver : s.server = .reading) (line : Bytes)
    (requests : LineReader UInt8)
    (hnext : requests.part = [] ∧ requests.Due newline (s.lines.drop (s.taken.length + 1)) ∧
      s.taken ++ [line] = (s.lines.take (s.taken.length + 1)).map (· ++ [newline])) :
    ({ s with
      requests := requests
      server := .asking s.taken.length
      done := Function.update s.done s.taken.length false
      responder := Function.update s.responder s.taken.length .held
      socket := { s.socket with asker := .waiting }
      taken := s.taken ++ [line] } : State J.Value).Served := by
  have hlen : (s.taken ++ [line]).length = s.taken.length + 1 := by
    rw [List.length_append, List.length_singleton]
  have hreplies := h.reading hserver
  refine ⟨h.numbers, nofun, fun n hn => ?_, fun n hn => ?_, h.bound, h.lines, fun _ => ?_, nofun,
    h.returned, h.waits, nofun, fun _ _ => nofun, nofun⟩
  · obtain rfl := Server.asking.inj hn
    refine ⟨hlen, ?_⟩
    have hnew : Function.update s.done s.taken.length false s.taken.length = false :=
      Function.update_self ..
    show s.replies.length =
      if Function.update s.done s.taken.length false s.taken.length then _ else _
    rw [hnew, hreplies]
    rfl
  · show n < (s.taken ++ [line]).length ∧ (Function.update s.done s.taken.length false n = true ∨ _)
    rcases eq_or_ne n s.taken.length with rfl | hne
    · exact ⟨by omega, .inr rfl⟩
    · change Function.update s.responder s.taken.length .held n ≠ .none at hn
      rw [Function.update_of_ne hne] at hn ⊢
      obtain ⟨hold, hdone⟩ := h.done_of_held hserver hn
      exact ⟨by omega, .inl hdone⟩
  · rw [← hlen] at hnext
    exact hnext

/-- A line that is cut off: its front fills the limit. -/
theorem cutOff_sound (herr : ∀ why, Failure parse why → Fits J false (error J why))
    (hw : s.socket.writer ≠ .failed) (hserver : s.server = .reading) (hstream : s.Streamed)
    (h : s.Served) (hlt : s.taken.length < s.lines.length)
    (hlong : ∃ l ∈ s.lines, maxLine ≤ l.length) (requests : LineReader UInt8) (line : Bytes) :
    (({ s with requests := requests } : State J.Value).cutOff J line).Streamed ∧
      (({ s with requests := requests } : State J.Value).cutOff J line).Served := by
  unfold cutOff
  split
  · exact ⟨hstream.congr rfl rfl rfl rfl rfl hstream.empty, h.leave hserver requests hlong⟩
  · refine ⟨(hstream.sink hw (i := .reply s.taken.length (error J tooLongText))
      (herr _ (.inr (.inr (.inl rfl))))).congr rfl rfl rfl rfl rfl hstream.empty, ?_⟩
    exact h.reply hw hserver hlt _ line .gone requests nofun fun _ => ⟨rfl, hlong⟩

/-- **The server's turn.** -/
theorem receive_sound (herr : ∀ why, Failure parse why → Fits J false (error J why))
    (hw : s.socket.writer ≠ .failed) (hopen : s.socket.shut = false) (hserver : s.server = .reading)
    (hstream : s.Streamed) (h : s.Served) (hs : s.receive J parse = some u) :
    u.Streamed ∧ u.Served := by
  unfold receive at hs
  obtain ⟨hpart, hdue, htaken⟩ := h.requests (by rw [hserver]; nofun)
  cases hsplit : splitOnce newline s.requests.buffer with
  | some p =>
    obtain ⟨l, rest⟩ := p
    obtain ⟨hdrop, hmem, htake, hdue'⟩ := h.next_line hserver hsplit
    have hlt : s.taken.length < s.lines.length := by
      by_contra hge
      rw [List.drop_eq_nil_of_le (by omega)] at hdrop
      cases hdrop
    simp only [hsplit] at hs
    split at hs
    · obtain rfl := Option.some.inj hs
      obtain ⟨hline, hvalid, hblank⟩ := h.lines l hmem
      have hvalid' : Valid (l ++ [newline]) := hvalid.append (by decide)
      have hnext : s.taken ++ [l ++ [newline]] = (s.lines.take (s.taken.length + 1)).map
          (· ++ [newline]) := by
        rw [htake, List.map_append, ← htaken]
        rfl
      unfold serve
      rw [if_neg (not_not_intro hvalid'), if_neg hblank]
      cases hparse : parse (trim (l ++ [newline])) with
      | error e =>
        refine ⟨(hstream.sink hw (i := .reply s.taken.length (error J e))
          (herr _ (.inr (.inr (.inr ⟨_, hparse⟩))))).congr rfl rfl rfl rfl rfl hstream.empty, ?_⟩
        show ({ s.sink J (.reply s.taken.length (error J e)) with
          server := if s.socket.writer = .failed then .gone else s.server,
          requests := { s.requests with buffer := rest }, taken := s.taken ++ [l ++ [newline]] } :
          State J.Value).Served
        rw [if_neg hw]
        exact h.reply hw hserver hlt _ _ _ _ (fun _ => ⟨hpart, hdue', hnext⟩)
          (fun hne => absurd hserver hne)
      | ok command =>
        exact ⟨hstream.congr rfl rfl rfl rfl rfl hstream.empty,
          h.ask hserver _ _ ⟨hpart, hdue', hnext⟩⟩
    · obtain rfl := Option.some.inj hs
      exact cutOff_sound herr hw hserver hstream h hlt ⟨l, hmem, by omega⟩ _ _
  | none =>
    simp only [hsplit] at hs
    rw [if_pos hopen] at hs
    obtain ⟨hfull, hu⟩ := Option.ite_none_right_eq_some.mp hs
    obtain rfl := Option.some.inj hu
    -- the next line begins with all that has arrived
    have hread : s.requests.readUntil newline =
        (none, { s.requests with part := s.requests.buffer, buffer := [] }) := by
      rw [LineReader.readUntil, hsplit]
      simp [hpart]
    rcases (hdue.readUntil_none hread).part_front with hnil | ⟨l, ls, hlines, hprefix⟩
    · rw [show s.requests.buffer = [] from hnil] at hfull
      exact absurd hfull (by decide)
    · have hmem : l ∈ s.lines := List.mem_of_mem_drop (by rw [hlines]; exact List.mem_cons_self)
      have hlt : s.taken.length < s.lines.length := by
        by_contra hge
        rw [List.drop_eq_nil_of_le (by omega)] at hlines
        cases hlines
      exact cutOff_sound herr hw hserver hstream h hlt ⟨l, hmem, hfull.trans hprefix.length_le⟩ _ _

/-! ## The client -/

/-- Reading a line does not touch what is under way. -/
theorem ahead_read {line : Option Bytes} {r : LineReader UInt8}
    (hread : s.reader.readUntil newline = (line, r)) :
    s.ahead.readUntil newline = (line, { r with transit := s.ahead.transit }) := by
  have hbuffer : s.ahead.buffer = s.reader.buffer := rfl
  rw [LineReader.readUntil] at hread
  rw [LineReader.readUntil, hbuffer]
  cases hsplit : splitOnce newline s.reader.buffer <;> rw [hsplit] at hread <;> cases hread <;> rfl

/-- Only the client has moved. -/
theorem Served.client (h : s.Served) (caller : Caller) (reader : LineReader UInt8)
    (events seen : List J.Value) (results : List (Option J.Value))
    (hreturned : caller ≠ .requesting → results.length = s.lines.length)
    (hwaits : caller = .requesting → s.lines.length = results.length + 1) :
    ({ s with
      caller := caller, reader := reader, events := events, seen := seen, results := results } :
      State J.Value).Served :=
  ⟨h.numbers, h.reading, h.asking, h.held, h.bound, h.lines, h.requests, h.gone, hreturned, hwaits,
    h.probes, h.asks, h.here⟩

/-- A new line of the client is behind all those that the server has taken. -/
theorem Served.request (h : s.Served) {l : Bytes} (hone : newline ∉ l) (hvalid : Valid l)
    (hblank : trim (l ++ [newline]) ≠ []) (hcount : s.results.length = s.lines.length) :
    ({ s with
      caller := .requesting, requests := s.requests.post newline l, lines := s.lines ++ [l] } :
      State J.Value).Served := by
  refine ⟨h.numbers, h.reading, h.asking, h.held, ?_, ?_, ?_, ?_, ?_, ?_, h.probes, h.asks, h.here⟩
  · show s.replies.length ≤ (s.lines ++ [l]).length
    have := h.bound
    rw [List.length_append]
    omega
  · intro l' hl'
    rcases List.mem_append.mp hl' with hold | hnew
    · exact h.lines l' hold
    · obtain rfl := List.mem_singleton.mp hnew
      exact ⟨hone, hvalid, hblank⟩
  -- the server's reader has one more line to come
  · intro hserver
    obtain ⟨hpart, hdue, htaken⟩ := h.requests hserver
    have hle := h.taken_le hserver
    refine ⟨hpart, ?_, ?_⟩
    · show _
      rw [List.drop_append_of_le_length hle]
      exact hdue.post hone
    · rw [List.take_append_of_le_length hle]
      exact htaken
  · intro hgone
    obtain ⟨l', hl', hlong⟩ := h.gone hgone
    exact ⟨l', List.mem_append_left _ hl', hlong⟩
  · exact fun hne => absurd rfl hne
  · intro _
    rw [List.length_append, List.length_singleton]
    show s.lines.length + 1 = s.results.length + 1
    rw [hcount]

/-- The client has read a whole line: it is the next item. -/
theorem message_sound (hstream : s.Streamed) (h : s.Served) (hcaller : s.caller ≠ .idle) {l : Bytes}
    {r : LineReader UInt8} (hread : s.reader.readUntil newline = (some l, r)) :
    (({ s with reader := r } : State J.Value).message J (l ++ [newline])).Streamed ∧
      (({ s with reader := r } : State J.Value).message J (l ++ [newline])).Served := by
  obtain ⟨read, flight, waiting, hlog, hdue, hqueue, hresults, hseen⟩ := hstream.split
  -- the line is the first one in flight, whole
  obtain ⟨lines, hlines, hdue', -⟩ := hdue.readUntil_some (ahead_read hread)
  obtain ⟨i, flight, rfl, rfl, rfl⟩ := List.map_eq_cons_iff.mp hlines
  have hfits := hstream.fits i (by rw [hlog]; simp)
  have hlog' : s.log = (read ++ [i]) ++ (flight ++ waiting) := by rw [hlog]; simp
  cases i with
  | event v =>
    obtain ⟨w, hw, hevent⟩ := (Option.any_eq_true _ _).mp hfits.2
    have hparse : J.parse (Item.line J (.event v) ++ [newline]) = some w := hw
    have hsome : (J.get w "event").isSome = true := of_decide_eq_true hevent
    have hresults' : s.results = ((read ++ [Item.event v]).filterMap Item.reply?).map
        (fun p => readBack J p.2) := by
      rw [hresults, List.filterMap_append]
      simp [Item.reply?]
    have hevents : (s.seen ++ s.events).map some ++ [some w] =
        ((read ++ [Item.event v]).filterMap Item.event?).map (readBack J) := by
      rw [hseen, List.filterMap_append, List.map_append]
      simp [Item.event?, hw]
    -- a client in a request keeps the event for later; one that listens returns it
    cases hc : s.caller with
    | idle => exact absurd hc hcaller
    | requesting =>
      simp only [message, hparse, hsome, if_true]
      refine ⟨⟨hstream.fits,
        ⟨read ++ [.event v], flight, waiting, hlog', hdue', hqueue, hresults', ?_⟩, nofun⟩, ?_⟩
      · show (s.seen ++ (s.events ++ [w])).map some = _
        rw [← List.append_assoc, List.map_append]
        exact hevents
      · exact h.client .requesting r (s.events ++ [w]) s.seen s.results
          (fun hne => absurd rfl hne) fun _ => h.waits hc
    | listening =>
      have hnil := hstream.empty hc
      simp only [message, hparse]
      refine ⟨⟨hstream.fits,
        ⟨read ++ [.event v], flight, waiting, hlog', hdue', hqueue, hresults', ?_⟩, nofun⟩, ?_⟩
      · show ((s.seen ++ [w]) ++ s.events).map some = _
        rw [hnil] at hevents ⊢
        rw [← hevents]
        simp
      · exact h.client .idle r s.events (s.seen ++ [w]) s.results
          (fun _ => h.returned (by rw [hc]; nofun)) nofun
  | reply n v =>
    obtain ⟨w, hw, hevent⟩ := (Option.any_eq_true _ _).mp hfits.2
    have hparse : J.parse (Item.line J (.reply n v) ++ [newline]) = some w := hw
    have hnone : (J.get w "event").isSome = false := of_decide_eq_true hevent
    -- a reply in flight is one that the client has not got
    have hunread : s.results.length < s.replies.length := by
      rw [replies, hlog, hresults]
      simp [Item.reply?, List.filterMap_append]
    have hc : s.caller = .requesting := by
      by_contra hne
      have := h.returned hne
      have := h.bound
      omega
    simp only [message, hc, hparse, hnone, Bool.false_eq_true, if_false]
    refine ⟨⟨hstream.fits, ⟨read ++ [.reply n v], flight, waiting, hlog', hdue', hqueue, ?_, ?_⟩,
      nofun⟩, ?_⟩
    · show s.results ++ [some w] = _
      rw [hresults, List.filterMap_append, List.map_append]
      simp [Item.reply?, hw]
    · show (s.seen ++ s.events).map some = _
      rw [hseen, List.filterMap_append]
      simp [Item.event?]
    -- the results are as many as the requests again
    · refine h.client .idle r s.events s.seen (s.results ++ [some w]) (fun _ => ?_) nofun
      rw [List.length_append, List.length_singleton]
      exact (h.waits hc).symm

/-! ## Steps -/

/-- It moves neither the server nor the responder. -/
theorem server_answer (n : Nat) (v : J.Value) : (s.answer J n v).server = s.server := by
  unfold answer
  split <;> rfl

theorem responder_answer (n : Nat) (v : J.Value) : (s.answer J n v).responder = s.responder := by
  unfold answer
  split <;> rfl

theorem asker_answer (n : Nat) (v : J.Value) : (s.answer J n v).socket.asker = s.socket.asker := by
  unfold answer
  split
  · rfl
  · exact asker_sink (.reply n v)

/-- The window answers a request through its `Responder`, or drops it. -/
theorem answered_sound (hw : s.socket.writer ≠ .failed) (hstream : s.Streamed) (h : s.Served)
    {n : Nat} {v : J.Value} (hv : Fits J false v) (r : Responder) (hheld : s.responder n ≠ .none) :
    ({ s.answer J n v with responder := Function.update s.responder n r } :
      State J.Value).Streamed ∧
      ({ s.answer J n v with responder := Function.update s.responder n r } :
        State J.Value).Served := by
  obtain ⟨hserved, -⟩ := h.answer hw (v := v) (h.held n hheld).2
  have hstreamed := hstream.answer hw (n := n) hv
  refine ⟨hstreamed.congr rfl rfl rfl rfl rfl hstreamed.empty, hserved.numbers, hserved.reading,
    hserved.asking, fun m hm => hserved.held m ?_, hserved.bound, hserved.lines, hserved.requests,
    hserved.gone, hserved.returned,
    hserved.waits, hserved.probes, hserved.asks, hserved.here⟩
  rw [responder_answer]
  rcases eq_or_ne m n with rfl | hne
  · exact hheld
  · change Function.update s.responder n r m ≠ .none at hm
    rwa [Function.update_of_ne hne] at hm

/-- The socket has moved, and the server has not: the probe of a client that stays goes from
    `waiting` to `waiting`. -/
theorem Served.moved (h : s.Served) {k : Control.Socket}
    (hidle : s.server = .reading → k.asker = .idle) (hasks : ∀ n, s.server = .asking n →
      k.asker ≠ .idle) (hgone : k.asker ≠ .gone) : (s.moved k).Served := by
  have hserver : s.moved k = { s with socket := k } := by
    rw [State.moved, if_neg hgone]
  rw [hserver]
  exact ⟨h.numbers, h.reading, h.asking, h.held, h.bound, h.lines, h.requests, h.gone, h.returned,
    h.waits, hidle, hasks, hgone⟩

/-- A step of a probe that is under way: the server does not read meanwhile. -/
theorem Served.probed (h : s.Served) {k : Control.Socket} (hasker : s.socket.asker ≠ .idle)
    (hidle : k.asker ≠ .idle) (hgone : k.asker ≠ .gone) : (s.moved k).Served :=
  h.moved (fun hr => absurd (h.probes hr) hasker) (fun _ _ => hidle) hgone

/-- The writer thread puts octets into the send buffer: the client has the same before it. -/
theorem put_sound (hstream : s.Streamed) (h : s.Served) (n : Nat) {rest : Bytes}
    (hrest : s.socket.writer.rest = rest) {next : Bytes → Control.Writer}
    (hnext : ∀ r, (next r).rest = r) :
    (s.moved (s.socket.put n rest next)).Streamed ∧
    (s.moved (s.socket.put n rest next)).Served := by
  have hahead := Control.ahead_put s.socket n rest hnext
  refine ⟨hstream.congr rfl ?_ rfl rfl rfl hstream.empty, h.moved h.probes h.asks h.here⟩
  rw [← hrest] at hahead ⊢
  exact congrArg (fun transit => (⟨s.reader.part, s.reader.buffer, transit⟩ : LineReader UInt8))
    hahead

/-- **A step of the writer thread or of the probe.** -/
theorem wire_sound {cap : Nat} {a : Control.Event} {k : Control.Socket} (hstream : s.Streamed)
    (h : s.Served) (hp : Control.Placed s.socket) (hwired : s.Wired a)
    (hspared : Control.Spared cap s.socket a) (hs : (Control.socket cap).step s.socket a = some k) :
    (s.moved k).Streamed ∧ (s.moved k).Served := by
  cases a with
  | send _ | drain _ | ask | answered => exact hwired.elim
  -- the writer takes the next line: from the queue into flight
  | next =>
    dsimp only [Control.socket] at hs
    split at hs
    · rename_i line queue hwriter hqueue
      cases hs
      obtain ⟨front, flight, waiting, hlog, hdue, hwaiting, hrest⟩ := hstream.split
      obtain ⟨i, waiting, rfl, rfl, rfl⟩ := List.map_eq_cons_iff.mp (hwaiting.symm.trans hqueue)
      have hone := (hstream.fits i (by rw [hlog]; simp)).newline_notMem
      refine ⟨⟨hstream.fits, ⟨front, flight ++ [i], waiting, ?_, ?_, rfl, hrest⟩, hstream.empty⟩,
        h.moved h.probes h.asks h.here⟩
      · show s.log = _
        rw [hlog]
        simp
      · rw [List.map_append]
        have hsent := hdue.post hone
        have htransit : s.ahead.transit = s.socket.buffer := by
          show s.socket.buffer ++ s.socket.writer.rest = _
          rw [hwriter]
          exact List.append_nil _
        rw [LineReader.post, LineReader.send, htransit] at hsent
        exact hsent
    · cases hs
  | write n =>
    dsimp only [Control.socket] at hs
    split at hs
    · rename_i rest hwriter
      have hrest : s.socket.writer.rest = rest := by
        rw [hwriter]
        rfl
      -- a full buffer lets the writer wait; the condition on the run excludes the failing write
      split at hs
      · obtain ⟨-, ⟨⟩⟩ := Option.ite_none_right_eq_some.mp hs
        exact put_sound hstream h n hrest fun r => by split <;> rfl
      · rename_i hfull
        split at hs
        · -- the writer would fail
          exact absurd (hspared ‹_›) hfull
        · cases hs
          refine ⟨hstream.congr rfl ?_ rfl rfl rfl hstream.empty, h.moved h.probes h.asks h.here⟩
          rw [← hrest]
          rfl
    · cases hs
  | copy n =>
    dsimp only [Control.socket] at hs
    split at hs
    · rename_i rest hwriter
      obtain ⟨-, ⟨⟩⟩ := Option.ite_none_right_eq_some.mp hs
      exact put_sound hstream h n (by rw [hwriter]; rfl) fun r => rfl
    · cases hs
  | setNonblocking ok =>
    obtain ⟨hasker, ⟨⟩⟩ := Option.ite_none_right_eq_some.mp hs
    refine ⟨hstream.congr rfl rfl rfl rfl rfl hstream.empty, h.probed (by simp [hasker]) ?_ ?_⟩
    all_goals cases ok <;> simp
  | peek r =>
    obtain ⟨hasker, ⟨⟩⟩ := Option.ite_none_right_eq_some.mp hs
    refine ⟨hstream.congr rfl rfl rfl rfl rfl hstream.empty, h.probed (by simp [hasker]) ?_ ?_⟩
    all_goals simp
  | setBlocking =>
    dsimp only [Control.socket] at hs
    split at hs
    · rename_i hasker
      cases hs
      refine ⟨hstream.congr rfl rfl rfl rfl rfl hstream.empty, h.probed (by simp [hasker]) ?_ ?_⟩
      all_goals simp
    · rename_i hasker
      exact absurd hasker hp.found
    · cases hs

/-- **The step**, of the stream and the requests. -/
theorem step_sound (herr : ∀ why, Failure parse why → Fits J false (error J why)) {cap : Nat}
    {a : Event J.Value} (hstream : s.Streamed) (h : s.Served) (hh : Control.Healthy s.socket)
    (hp : Control.Placed s.socket) (hpolite : Polite J a) (hkept : Kept cap s a)
    (hs : (connection J parse cap).step s a = some u) :
    u.Streamed ∧ u.Served := by
  have hcount : s.caller = .idle → s.results.length = s.lines.length := fun hidle =>
    h.returned (by rw [hidle]; nofun)
  cases a with
  | request line =>
    obtain ⟨hidle, hu⟩ := Option.ite_none_right_eq_some.mp hs
    obtain rfl := Option.some.inj hu
    exact ⟨hstream.congr rfl rfl rfl rfl rfl nofun,
      h.request hpolite.1 (valid_trim line.valid) (trim_line_ne_nil hpolite.2) (hcount hidle)⟩
  | nextEvent =>
    obtain ⟨hidle, hu⟩ := Option.ite_none_right_eq_some.mp hs
    cases hevents : s.events with
    | nil =>
      simp only [hevents] at hu
      obtain rfl := Option.some.inj hu
      refine ⟨hstream.congr rfl rfl rfl rfl (by rw [hevents]) fun _ => rfl, ?_⟩
      exact h.client .listening s.reader [] s.seen s.results (fun _ => hcount hidle) nofun
    | cons e events =>
      simp only [hevents] at hu
      obtain rfl := Option.some.inj hu
      refine ⟨hstream.congr rfl rfl rfl rfl (by rw [hevents]; simp)
        (fun hc => nomatch hidle.symm.trans hc), ?_⟩
      exact h.client s.caller s.reader events (s.seen ++ [e]) s.results h.returned h.waits
  | read =>
    obtain ⟨hready, hu⟩ := Option.ite_none_left_eq_some.mp hs
    rcases hread : s.reader.readUntil newline with ⟨line, r⟩
    cases line with
    | none =>
      rw [hread] at hu
      obtain rfl := Option.some.inj hu
      obtain ⟨front, flight, waiting, hlog, hdue, hrest⟩ := hstream.split
      refine ⟨⟨hstream.fits,
        ⟨front, flight, waiting, hlog, hdue.readUntil_none (ahead_read hread), hrest⟩,
        hstream.empty⟩, ?_⟩
      exact h.client s.caller r s.events s.seen s.results h.returned h.waits
    | some l =>
      rw [hread] at hu
      obtain rfl := Option.some.inj hu
      exact message_sound hstream h (fun hidle => hready (.inl hidle)) hread
  -- nothing came in time: the client is as it was, but idle
  | timeout =>
    obtain ⟨⟨hlistening, -⟩, hu⟩ := Option.ite_none_right_eq_some.mp hs
    obtain rfl := Option.some.inj hu
    refine ⟨hstream.congr rfl rfl rfl rfl rfl nofun, ?_⟩
    exact h.client .idle s.reader s.events s.seen s.results
      (fun _ => h.returned (by rw [hlistening]; nofun)) nofun
  | arrive k =>
    obtain ⟨socket, hdrain, rfl⟩ := Option.map_eq_some_iff.mp hs
    obtain ⟨hle, ⟨⟩⟩ := Option.ite_none_right_eq_some.mp hdrain
    obtain ⟨front, flight, waiting, hlog, hdue, hrest⟩ := hstream.split
    refine ⟨⟨hstream.fits, ⟨front, flight, waiting, hlog, ?_, hrest⟩, hstream.empty⟩, ?_⟩
    · -- what arrives is the front of what is under way
      have harrive := hdue.arrive k
      rw [LineReader.arrive] at harrive
      have htake : (s.socket.buffer ++ s.socket.writer.rest).take k = s.socket.buffer.take k :=
        List.take_append_of_le_length hle
      have hdrop : (s.socket.buffer ++ s.socket.writer.rest).drop k =
          s.socket.buffer.drop k ++ s.socket.writer.rest := List.drop_append_of_le_length hle
      show LineReader.Due newline ⟨s.reader.part, s.reader.buffer ++ s.socket.buffer.take k,
        s.socket.buffer.drop k ++ s.socket.writer.rest⟩ _
      rw [← htake, ← hdrop]
      exact harrive
    · exact ⟨h.numbers, h.reading, h.asking, h.held, h.bound, h.lines, h.requests, h.gone,
        h.returned, h.waits, h.probes, h.asks, h.here⟩
  | eof =>
    obtain ⟨⟨-, hshut, -⟩, -⟩ := Option.ite_none_right_eq_some.mp hs
    -- in a healthy run nobody shuts the connection down, so no end is read
    rw [hh.unshut] at hshut
    cases hshut
  | arriveRequest k =>
    obtain rfl := Option.some.inj hs
    refine ⟨hstream.congr rfl rfl rfl rfl rfl hstream.empty, h.numbers, h.reading, h.asking, h.held,
      h.bound, h.lines, fun hserver => ?_, h.gone, h.returned, h.waits, h.probes, h.asks, h.here⟩
    obtain ⟨hpart, hdue, htaken⟩ := h.requests hserver
    exact ⟨hpart, hdue.arrive k, htaken⟩
  | receive =>
    obtain ⟨hreading, hu⟩ := Option.ite_none_right_eq_some.mp hs
    exact receive_sound herr hh.writes hh.unshut hreading hstream h hu
  | wake =>
    cases hserver : s.server with
    | asking n =>
      simp only [connection, hserver] at hs
      obtain ⟨⟨hdone, -⟩, hu⟩ := Option.ite_none_right_eq_some.mp hs
      obtain rfl := Option.some.inj hu
      exact ⟨hstream.congr rfl rfl rfl rfl rfl hstream.empty, h.next hserver hdone⟩
    -- the other states of the server have no such step
    | _ => simp only [connection, hserver] at hs; cases hs
  | deadline =>
    cases hserver : s.server with
    | asking n =>
      simp only [connection, hserver] at hs
      obtain ⟨-, hu⟩ := Option.ite_none_left_eq_some.mp hs
      obtain rfl := Option.some.inj hu
      -- the late text is the answer, and the server goes on with the next line
      obtain ⟨hserved, hdone⟩ := h.answer hh.writes (v := error J lateText) (.inr hserver)
      have hstreamed := hstream.answer hh.writes (n := n) (herr lateText (.inr (.inl rfl)))
      refine ⟨hstreamed.congr rfl rfl rfl rfl rfl hstreamed.empty, hserved.next ?_ hdone⟩
      rw [server_answer, hserver]
    | _ => simp only [connection, hserver] at hs; cases hs
  | send n v =>
    obtain ⟨⟨hheld, -⟩, hu⟩ := Option.ite_none_right_eq_some.mp hs
    obtain rfl := Option.some.inj hu
    refine answered_sound hh.writes hstream h hpolite .sent fun hnone => ?_
    rw [hheld] at hnone
    cases hnone
  | drop n =>
    obtain ⟨⟨hheld, -⟩, hu⟩ := Option.ite_none_right_eq_some.mp hs
    obtain rfl := Option.some.inj hu
    exact answered_sound hh.writes hstream h (herr droppedText (.inl rfl)) .none hheld
  | emit v =>
    obtain rfl := Option.some.inj hs
    -- an event is one more item in the queue; the replies are the same ones
    refine ⟨hstream.sink hh.writes (i := .event v) hpolite, ?_⟩
    have hsame : (s.sink J (.event v)).replies = s.replies := by
      rw [replies_sink hh.writes]
      exact List.append_nil _
    exact ⟨hsame ▸ h.numbers, hsame ▸ h.reading, hsame ▸ h.asking, h.held, hsame ▸ h.bound, h.lines,
      h.requests, h.gone, h.returned, h.waits, fun hr => (asker_sink _).trans (h.probes hr),
      fun n hn => (asker_sink _).trans_ne (h.asks n hn),
      (asker_sink _).trans_ne h.here⟩
  | wire a =>
    obtain ⟨hwired, hmoved⟩ := Option.ite_none_right_eq_some.mp hs
    obtain ⟨k, hk, rfl⟩ := Option.map_eq_some_iff.mp hmoved
    exact wire_sound hstream h hp hwired hkept hk

/-! ### The socket -/

section Socket

variable {cap : Nat}

/-- Taking a request does not touch the socket. -/
theorem socket_message (line : Bytes) : (s.message J line).socket = s.socket := by
  unfold message
  split <;> try split
  all_goals rfl

/-- A line put into the socket is a run of the socket machine. -/
theorem reach_sink (i : Item J.Value) :
    (Control.socket cap).Reach (Control.Spared cap) s.socket (s.sink J i).socket :=
  .step (a := .send (i.line J)) .refl trivial rfl

/-- So is an answer. -/
theorem reach_answer (n : Nat) (v : J.Value) :
    (Control.socket cap).Reach (Control.Spared cap) s.socket (s.answer J n v).socket := by
  unfold answer
  split
  · exact .refl
  · exact reach_sink (.reply n v)

/-- The reply is there, and `ask_window` returns. -/
theorem reach_resume (hasker : s.socket.asker = .waiting) :
    (Control.socket cap).Reach (Control.Spared cap) s.socket s.resume.socket :=
  .step (a := .answered) .refl trivial (if_pos hasker)

/-- So is a request that is served. -/
theorem reach_serve (hidle : s.socket.asker = .idle) (requests : LineReader UInt8) (line : Bytes) :
    (Control.socket cap).Reach (Control.Spared cap) s.socket
      (({ s with requests := requests } : State J.Value).serve J parse line).socket := by
  unfold serve
  split
  · exact .refl
  · split
    · exact .refl
    · split
      · exact reach_sink (.reply s.taken.length (error J _))
      · exact .step (a := .ask) .refl trivial (if_pos hidle)

/-- So is a request that comes when no more are taken. -/
theorem reach_cutOff (requests : LineReader UInt8) (line : Bytes) :
    (Control.socket cap).Reach (Control.Spared cap) s.socket
      (({ s with requests := requests } : State J.Value).cutOff J line).socket := by
  unfold cutOff
  split
  · exact .refl
  · exact reach_sink (.reply s.taken.length (error J tooLongText))

/-- So is what the server receives. -/
theorem reach_receive (hidle : s.socket.asker = .idle) (hs : s.receive J parse = some u) :
    (Control.socket cap).Reach (Control.Spared cap) s.socket u.socket := by
  unfold receive at hs
  dsimp only at hs
  split at hs
  · split at hs
    · cases hs
      exact reach_serve hidle _ _
    · cases hs
      exact reach_cutOff _ _
  · split at hs
    · cases hs
      exact reach_cutOff _ _
    · split at hs
      · cases hs
      · split at hs
        · cases hs
          exact .refl
        · cases hs
          exact reach_serve hidle _ _

/-- **Each step is a run of the socket.** -/
theorem socket_reach {a : Event J.Value} (h : s.Served) (hkept : Kept cap s a)
    (hs : (connection J parse cap).step s a = some u) :
    (Control.socket cap).Reach (Control.Spared cap) s.socket u.socket := by
  cases a with
  | request line =>
    obtain ⟨-, ⟨⟩⟩ := Option.ite_none_right_eq_some.mp hs
    exact .refl
  | nextEvent =>
    obtain ⟨-, hu⟩ := Option.ite_none_right_eq_some.mp hs
    split at hu <;> cases hu <;> exact .refl
  | read =>
    obtain ⟨-, hu⟩ := Option.ite_none_left_eq_some.mp hs
    split at hu
    · cases hu
      exact .refl
    -- what the client makes of the line is its own affair
    · cases hu
      rw [socket_message]
      exact .refl
  | timeout =>
    obtain ⟨-, ⟨⟩⟩ := Option.ite_none_right_eq_some.mp hs
    exact .refl
  | arrive k =>
    obtain ⟨socket, hdrain, rfl⟩ := Option.map_eq_some_iff.mp hs
    exact .step (a := .drain k) .refl trivial hdrain
  | eof =>
    obtain ⟨-, ⟨⟩⟩ := Option.ite_none_right_eq_some.mp hs
    exact .refl
  | arriveRequest k =>
    cases hs
    exact .refl
  | receive =>
    obtain ⟨hreading, hu⟩ := Option.ite_none_right_eq_some.mp hs
    exact reach_receive (h.probes hreading) hu
  | wake =>
    dsimp only [connection] at hs
    split at hs
    · obtain ⟨⟨-, hasker⟩, ⟨⟩⟩ := Option.ite_none_right_eq_some.mp hs
      exact reach_resume hasker
    · cases hs
  | deadline =>
    dsimp only [connection] at hs
    split at hs
    -- an answer and the waking, in one step of the server
    · obtain ⟨hwaits, ⟨⟩⟩ := Option.ite_none_left_eq_some.mp hs
      rw [not_or, not_not] at hwaits
      exact (reach_answer _ _).trans (reach_resume ((asker_answer _ _).trans hwaits.2))
    · cases hs
  | send n v | drop n =>
    obtain ⟨-, ⟨⟩⟩ := Option.ite_none_right_eq_some.mp hs
    exact reach_answer n _
  | emit v =>
    cases hs
    exact reach_sink (.event v)
  | wire a =>
    obtain ⟨-, hmoved⟩ := Option.ite_none_right_eq_some.mp hs
    obtain ⟨k, hk, rfl⟩ := Option.map_eq_some_iff.mp hmoved
    exact .step .refl hkept hk

end Socket

/-- Nothing has been written. -/
theorem streamed_init : (State.init : State J.Value).Streamed :=
  ⟨nofun, ⟨[], [], [], rfl, .empty, rfl, rfl, rfl⟩, nofun⟩

/-- Nothing has been asked. -/
theorem served_init : (State.init : State J.Value).Served where
  numbers := rfl
  reading := fun _ => rfl
  asking := nofun
  held := fun _ hn => absurd rfl hn
  bound := Nat.le_refl 0
  lines := nofun
  requests := fun _ => ⟨rfl, .empty, rfl⟩
  gone := nofun
  returned := fun _ => rfl
  waits := nofun
  probes := fun _ => rfl
  asks := nofun
  here := nofun

/-! ## The end of the work -/

/-- What the server has still to do. -/
def serverWork (s : State J.Value) : Nat :=
  4 * (s.lines.length - s.taken.length) + min 1 s.requests.transit.length + s.server.work +
    askerWork s.socket.asker

/-- The messages that the client has still to read. -/
def unread (s : State J.Value) : Nat :=
  (s.ahead.part ++ s.ahead.buffer ++ s.ahead.transit).count newline +
    s.socket.queue.flatten.count newline

/-- What the writer and the client have still to do.  An octet is taken off the queue, put into the
    send buffer, and drained; then its message is read. -/
def clientWork (s : State J.Value) : Nat :=
  3 * s.socket.queue.flatten.length + 2 * s.socket.writer.rest.length + s.socket.buffer.length +
    (4 * s.unread + 2 * s.events.length + s.caller.work)

/-- All that was asked for or queued is read. -/
def Settled (s : State J.Value) : Prop :=
  s.caller = .idle ∧ s.results.length = s.lines.length ∧
    s.seen.map some = (s.log.filterMap Item.event?).map (readBack J)

variable {cap : Nat}

/-- A step that is not a call of the client or the window.  The server's own replies are more work
    for the client, so the server's work counts first. -/
structure Advance (parse : Bytes → Except Bytes κ) (cap : Nat) (s u : State J.Value) : Prop where
  step : ∃ a, Polite J a ∧ Kept cap s a ∧ (connection J parse cap).step s a = some u
  lines : u.lines = s.lines
  less : u.serverWork < s.serverWork ∨ u.serverWork = s.serverWork ∧ u.clientWork < s.clientWork

/-- An answer takes no request. -/
theorem lines_answer (n : Nat) (v : J.Value) :
    (s.answer J n v).lines = s.lines ∧ (s.answer J n v).taken = s.taken ∧
    (s.answer J n v).requests = s.requests := by
  unfold answer
  split <;> exact ⟨rfl, rfl, rfl⟩

/-- A step of the socket is one of the connection. -/
theorem step_wire {a : Control.Event} {k : Control.Socket} (hwired : s.Wired a)
    (hk : (Control.socket cap).step s.socket a = some k) :
    (connection J parse cap).step s (.wire a) = some (s.moved k) := by
  show (if s.Wired a then ((Control.socket cap).step s.socket a).map s.moved else none) = _
  rw [if_pos hwired, hk]
  rfl

/-! ### The server -/

/-- The server takes up the request that has arrived. -/
theorem receive_advance (hw : s.socket.writer ≠ .failed) (h : s.Served)
    (hshort : ∀ l ∈ s.lines, l.length < maxLine) (hserver : s.server = .reading)
    (hlt : s.taken.length < s.lines.length) (harrived : s.requests.transit = []) :
    ∃ u, Advance parse cap s u := by
  obtain ⟨hpart, hdue, -⟩ := h.requests (by rw [hserver]; nofun)
  have hne : s.lines.drop s.taken.length ≠ [] := by
    rw [Ne, List.drop_eq_nil_iff]
    omega
  -- the next line has arrived, so the reader has it whole
  obtain ⟨l, r, hread⟩ := hdue.readUntil_ready hne harrived
  cases hsplit : splitOnce newline s.requests.buffer with
  | none =>
    rw [LineReader.readUntil, hsplit] at hread
    cases hread
  | some p =>
    obtain ⟨l, rest⟩ := p
    obtain ⟨-, hmem, -, -⟩ := h.next_line hserver hsplit
    obtain ⟨-, hvalid, hblank⟩ := h.lines l hmem
    have hvalid' : Valid (l ++ [newline]) := hvalid.append (by decide)
    have hreceive : s.receive J parse = some
        (({ s with requests := { s.requests with buffer := rest } } : State J.Value).serve J parse
          (l ++ [newline])) := by
      unfold receive
      simp only [hsplit]
      exact if_pos (hshort l hmem)
    have hidle : askerWork s.socket.asker = 0 := by rw [h.probes hserver]; rfl
    refine ⟨_, ⟨.receive, trivial, trivial, (if_pos hserver).trans hreceive⟩, ?_, .inl ?_⟩
    · unfold serve
      -- by the client's own rules it is UTF-8 and not blank, and it is taken up
      rw [if_neg (not_not_intro hvalid'), if_neg hblank]
      cases parse (trim (l ++ [newline])) <;> rfl
    · unfold serve
      rw [if_neg (not_not_intro hvalid'), if_neg hblank]
      cases parse (trim (l ++ [newline])) with
      | error e =>
        -- one request fewer is untaken, which weighs more than the reply's way through the socket
        show 4 * (s.lines.length - (s.taken ++ [_]).length) + min 1 s.requests.transit.length +
          (if s.socket.writer = .failed then Server.gone else s.server).work +
          askerWork (s.socket.send _).asker < _
        have hasker : (s.socket.send (Item.line J (.reply s.taken.length (error J e)))).asker =
            s.socket.asker :=
          asker_sink (.reply s.taken.length (error J e))
        rw [List.length_append, List.length_singleton, if_neg hw]
        rw [show (s.socket.send _).asker = s.socket.asker from hasker]
        unfold serverWork
        omega
      | ok command =>
        -- the window is asked: the server waits from now on
        show 4 * (s.lines.length - (s.taken ++ [_]).length) + min 1 s.requests.transit.length +
            1 + 0 < _
        rw [List.length_append, List.length_singleton]
        unfold serverWork
        omega

/-- A probe that is under way comes a step further; there is nothing that it could read. -/
theorem probe_advance (hp : Control.Placed s.socket)
    (hprobe : s.socket.asker = .probing ∨ ∃ closed, s.socket.asker = .peeked closed) :
    ∃ u, Advance parse cap s u := by
  rcases hprobe with hasker | ⟨closed, hasker⟩
  · have hstep : (Control.socket cap).step s.socket (.peek .wouldBlock) =
        some { s.socket with asker := .peeked false } := if_pos hasker
    refine ⟨s.moved { s.socket with asker := .peeked false },
      ⟨.wire (.peek .wouldBlock), trivial, rfl, step_wire trivial hstep⟩, rfl, .inl ?_⟩
    show 4 * (s.lines.length - s.taken.length) + min 1 s.requests.transit.length +
        s.server.work + 1 < _
    unfold serverWork
    rw [hasker]
    exact Nat.lt_succ_self _
  · -- the client has not gone, so the probe has not found that it has
    obtain rfl : closed = false := by
      cases closed with
      | false => rfl
      | true => exact absurd hasker hp.found
    have hstep : (Control.socket cap).step s.socket .setBlocking =
        some { s.socket with nonblocking := false, asker := .waiting } := by
      simp only [Control.socket, hasker]
    refine ⟨s.moved { s.socket with nonblocking := false, asker := .waiting },
      ⟨.wire .setBlocking, trivial, trivial, step_wire trivial hstep⟩, rfl, .inl ?_⟩
    show 4 * (s.lines.length - s.taken.length) + min 1 s.requests.transit.length +
        s.server.work + 0 < _
    unfold serverWork
    rw [hasker]
    exact Nat.lt_succ_self _

/-- The server comes to an end with what it has. -/
theorem server_advance (hw : s.socket.writer ≠ .failed) (hp : Control.Placed s.socket)
    (h : s.Served) (hshort : ∀ l ∈ s.lines, l.length < maxLine)
    (hwork : s.server ≠ .reading ∨ s.taken.length < s.lines.length) :
    ∃ u, Advance parse cap s u := by
  cases hserver : s.server with
  | gone =>
    obtain ⟨l, hl, hlong⟩ := h.gone hserver
    have := hshort l hl
    omega
  | asking n =>
    have hbusy : s.server.work = 1 := by rw [hserver]; rfl
    cases hasker : s.socket.asker with
    | idle => exact absurd hasker (h.asks n hserver)
    | gone => exact absurd hasker h.here
    | waiting =>
      cases hdone : s.done n with
      | true =>
        refine ⟨s.resume, ⟨.wake, trivial, trivial, ?_⟩, rfl, .inl ?_⟩
        · simp only [connection, hserver]
          exact if_pos ⟨hdone, hasker⟩
        · show 4 * (s.lines.length - s.taken.length) + min 1 s.requests.transit.length + 0 + 0 < _
          unfold serverWork
          omega
      | false =>
        obtain ⟨hlines, htaken, hrequests⟩ := lines_answer (s := s) n (error J lateText)
        refine ⟨(s.answer J n (error J lateText)).resume, ⟨.deadline, trivial, trivial, ?_⟩, hlines,
          .inl ?_⟩
        · simp only [connection, hserver]
          exact if_neg (by simp [hdone, hasker])
        · show 4 * ((s.answer J n (error J lateText)).lines.length -
              (s.answer J n (error J lateText)).taken.length) +
            min 1 (s.answer J n (error J lateText)).requests.transit.length + 0 + 0 < _
          rw [hlines, htaken, hrequests]
          unfold serverWork
          omega
    -- a probe that is under way is finished first
    | probing => exact probe_advance hp (.inl hasker)
    | peeked closed => exact probe_advance hp (.inr ⟨closed, hasker⟩)
  | reading =>
    have hlt := hwork.resolve_left (not_not_intro hserver)
    rcases eq_or_ne s.requests.transit [] with harrived | hcoming
    · exact receive_advance hw h hshort hserver hlt harrived
    · refine ⟨{ s with requests := s.requests.arrive s.requests.transit.length },
        ⟨.arriveRequest _, trivial, trivial, rfl⟩, rfl, .inl ?_⟩
      show 4 * (s.lines.length - s.taken.length) +
        min 1 (s.requests.transit.drop s.requests.transit.length).length +
        s.server.work + askerWork s.socket.asker < _
      have hpos := List.length_pos_of_ne_nil hcoming
      rw [List.drop_length, List.length_nil]
      unfold serverWork
      omega

/-! ### The writer and the client -/

/-- Reading on keeps what is under way. -/
theorem reader_message (line : Bytes) :
    (s.message J line).reader = s.reader ∧ (s.message J line).socket = s.socket ∧
      (s.message J line).serverWork = s.serverWork ∧ (s.message J line).lines = s.lines := by
  unfold message
  split <;> try split
  all_goals exact ⟨rfl, rfl, rfl, rfl⟩

/-- A message is kept, or ends the call. -/
theorem clientWork_message (line : Bytes) : (s.message J line).clientWork ≤ s.clientWork + 3 := by
  have hone : s.caller.work ≤ 1 := by cases s.caller <;> decide
  obtain ⟨hreader, hsocket, -, -⟩ := reader_message (s := s) line
  have hmore : 2 * (s.message J line).events.length + (s.message J line).caller.work ≤
      2 * s.events.length + 3 := by
    have hidle : Caller.idle.work = 1 := rfl
    unfold message
    split <;> try split
    all_goals simp [hidle]
    all_goals omega
  unfold clientWork unread ahead
  rw [hreader, hsocket]
  omega

/-- The lines yet to be read are those in the queue and those that the reader has begun. -/
theorem unread_eq {ls : List Bytes} (hdue : s.ahead.Due newline ls) :
    s.unread = ls.length + s.socket.queue.flatten.count newline := by
  rw [unread, hdue.stream, count_joinLines hdue.whole]

/-- The client reads the next message. -/
theorem message_advance (hcaller : s.caller ≠ .idle) {ls : List Bytes}
    (hdue : s.ahead.Due newline ls) (hls : ls ≠ []) (harrived : s.ahead.transit = []) :
    ∃ u, Advance parse cap s u := by
  obtain ⟨l, r', hahead⟩ := hdue.readUntil_ready hls harrived
  obtain ⟨line, r, hread⟩ : ∃ line r, s.reader.readUntil newline = (line, r) := ⟨_, _, rfl⟩
  obtain ⟨rfl, rfl⟩ := Prod.mk.inj ((ahead_read hread).symm.trans hahead)
  obtain ⟨ls, rfl, hdue', -⟩ := hdue.readUntil_some hahead
  have hbuffer : s.reader.buffer ≠ [] := by
    intro hnil
    rw [LineReader.readUntil, hnil] at hread
    cases hread
  obtain ⟨-, -, hserver, hlines⟩ := reader_message (s := { s with reader := r }) (l ++ [newline])
  refine ⟨({ s with reader := r } : State J.Value).message J (l ++ [newline]),
    ⟨.read, trivial, trivial, ?_⟩, hlines, .inr ⟨hserver, ?_⟩⟩
  · simp only [connection, if_neg (not_or_intro hcaller hbuffer), hread]
  · have hclient := clientWork_message (s := { s with reader := r }) (l ++ [newline])
    have hu := unread_eq hdue
    have hu' := unread_eq (s := { s with reader := r }) hdue'
    have hrest : ({ s with reader := r } : State J.Value).clientWork + 4 = s.clientWork := by
      rw [List.length_cons] at hu
      show 3 * s.socket.queue.flatten.length + 2 * s.socket.writer.rest.length +
          s.socket.buffer.length +
        (4 * ({ s with reader := r } : State J.Value).unread + 2 * s.events.length +
          s.caller.work) + 4 = _
      rw [hu', clientWork, hu]
      show _ + (4 * (ls.length + s.socket.queue.flatten.count newline) + _ + _) + 4 = _
      omega
    omega

/-- `next_event` returns an event that was kept. -/
theorem keep_advance (hidle : s.caller = .idle) {e : J.Value} {events : List J.Value}
    (hevents : s.events = e :: events) :
    ∃ u, Advance parse cap s u := by
  refine ⟨{ s with events := events, seen := s.seen ++ [e] }, ⟨.nextEvent, trivial, trivial, ?_⟩,
    rfl, .inr ⟨rfl, ?_⟩⟩
  · simp only [connection, hidle, hevents, if_true]
  · refine Nat.add_lt_add_left ?_ _
    show 4 * s.unread + 2 * events.length + s.caller.work < 4 * s.unread + 2 * s.events.length +
        s.caller.work
    rw [hevents, List.length_cons]
    omega

/-- What is in the send buffer arrives. -/
theorem arrive_advance (hbuffer : s.socket.buffer ≠ []) : ∃ u, Advance parse cap s u := by
  refine ⟨{ s with
    socket := { s.socket with
      buffer := s.socket.buffer.drop s.socket.buffer.length
      taken := s.socket.taken ++ s.socket.buffer.take s.socket.buffer.length }
    reader := { s.reader with
      buffer := s.reader.buffer ++ s.socket.buffer.take s.socket.buffer.length } },
    ⟨.arrive s.socket.buffer.length, trivial, trivial, ?_⟩, rfl, .inr ⟨rfl, ?_⟩⟩
  · show ((Control.socket cap).step s.socket (.drain s.socket.buffer.length)).map _ = _
    rw [show (Control.socket cap).step s.socket (.drain s.socket.buffer.length) = _ from if_pos
      (Nat.le_refl _)]
    rfl
  · have hpos := List.length_pos_of_ne_nil hbuffer
    rw [List.drop_length, List.take_length]
    unfold clientWork unread ahead
    simp only [List.count_append, List.length_nil, List.count_nil]
    omega

/-- The writer thread goes on with its line. -/
theorem write_advance (hcap : 0 < cap) (hp : Control.Placed s.socket)
    (hw : s.socket.writer ≠ .failed) (h : s.Served) (hbuffer : s.socket.buffer = [])
    (hbusy : s.socket.writer ≠ .idle) : ∃ u, Advance parse cap s u := by
  have hbegun : s.socket.writer.rest ≠ [] := (hp.begun.resolve_left hbusy).resolve_left hw
  -- the writer is between two writes, or in one
  have hplace : s.socket.writer = .ready s.socket.writer.rest ∨
      s.socket.writer = .writing s.socket.writer.rest := by
    cases hwriter : s.socket.writer with
    | idle => exact absurd hwriter hbusy
    | failed => exact absurd hwriter hw
    | ready rest => exact .inl rfl
    | writing rest => exact .inr rfl
  obtain ⟨a, next, ha, hnext, hspared, hput⟩ := Control.advance hcap hbuffer hbegun hplace
  have hwired : s.Wired a := by
    obtain ⟨n, rfl | rfl⟩ := ha <;> trivial
  generalize hn : min s.socket.writer.rest.length cap = n at hput
  have hmoved : s.moved (s.socket.put n s.socket.writer.rest next) =
      { s with socket := s.socket.put n s.socket.writer.rest next } := by
    rw [moved, if_neg (show (s.socket.put n s.socket.writer.rest next).asker ≠ .gone from h.here)]
  refine ⟨s.moved (s.socket.put n s.socket.writer.rest next), ⟨.wire a, trivial, hspared,
    step_wire hwired hput⟩, rfl, .inr ?_⟩
  · have hahead := Control.ahead_put s.socket n s.socket.writer.rest fun r => (hnext r).1
    have hrest := Control.rest_put s.socket n s.socket.writer.rest fun r => (hnext r).1
    have hpos := List.length_pos_of_ne_nil hbegun
    -- octets go from the writer into the buffer, and a step there weighs one
    rw [hmoved]
    refine ⟨rfl, ?_⟩
    have hunread : State.unread { s with socket := s.socket.put n s.socket.writer.rest next } =
        s.unread := by
      unfold unread ahead
      dsimp only
      rw [hahead]
      rfl
    have hlen := congrArg List.length hahead
    rw [List.length_append, List.length_append, hrest, List.length_drop] at hlen
    show 3 * s.socket.queue.flatten.length + 2 *
        (s.socket.put n s.socket.writer.rest next).writer.rest.length +
      (s.socket.put n s.socket.writer.rest next).buffer.length +
        (4 * State.unread _ + 2 * s.events.length + s.caller.work) < _
    rw [hunread, hrest, List.length_drop, clientWork]
    omega

/-- The writer thread takes the next line. -/
theorem next_advance (hp : Control.Placed s.socket) (hidle : s.socket.writer = .idle) (h : s.Served)
    {line : Bytes} {queue : List Bytes} (hqueue : s.socket.queue = line :: queue) :
    ∃ u, Advance parse cap s u := by
  have hstep : (Control.socket cap).step s.socket .next =
      some { s.socket with queue := queue, writer := .ready line } := by
    simp only [Control.socket, hidle, hqueue]
  have hmoved : s.moved { s.socket with queue := queue, writer := .ready line } =
      { s with socket := { s.socket with queue := queue, writer := .ready line } } := by
    rw [moved, if_neg (show s.socket.asker ≠ .gone from h.here)]
  have hline : line ≠ [] := by
    rintro rfl
    exact hp.waiting (by rw [hqueue]; exact List.mem_cons_self)
  refine ⟨s.moved { s.socket with queue := queue, writer := .ready line },
    ⟨.wire .next, trivial, trivial, step_wire trivial hstep⟩, rfl, .inr ?_⟩
  rw [hmoved]
  refine ⟨rfl, ?_⟩
  have hpos := List.length_pos_of_ne_nil hline
  unfold clientWork unread ahead
  rw [hidle, hqueue]
  simp only [Control.Writer.rest, List.count_append, List.flatten_cons, List.length_append,
    List.length_nil, List.count_nil]
  omega

/-- The writer and the client come to an end with what is queued. -/
theorem client_advance (hcap : 0 < cap) (hh : Control.Healthy s.socket)
    (hp : Control.Placed s.socket) (hstream : s.Streamed) (h : s.Served)
    (hserver : s.server = .reading) (htaken : s.taken.length = s.lines.length)
    (hleft : ¬ s.Settled) :
    (∃ u, Advance parse cap s u) ∨
      ∃ u, (connection J parse cap).step s .timeout = some u ∧ u.lines = s.lines ∧ u.Settled := by
  obtain ⟨read, flight, waiting, hlog, hdue, hqueue, hresults, hseen⟩ := hstream.split
  -- first what is under way: octets in the buffer, then the writer's, then the queue
  by_cases hbuffer : s.socket.buffer = []
  swap
  · exact .inl (arrive_advance hbuffer)
  by_cases hidle : s.socket.writer = .idle
  swap
  · exact .inl (write_advance hcap hp hh.writes h hbuffer hidle)
  have harrived : s.ahead.transit = [] := by
    show s.socket.buffer ++ s.socket.writer.rest = []
    rw [hbuffer, hidle]
    rfl
  rcases waiting with _ | ⟨i, waiting⟩
  swap
  · exact .inl (next_advance hp hidle h hqueue)
  rcases eq_or_ne flight [] with rfl | hflight
  · -- all that was queued is read
    rw [List.append_nil, List.append_nil] at hlog
    have hall : s.results.length = s.replies.length := by
      rw [hresults, List.length_map, replies, hlog]
    have hreplies := h.reading hserver
    have hc : s.caller ≠ .requesting := by
      -- it has got every reply that there is
      intro hc
      have := h.waits hc
      omega
    have hnone : s.reader.buffer = [] := by
      have hstream := hdue.stream
      simp only [joinLines, List.map_nil, List.flatMap_nil, List.append_eq_nil_iff] at hstream
      exact hstream.1.2
    rcases hcaller : s.caller with _ | _ | _
    · rcases hevents : s.events with _ | ⟨e, events⟩
      · -- nothing is left
        refine absurd ⟨hcaller, by omega, ?_⟩ hleft
        rw [hevents, List.append_nil] at hseen
        rw [hseen, hlog]
      · exact .inl (keep_advance hcaller hevents)
    · exact absurd hcaller hc
    · -- the client has listened for nothing
      right
      refine ⟨{ s with caller := .idle }, if_pos ⟨hcaller, hnone⟩, rfl, rfl, ?_, ?_⟩
      · show s.results.length = s.lines.length
        omega
      · show s.seen.map some = (s.log.filterMap Item.event?).map (readBack J)
        rw [hstream.empty hcaller, List.append_nil] at hseen
        rw [hseen, hlog]
  · left
    -- a line has arrived whole, and somebody has to read it
    have hls : flight.map (Item.line J) ≠ [] := by rwa [Ne, List.map_eq_nil_iff]
    by_cases hc : s.caller = .idle
    · rcases hevents : s.events with _ | ⟨e, events⟩
      · -- `next_event` begins to read
        refine ⟨{ s with caller := .listening }, ⟨.nextEvent, trivial, trivial, ?_⟩, rfl,
          .inr ⟨rfl, ?_⟩⟩
        · simp only [connection, hc, hevents, if_true]
        · show _ + (4 * s.unread + 2 * s.events.length + 0) < _
          rw [clientWork, hc]
          exact Nat.lt_succ_self _
      · exact keep_advance hc hevents
    · exact message_advance hc hdue hls harrived

/-- Both ends come to an end. -/
theorem advance (hcap : 0 < cap) (hh : Control.Healthy s.socket) (hp : Control.Placed s.socket)
    (hstream : s.Streamed) (h : s.Served) (hshort : ∀ l ∈ s.lines, l.length < maxLine)
    (hleft : ¬ s.Settled) :
    (∃ u, Advance parse cap s u) ∨
      ∃ u, (connection J parse cap).step s .timeout = some u ∧ u.lines = s.lines ∧ u.Settled := by
  by_cases hwork : s.server ≠ .reading ∨ s.taken.length < s.lines.length
  · exact .inl (server_advance hh.writes hp h hshort hwork)
  · obtain ⟨hserver, hge⟩ := not_or.mp hwork
    have hserver := not_not.mp hserver
    have hle := h.taken_le (by rw [hserver]; nofun)
    exact client_advance hcap hh hp hstream h hserver (by omega) hleft

/-- What every state keeps of a run that meets the condition. -/
structure Sound (s : State J.Value) : Prop where
  streamed : s.Streamed
  served : s.Served
  healthy : Control.Healthy s.socket
  placed : Control.Placed s.socket

/-- The invariants hold at the start. -/
theorem sound_init : (State.init : State J.Value).Sound :=
  ⟨streamed_init, served_init, Control.healthy_init, Control.placed_init⟩

/-- **The step.** -/
theorem Sound.step (herr : ∀ why, Failure parse why → Fits J false (error J why))
    {a : Event J.Value} (h : s.Sound) (hpolite : Polite J a) (hkept : Kept cap s a)
    (hs : (connection J parse cap).step s a = some u) : u.Sound := by
  obtain ⟨hstreamed, hserved⟩ :=
    step_sound herr h.streamed h.served h.healthy h.placed hpolite hkept hs
  obtain ⟨hh, hp⟩ := h.healthy.reach h.placed (socket_reach h.served hkept hs)
  exact ⟨hstreamed, hserved, hh, hp⟩

/-- The steps of the writer, the server and the client end. -/
theorem settles (hcap : 0 < cap) (herr : ∀ why, Failure parse why → Fits J false (error J why))
    (h : s.Sound) (hshort : ∀ l ∈ s.lines, l.length < maxLine) :
    ∃ u, (connection J parse cap).Reach (fun s a => Polite J a ∧ Kept cap s a) s u ∧
    u.lines = s.lines ∧ u.Settled := by
  generalize hk : s.serverWork = k
  generalize hm : s.clientWork = m
  -- the server's work first, then the client's
  induction k using Nat.strong_induction_on generalizing s m with
  | _ k ihk =>
    induction m using Nat.strong_induction_on generalizing s with
    | _ m ihm =>
      by_cases hdone : s.Settled
      · exact ⟨s, .refl, rfl, hdone⟩
      · have hadvance : (∃ u, Advance parse cap s u) ∨ _ :=
          advance hcap h.healthy h.placed h.streamed h.served hshort hdone
        rcases hadvance with
          ⟨t, ⟨⟨a, hpolite, hkept, hstep⟩, hlines, hless⟩⟩ | ⟨t, hstep, hlines, ht⟩
        · have ht := h.step herr hpolite hkept hstep
          obtain ⟨u, hr, hu, hsettled⟩ :
              ∃ u, (connection J parse cap).Reach (fun s a => Polite J a ∧ Kept cap s a) t u ∧
              u.lines = t.lines ∧ u.Settled := by
            rcases hless with hserver | ⟨hserver, hclient⟩
            · exact ihk _ (hk ▸ hserver) ht (hlines ▸ hshort) rfl _ rfl
            · exact ihm _ (hm ▸ hclient) ht (hlines ▸ hshort) (hserver.trans hk) rfl
          exact ⟨u, Reach.trans (.step .refl ⟨hpolite, hkept⟩ hstep) hr, hu.trans hlines, hsettled⟩
        · exact ⟨t, .step (a := .timeout) .refl ⟨trivial, trivial⟩ hstep, hlines, ht⟩

/-! ## What was returned -/

/-- A reply stands at its number. -/
theorem Served.number (h : s.Served) {front back : List (Item J.Value)} {n : Nat} {v : J.Value}
    (hlog : s.log = front ++ .reply n v :: back) : n = (front.filterMap Item.reply?).length := by
  have hreplies :
      s.replies = front.filterMap Item.reply? ++ (n, v) :: back.filterMap Item.reply? := by
    rw [replies, hlog, List.filterMap_append]
    rfl
  have hnum := h.numbers
  rw [hreplies, List.map_append, List.map_cons] at hnum
  have hget := congrArg (fun l => l[(front.filterMap Item.reply?).length]?) hnum
  simpa using hget

/-- The `n`-th request returns the reply with the number `n`. -/
theorem result_eq (hstream : s.Streamed) (h : s.Served) {n : Nat} {r : Option J.Value}
    (hr : s.results[n]? = some r) :
    ∃ v, Item.reply n v ∈ s.log ∧ r = readBack J v ∧ r.isSome = true := by
  obtain ⟨read, flight, waiting, hlog, -, -, hresults, -⟩ := hstream.split
  rw [hresults, List.getElem?_map, Option.map_eq_some_iff] at hr
  obtain ⟨⟨m, v⟩, hget, rfl⟩ := hr
  have hreplies : s.replies[n]? = some (m, v) := by
    rw [replies, hlog, List.filterMap_append,
      List.getElem?_append_left (List.getElem?_eq_some_iff.mp hget).1]
    exact hget
  have hm : m = n := by
    have hnum := congrArg (fun l => l[n]?) h.numbers
    rw [List.getElem?_map, hreplies, Option.map_some] at hnum
    obtain ⟨hlt, heq⟩ := List.getElem?_eq_some_iff.mp hnum.symm
    exact heq.symm.trans (List.getElem_range hlt)
  subst hm
  obtain ⟨i, hi, hreply⟩ := List.mem_filterMap.mp (List.mem_of_getElem? hget)
  cases i with
  | event w => cases hreply
  | reply k w =>
    cases hreply
    have hmem : Item.reply m v ∈ s.log := by
      rw [hlog]
      exact List.mem_append_left _ hi
    obtain ⟨w, hw, -⟩ := (Option.any_eq_true _ _).mp (hstream.fits _ hmem).2
    exact ⟨v, hmem, rfl, by rw [hw]; rfl⟩

/-- The events that were returned or kept are the first ones that were queued. -/
theorem events_eq (hstream : s.Streamed) :
    ∃ rest, (s.seen ++ s.events).map some ++ rest = (s.log.filterMap Item.event?).map
      (readBack J) := by
  obtain ⟨read, flight, waiting, hlog, -, -, -, hseen⟩ := hstream.split
  refine ⟨((flight ++ waiting).filterMap Item.event?).map (readBack J), ?_⟩
  rw [hseen, ← List.map_append, ← List.filterMap_append, ← hlog]

/-- Before its reply is returned, no event is that was queued after it. -/
theorem reply_first (hstream : s.Streamed) (h : s.Served) {front back : List (Item J.Value)}
    {n : Nat} {v : J.Value} (hlog : s.log = front ++ .reply n v :: back) :
    n < s.results.length ∨ (s.seen ++ s.events).length ≤ (front.filterMap Item.event?).length := by
  have hn := h.number hlog
  obtain ⟨read, flight, waiting, hsplit, -, -, hresults, hseen⟩ := hstream.split
  have hread : read <+: s.log := ⟨_, hsplit.symm⟩
  have hfront : front ++ [.reply n v] <+: s.log := ⟨back, by rw [hlog]; simp⟩
  rcases List.prefix_or_prefix_of_prefix hfront hread with hin | hout
  · left
    have hle := (hin.filterMap Item.reply?).length_le
    rw [List.filterMap_append, List.length_append] at hle
    rw [hresults, List.length_map]
    simp only [List.filterMap_cons, Item.reply?, List.filterMap_nil, List.length_singleton] at hle
    omega
  · rcases List.prefix_concat_iff.mp hout with heq | hbefore
    · left
      rw [hresults, List.length_map, heq, List.filterMap_append, List.length_append]
      simp only [List.filterMap_cons, Item.reply?, List.filterMap_nil, List.length_singleton]
      omega
    · right
      have hle := (hbefore.filterMap Item.event?).length_le
      have hlen := congrArg List.length hseen
      rw [List.length_map, List.length_map] at hlen
      omega

end State

/-! ## Runs -/

/-- What holds of the invariant's states at the beginning holds after every run. -/
theorem reach_sound {κ : Type} {parse : Bytes → Except Bytes κ} {cap : Nat}
    (herr : ∀ why, Failure parse why → Fits J false (error J why))
    (hr : (connection J parse cap).Reach (fun s a => Polite J a ∧ Kept cap s a) .init s) :
    s.Sound :=
  hr.inv State.sound_init fun _ _ _ h hg hs => h.step herr hg.1 hg.2 hs

/-- One command. -/
def eject (line : Bytes) : Except Bytes Unit :=
  if line = bytes "eject" then .ok () else .error (bytes "unknown command")

/-- The reply of a small server that has done what it was asked. -/
def done : Doc := .object [("ok", .bool true)]

/-- Its one event. -/
def ejected : Doc := .object [("event", .text (bytes "ejected"))]

/-- Its refusal, with the reason. -/
def refused (why : Bytes) : Doc := .object [("ok", .bool false), ("error", .text why)]

/-- The messages of the run below. -/
def messages : Json :=
  .ofLines ([done, ejected, refused droppedText, refused lateText, refused tooLongText,
    refused (bytes "unknown command")].map fun d => (d.print false ++ [newline], d))

/-- Its errors are one line each. -/
theorem messages_fit (why : Bytes) (h : Failure eject why) :
    Fits messages false (error messages why) := by
  rcases h with rfl | rfl | rfl | ⟨line, hline⟩
  · decide
  · decide
  · decide
  · unfold eject at hline
    split at hline
    · cases hline
    · obtain rfl := Except.error.inj hline
      decide

/-- The lines of the runs below. -/
def ejectLine : Str := ⟨bytes "eject", by decide⟩

def playLine : Str := ⟨bytes "play ", by decide⟩

/-- A command whose event is queued during the probe and comes first, in a send buffer of 16 octets,
    and whose second answer does not count; then a line that is no command. -/
def twoRequests : List (Event Doc) :=
  -- the request, and the probe that is on while the event's first octets are written
  [.request ejectLine, .arriveRequest 3, .arriveRequest 3, .receive, .wire (.setNonblocking true),
    .emit ejected, .wire .next, .wire (.write 16), .wire (.peek .wouldBlock), .wire .setBlocking,
    -- the window answers, and drops its `Responder`
    .send 0 done, .drop 0, .arrive 9, .read, .wire (.write 4), .arrive 11, .wire .next,
      .wire (.write 12), .arrive 12,
    .read, .read, .nextEvent,
    -- the line that is no command
    .request playLine, .wake, .arriveRequest 9, .receive, .wire .next, .wire (.write 16),
      .arrive 16, .wire (.copy 16),
    .arrive 16, .wire (.copy 7), .arrive 7, .read]

/-- An event finds the send buffer, of 4 octets, full during a probe. -/
def fullDuringProbe : List (Event Doc) :=
  [.request ejectLine, .arriveRequest 6, .receive, .wire (.setNonblocking true), .emit ejected,
    .wire .next, .wire (.write 4),
    -- this `write` would block: the thread ends and shuts the connection down
    .wire (.write 1), .arrive 4, .eof]

end CdjEmu.Connection
