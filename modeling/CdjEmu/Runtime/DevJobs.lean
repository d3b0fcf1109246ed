/-
  EVERY GUEST JOB ENDS ONCE — what a job receives along every run of the dev client.

  1. `Change` — what a step can do to the table and the jobs: nothing, or one of five things.
     `change_of_step` is the only place that looks into the steps for it.
  2. `Tabled` — the table holds exactly the jobs that have not ended and whose `Job` is still there,
     each under its own number.  So an event goes to the job it names, and an ended job is out of
     reach.
  3. `Numbered` — no number is given out twice, as long as the counter has not wrapped.
  4. `Connected` — without a connection the table is empty: `start` registers only while the writer
     is shared, and the reader takes the writer away and empties the table in one section.

  The client is that of `Runtime/DevClient`: callers in the middle of `start`, jobs with their
  channels, the reader with its line, and the connection, which may end at any point.  What a job
  receives are the `out` lines that devd has reported for its number while it was on the table, in
  order, and at most one end: the exit, or that the connection was lost.  The four parts above are
  put together in `jobs_end_once`, which says in addition that a job that has ended stays ended.
-/
import CdjEmu.Runtime.DevClient

namespace CdjEmu.Dev

open Text Function

variable {c d : Client}

/-! ## What a step does to the jobs -/

/-- The jobs as the table sees them: numbers, events, and whether the `Job` is there. -/
structure SameJobs (c d : Client) : Prop where
  made : d.made = c.made
  table : d.table = c.table
  heard : d.heard = c.heard
  id : ∀ j, (d.job j).id = (c.job j).id
  events : ∀ j, (d.job j).events = (c.job j).events
  gone : ∀ j, (d.job j).phase = .gone ↔ (c.job j).phase = .gone

/-- Nothing happens to the jobs. -/
theorem SameJobs.refl (c : Client) : SameJobs c c :=
  ⟨rfl, rfl, rfl, fun _ => rfl, fun _ => rfl, fun _ => .rfl⟩

/-- The step in which the reader finds the connection lost, or devd greeted again. -/
def Loses : Event → Prop
  | .lose => True
  | .line buf => readLine buf = some .hello
  | _ => False

/-- The reader hears from devd, or finds the connection lost. -/
def FromReader : Event → Prop
  | .line _ => True
  | .lose => True
  | _ => False

/-- What the step `a` does to the table and the jobs. -/
inductive Change (c d : Client) (a : Event) : Prop
  | same (h : SameJobs c d)
  /-- A job is registered. -/
  | register (n id : Nat) (command : Str) (hn : c.caller n = .numbered id command) (hnext :
      d.nextId = c.nextId)
      (hcaller : d.caller = update c.caller n .idle) (hmade : d.made = c.made + 1)
      (htable : d.table = (id, c.made) :: c.table.filter fun p => p.1 ≠ id)
      (hjob : d.job = update c.job c.made ⟨id, [], [], false, .held⟩) (hheard : d.heard = c.heard)
  /-- A `Job` is gone. -/
  | drop (j : Nat) (hj : j < c.made) (hmade : d.made = c.made) (htable : d.table =
      c.table.filter fun p => p.1 ≠ (c.job j).id)
      (hjob : d.job = update c.job j { c.job j with phase := .gone }) (hheard : d.heard = c.heard)
  /-- devd reports about a job. -/
  | line (id : Nat) (e : JobEvent) (hne : e ≠ .lost) (hfrom : FromReader a) (hd : d =
      c.jobLine id e)
  /-- The jobs are lost. -/
  | lose (hfrom : FromReader a) (hmade : d.made = c.made) (htable : d.table = []) (hjob : d.job =
      c.loseAll.job) (hheard : d.heard = c.heard)

/-- A write changes nothing but what has been written. -/
theorem Client.write_eq (c : Client) (l : Bytes) (w : Wrote) :
    ∃ wire, c.write l w = { c with wire := wire } := by
  unfold Client.write
  split
  · exact ⟨c.wire, rfl⟩
  · exact ⟨_, rfl⟩
  · exact ⟨_, rfl⟩

/-- Killing only writes to the wire. -/
theorem Client.kill_eq (c : Client) (j : Nat) (w : Wrote) :
    ∃ wire, c.kill j w = { c with wire := wire } := by
  unfold Client.kill
  split
  · exact ⟨c.wire, rfl⟩
  · exact c.write_eq _ w

/-- A job that is changed in a way the table does not see. -/
theorem SameJobs.of_update {j : Nat} {job : Job} (hid : job.id = (c.job j).id)
    (hevents : job.events = (c.job j).events) (hgone : job.phase = .gone ↔
      (c.job j).phase = .gone) : SameJobs c { c with job := update c.job j job } := by
  refine ⟨rfl, rfl, rfl, fun i => ?_, fun i => ?_, fun i => ?_⟩ <;>
  · by_cases h : i = j
    · subst h
      simpa using by assumption
    · simp [update_of_ne h]

/-- The end of `start`: it fails, or the job is registered while the writer is shared. -/
theorem Client.register_cases (c : Client) (n id : Nat) (command : Str) (w : Wrote) :
    (∃ wire, c.register n id command w =
      { c with caller := update c.caller n .idle, wire := wire }) ∨
    (c.writer ≠ none ∧ ∃ wire, c.register n id command w = { c with
      caller := update c.caller n .idle
      wire := wire
      table := (id, c.made) :: c.table.filter fun p => p.1 ≠ id
      job := update c.job c.made ⟨id, [], [], false, .held⟩
      made := c.made + 1 }) := by
  obtain ⟨wire, hwire⟩ := Client.write_eq { c with caller := update c.caller n .idle }
      (execBody id command ++ [newline]) w
  unfold Client.register
  dsimp only
  split
  · exact .inl ⟨c.wire, rfl⟩
  · rename_i conn hwriter
    rw [hwire]
    cases w with
    | short k => exact .inl ⟨wire, rfl⟩
    | all => exact .inr ⟨by rw [hwriter]; simp, wire, rfl⟩

/-- What one step may do to the jobs, in one place. -/
theorem change_of_step {a : Event} (hs : devClient.step c a = some d) : Change c d a := by
  cases a with
  | begin n command =>
    dsimp only [devClient] at hs
    -- a command that does not fit is refused here, before it has a number
    split at hs
    · split at hs
      · cases hs
      · split at hs <;>
          (cases hs; exact .same ⟨rfl, rfl, rfl, fun _ => rfl, fun _ => rfl, fun _ => .rfl⟩)
    · cases hs
  | look n | number n =>
    dsimp only [devClient] at hs
    split at hs
    · cases hs
      exact .same ⟨rfl, rfl, rfl, fun _ => rfl, fun _ => rfl, fun _ => .rfl⟩
    · cases hs
  | register n w =>
    dsimp only [devClient] at hs
    split at hs
    · rename_i hcaller
      cases hs
      -- the connection may have gone in between, and then nothing is made
      rcases c.register_cases n _ _ w with ⟨wire, h⟩ | ⟨-, wire, h⟩
      · rw [h]
        exact .same ⟨rfl, rfl, rfl, fun _ => rfl, fun _ => rfl, fun _ => .rfl⟩
      · rw [h]
        exact .register n _ _ hcaller rfl rfl rfl rfl rfl rfl
    · cases hs
  | take j =>
    obtain ⟨-, ⟨⟩⟩ := Option.ite_none_right_eq_some.mp hs
    exact .same (.of_update rfl (by simp [Job.events, Job.take]) .rfl)
  | kill j w =>
    obtain ⟨-, ⟨⟩⟩ := Option.ite_none_right_eq_some.mp hs
    obtain ⟨wire, hwire⟩ := c.kill_eq j w
    rw [hwire]
    exact .same ⟨rfl, rfl, rfl, fun _ => rfl, fun _ => rfl, fun _ => .rfl⟩
  | dropKill j w =>
    obtain ⟨⟨-, hheld⟩, ⟨⟩⟩ := Option.ite_none_right_eq_some.mp hs
    obtain ⟨wire, hwire⟩ := c.kill_eq j w
    rw [hwire]
    -- the job's phase is not one of its events
    have hsame : SameJobs c { c with job := update c.job j { c.job j with phase := .dropping } } :=
      .of_update rfl rfl (by rw [hheld]; simp)
    exact .same ⟨rfl, rfl, rfl, hsame.id, hsame.events, hsame.gone⟩
  | dropRemove j =>
    obtain ⟨⟨hj, -⟩, ⟨⟩⟩ := Option.ite_none_right_eq_some.mp hs
    exact .drop j hj rfl rfl rfl rfl
  | retry | connectFailed | connected =>
    obtain ⟨-, ⟨⟩⟩ := Option.ite_none_right_eq_some.mp hs
    exact .same ⟨rfl, rfl, rfl, fun _ => rfl, fun _ => rfl, fun _ => .rfl⟩
  | publish | eof =>
    dsimp only [devClient] at hs
    split at hs
    · cases hs
      exact .same ⟨rfl, rfl, rfl, fun _ => rfl, fun _ => rfl, fun _ => .rfl⟩
    · cases hs
  | line buf =>
    dsimp only [devClient] at hs
    split at hs
    · cases hs
      -- what a line means is decided by the parser; only a report touches a job
      unfold Client.onLine
      split
      · exact .lose trivial rfl rfl rfl rfl
      · exact .same ⟨rfl, rfl, rfl, fun _ => rfl, fun _ => rfl, fun _ => .rfl⟩
      · rename_i id e hline
        refine .line id e ?_ trivial rfl
        -- `lost` is the client's own event: no line reads as one
        rintro rfl
        exact parse_ne_lost hline
      · exact .same (.refl _)
    · cases hs
  | lose =>
    obtain ⟨-, ⟨⟩⟩ := Option.ite_none_right_eq_some.mp hs
    exact .lose trivial rfl rfl rfl rfl
  | close =>
    cases hs
    exact .same ⟨rfl, rfl, rfl, fun _ => rfl, fun _ => rfl, fun _ => .rfl⟩

/-! ## Numbers -/

/-- A number that has been given out. -/
def Given (c : Client) (id : Nat) : Prop := id < 2 ^ 32 ∧ (c.nextId ≠ 0 → id < c.nextId)

/-- No two jobs and no two calls of `start` have one number. -/
structure Numbered (c : Client) : Prop where
  next : c.nextId < 2 ^ 32
  jobs : ∀ j < c.made, Given c (c.job j).id
  calls : ∀ n id command, c.caller n = .numbered id command → Given c id
  jobsApart : ∀ i < c.made, ∀ j < c.made, (c.job i).id = (c.job j).id → i = j
  callsApart : ∀ n n' id command command', c.caller n = .numbered id command →
    c.caller n' = .numbered id command' → n = n'
  apart : ∀ n id command, c.caller n = .numbered id command → ∀ j < c.made, (c.job j).id ≠ id

/-- The counter has not wrapped when a number is taken. -/
def NotWrapped (c : Client) : Event → Prop
  | .number _ => c.nextId ≠ 0
  | _ => True

instance (c : Client) (a : Event) : Decidable (NotWrapped c a) := by
  cases a <;> (unfold NotWrapped; infer_instance)

theorem numbered_init : Numbered .init :=
  ⟨by decide, fun j hj => (by cases hj), fun _ _ _ h => (by cases h), fun i hi => (by cases hi),
    fun _ _ _ _ _ h => (by cases h), fun _ _ _ h => (by cases h)⟩

/-- Numbers depend on the counter, the calls and the numbers of the jobs. -/
theorem Numbered.congr (h : Numbered c) (hnext : d.nextId = c.nextId) (hmade : d.made = c.made)
    (hid : ∀ j, (d.job j).id = (c.job j).id)
    (hcalls : ∀ n id command, d.caller n = .numbered id command →
      c.caller n = .numbered id command) : Numbered d := by
  refine ⟨?_, ?_, ?_, ?_, ?_, ?_⟩
  · rw [hnext]
    exact h.next
  · intro j hj
    rw [hmade] at hj
    rw [Given, hnext, hid]
    exact h.jobs j hj
  · intro n id command hn
    rw [Given, hnext]
    exact h.calls n id command (hcalls n id command hn)
  · intro i hi j hj hij
    rw [hmade] at hi hj
    rw [hid, hid] at hij
    exact h.jobsApart i hi j hj hij
  · exact fun n n' id command command' hn hn' =>
      h.callsApart n n' id command command' (hcalls _ _ _ hn) (hcalls _ _ _ hn')
  · intro n id command hn j hj
    rw [hmade] at hj
    rw [hid]
    exact h.apart n id command (hcalls n id command hn) j hj

/-- A call takes the next number. -/
theorem Numbered.number (h : Numbered c) (hwrap : c.nextId ≠ 0) {n : Nat} (command : Str) :
    Numbered { c with
      nextId := (c.nextId + 1) % 2 ^ 32
      caller := update c.caller n (.numbered c.nextId command) } := by
  have hnext := h.next
  have hgiven : ∀ id, Given c id → id < 2 ^ 32 ∧
      ((c.nextId + 1) % 2 ^ 32 ≠ 0 → id < (c.nextId + 1) % 2 ^ 32) := by
    rintro id ⟨hid, hlt⟩
    have := hlt hwrap
    omega
  have hcall : ∀ n' id command', update c.caller n (Stage.numbered c.nextId command) n' =
      .numbered id command' →
      (n' = n ∧ id = c.nextId) ∨ (n' ≠ n ∧ c.caller n' = .numbered id command') := by
    intro n' id command' hn'
    by_cases heq : n' = n
    · subst heq
      rw [update_self] at hn'
      cases hn'
      exact .inl ⟨rfl, rfl⟩
    · rw [update_of_ne heq] at hn'
      exact .inr ⟨heq, hn'⟩
  -- without a wrap the new number is above all those given
  refine ⟨Nat.mod_lt _ (by decide), fun j hj => hgiven _ (h.jobs j hj), ?_, h.jobsApart, ?_, ?_⟩
  · intro n' id command' hn'
    -- the new number, or one given before
    rcases hcall n' id command' hn' with ⟨-, rfl⟩ | ⟨-, hn'⟩
    · show _ ∧ (_ → _)
      dsimp only
      omega
    · exact hgiven id (h.calls _ _ _ hn')
  · intro n₁ n₂ id command₁ command₂ h₁ h₂
    -- two calls: both new, one new, both old
    rcases hcall n₁ id command₁ h₁ with ⟨hn₁, hid₁⟩ | ⟨-, hc₁⟩ <;>
      rcases hcall n₂ id command₂ h₂ with ⟨hn₂, hid₂⟩ | ⟨-, hc₂⟩
    · exact hn₁.trans hn₂.symm
    · have := (h.calls _ _ _ hc₂).2 hwrap
      omega
    · have := (h.calls _ _ _ hc₁).2 hwrap
      omega
    · exact h.callsApart _ _ _ _ _ hc₁ hc₂
  · intro n' id command' hn' j hj
    rcases hcall n' id command' hn' with ⟨-, rfl⟩ | ⟨-, hn'⟩
    -- a job's number was given before this one
    · exact Nat.ne_of_lt ((h.jobs j hj).2 hwrap)
    · exact h.apart _ _ _ hn' j hj

/-- A call's number becomes a job's. -/
theorem Numbered.register (h : Numbered c) {n id : Nat} {command : Str}
    (hn : c.caller n = .numbered id command) (hnext : d.nextId = c.nextId)
    (hcaller : d.caller = update c.caller n .idle) (hmade : d.made = c.made + 1)
    (hold : ∀ j < c.made, (d.job j).id = (c.job j).id) (hnew : (d.job c.made).id = id) :
    Numbered d := by
  have hcall : ∀ n' id' command', d.caller n' = .numbered id' command' → n' ≠ n ∧
      c.caller n' = .numbered id' command' := by
    intro n' id' command' hn'
    rw [hcaller] at hn'
    by_cases heq : n' = n
    · subst heq
      rw [update_self] at hn'
      cases hn'
    · rw [update_of_ne heq] at hn'
      exact ⟨heq, hn'⟩
  -- a job is an old one, or the one made just now with the call's number
  have hjob : ∀ j < d.made, (j < c.made ∧ (d.job j).id = (c.job j).id) ∨
      (j = c.made ∧ (d.job j).id = id) := by
    intro j hj
    rw [hmade] at hj
    rcases Nat.lt_succ_iff_lt_or_eq.mp hj with hlt | rfl
    · exact .inl ⟨hlt, hold j hlt⟩
    · exact .inr ⟨rfl, hnew⟩
  refine ⟨?_, ?_, ?_, ?_, ?_, ?_⟩
  · rw [hnext]
    exact h.next
  · intro j hj
    rw [Given, hnext]
    rcases hjob j hj with ⟨hlt, hid⟩ | ⟨-, hid⟩
    · rw [hid]
      exact h.jobs j hlt
    · rw [hid]
      exact h.calls n id command hn
  · intro n' id' command' hn'
    rw [Given, hnext]
    exact h.calls _ _ _ (hcall _ _ _ hn').2
  · intro i hi j hj hij
    rcases hjob i hi with ⟨hi', hidi⟩ | ⟨hi', hidi⟩ <;>
      rcases hjob j hj with ⟨hj', hidj⟩ | ⟨hj', hidj⟩
    -- two jobs: both old, one new, both new
    · exact h.jobsApart i hi' j hj' (hidi.symm.trans (hij.trans hidj))
    · exact absurd (hidi.symm.trans (hij.trans hidj)) (h.apart n id command hn i hi')
    · exact absurd (hidj.symm.trans (hij.symm.trans hidi)) (h.apart n id command hn j hj')
    · exact hi'.trans hj'.symm
  · exact fun n₁ n₂ id' command₁ command₂ h₁ h₂ =>
      h.callsApart _ _ _ _ _ (hcall _ _ _ h₁).2 (hcall _ _ _ h₂).2
  · intro n' id' command' hn' j hj
    obtain ⟨hne, hn'⟩ := hcall _ _ _ hn'
    rcases hjob j hj with ⟨hj', hid⟩ | ⟨-, hid⟩ <;> rw [hid]
    · exact h.apart _ _ _ hn' j hj'
    · rintro rfl
      -- two calls with one number would be one call
      exact hne (h.callsApart _ _ _ _ _ hn' hn)

/-- Only `number` gives a number to a call. -/
theorem calls_of_step {a : Event} (hs : devClient.step c a = some d) :
    (d.nextId = c.nextId ∧ ∀ n id command, d.caller n = .numbered id command →
      c.caller n = .numbered id command) ∨
    ∃ n command, a = .number n ∧ d = { c with
      nextId := (c.nextId + 1) % 2 ^ 32
      caller := update c.caller n (.numbered c.nextId command) } := by
  -- a call that gets another stage is not a numbered one any more
  have hshrink : ∀ {n : Nat} {s : Stage}, (∀ id command, s ≠ .numbered id command) →
      ∀ n' id command,
      update c.caller n s n' = .numbered id command → c.caller n' = .numbered id command := by
    intro n s hne n' id command h
    by_cases heq : n' = n
    · subst heq
      rw [update_self] at h
      exact absurd h (hne id command)
    · rwa [update_of_ne heq] at h
  cases a with
  | begin n command =>
    dsimp only [devClient] at hs
    split at hs
    · split at hs
      · cases hs
      · split at hs
        · cases hs
          exact .inl ⟨rfl, hshrink fun _ _ h => by cases h⟩
        · cases hs
          exact .inl ⟨rfl, fun _ _ _ h => h⟩
    · cases hs
  | look n =>
    dsimp only [devClient] at hs
    split at hs
    · cases hs
      exact .inl ⟨rfl, hshrink fun _ _ h => by split at h <;> cases h⟩
    · cases hs
  | number n =>
    dsimp only [devClient] at hs
    split at hs
    · cases hs
      exact .inr ⟨n, _, rfl, rfl⟩
    · cases hs
  | register n w =>
    dsimp only [devClient] at hs
    split at hs
    · cases hs
      -- whether the line was written or not, the call is no numbered one any more
      rcases c.register_cases n _ _ w with ⟨wire, h⟩ | ⟨-, wire, h⟩ <;> rw [h] <;>
        exact .inl ⟨rfl, hshrink fun _ _ h => by cases h⟩
    · cases hs
  | take j | dropRemove j | retry | connectFailed | connected | lose =>
    obtain ⟨-, ⟨⟩⟩ := Option.ite_none_right_eq_some.mp hs
    exact .inl ⟨rfl, fun _ _ _ h => h⟩
  | kill j w | dropKill j w =>
    obtain ⟨-, ⟨⟩⟩ := Option.ite_none_right_eq_some.mp hs
    obtain ⟨wire, hwire⟩ := c.kill_eq j w
    rw [hwire]
    exact .inl ⟨rfl, fun _ _ _ h => h⟩
  | publish | eof =>
    dsimp only [devClient] at hs
    split at hs
    · cases hs
      exact .inl ⟨rfl, fun _ _ _ h => h⟩
    · cases hs
  | line buf =>
    dsimp only [devClient] at hs
    split at hs
    · cases hs
      refine .inl ?_
      -- a line from the guest finds the jobs, not the calls
      unfold Client.onLine Client.jobLine
      split
      · exact ⟨rfl, fun _ _ _ h => h⟩
      · exact ⟨rfl, fun _ _ _ h => h⟩
      · dsimp only
        split <;> exact ⟨rfl, fun _ _ _ h => h⟩
      · exact ⟨rfl, fun _ _ _ h => h⟩
    · cases hs
  | close =>
    cases hs
    exact .inl ⟨rfl, fun _ _ _ h => h⟩

/-! ## Events -/

/-- A job keeps its number when it sends. -/
theorem Job.id_send (e : JobEvent) (j : Job) : (j.send e).id = j.id := by
  unfold Job.send
  split <;> rfl

/-- It keeps its phase. -/
theorem Job.phase_send (e : JobEvent) (j : Job) : (j.send e).phase = j.phase := by
  unfold Job.send
  split <;> rfl

/-- It sends behind what it has sent. -/
theorem Job.events_send {j : Job} (h : j.phase ≠ .gone) (e : JobEvent) :
    (j.send e).events = j.events ++ [e] := by
  rw [Job.send, if_neg h, Job.events, Job.events, List.append_assoc]

/-- Each job in the list gets `e`, one after the other. -/
theorem foldl_send (e : JobEvent) {l : List (Nat × Nat)} (h : (l.map Prod.snd).Nodup)
    (job : Nat → Job) (j : Nat) :
    l.foldl (fun job p => update job p.2 ((job p.2).send e)) job j =
      if j ∈ l.map Prod.snd then (job j).send e else job j := by
  induction l generalizing job with
  | nil => rfl
  | cons p l ih =>
    rw [List.map_cons, List.nodup_cons] at h
    rw [List.foldl_cons, ih h.2, List.map_cons]
    by_cases hj : j = p.2
    · subst hj
      rw [if_neg h.1, update_self, if_pos List.mem_cons_self]
    · have hmem : j ∈ p.2 :: l.map Prod.snd ↔ j ∈ l.map Prod.snd := by
        rw [List.mem_cons]
        exact or_iff_right hj
      rw [update_of_ne hj]
      exact if_congr hmem.symm rfl rfl

/-- A job's number stays. -/
theorem loseAll_id (c : Client) (j : Nat) : (c.loseAll.job j).id = (c.job j).id := by
  have h : ∀ (l : List (Nat × Nat)) (job : Nat → Job),
      (l.foldl (fun job p => update job p.2 ((job p.2).send .lost)) job j).id = (job j).id := by
    intro l
    induction l with
    | nil => exact fun _ => rfl
    | cons p l ih =>
      intro job
      rw [List.foldl_cons, ih]
      by_cases hj : j = p.2
      · subst hj
        rw [update_self, Job.id_send]
      · rw [update_of_ne hj]
  exact h c.table c.job

/-- A line from the guest makes no job. -/
theorem jobLine_made (c : Client) (id : Nat) (e : JobEvent) : (c.jobLine id e).made = c.made := by
  unfold Client.jobLine
  dsimp only
  split <;> rfl

/-- A line from the guest is heard. -/
theorem jobLine_heard (c : Client) (id : Nat) (e : JobEvent) :
    (c.jobLine id e).heard = c.heard ++ [(id, e)] := by
  unfold Client.jobLine
  dsimp only
  split <;> rfl

/-- The last event of a job takes it off the table. -/
theorem jobLine_table (c : Client) (id : Nat) (e : JobEvent) :
    (c.jobLine id e).table = if e.isOut then c.table else c.table.filter fun p => p.1 ≠ id := by
  unfold Client.jobLine
  dsimp only
  split <;> rfl

/-- The event goes to the job that the table names. -/
theorem jobLine_job (c : Client) (id : Nat) (e : JobEvent) (j : Nat) :
    (c.jobLine id e).job j = if c.table.lookup id = some j then (c.job j).send e else c.job j := by
  have hjob : (c.jobLine id e).job = (c.table.lookup id).elim c.job fun j =>
    update c.job j ((c.job j).send e) := by
    unfold Client.jobLine
    cases c.table.lookup id <;> (dsimp only; split <;> rfl)
  rw [hjob]
  cases c.table.lookup id with
  | none => rfl
  | some i =>
    by_cases hj : i = j
    · subst hj
      rw [if_pos rfl]
      exact update_self _ _ _
    · rw [if_neg (fun h => hj (Option.some.inj h))]
      exact update_of_ne (Ne.symm hj) _ _

theorem jobLine_id (c : Client) (id : Nat) (e : JobEvent) (j : Nat) :
    ((c.jobLine id e).job j).id = (c.job j).id := by
  rw [jobLine_job]
  split
  · exact Job.id_send e _
  · rfl

/-- Numbers stay different as long as they have not gone round. -/
theorem Numbered.step (h : Numbered c) {a : Event} (hg : NotWrapped c a)
    (hs : devClient.step c a = some d) : Numbered d := by
  rcases calls_of_step hs with ⟨hnext, hcalls⟩ | ⟨n, command, rfl, rfl⟩
  · cases change_of_step hs with
    | same hsame => exact h.congr hnext hsame.made hsame.id hcalls
    | register n id command hn hnext hcaller hmade htable hjob hheard =>
      refine h.register hn hnext hcaller hmade (fun j hj => ?_) ?_
      · rw [hjob, update_of_ne (Nat.ne_of_lt hj)]
      · rw [hjob, update_self]
    | drop j hj hmade htable hjob hheard =>
      refine h.congr hnext hmade (fun i => ?_) hcalls
      rw [hjob]
      by_cases hi : i = j
      · subst hi
        rw [update_self]
      · rw [update_of_ne hi]
    | line id e hne hfrom hd =>
      subst hd
      exact h.congr hnext (jobLine_made c id e) (jobLine_id c id e) hcalls
    | lose hfrom hmade htable hjob hheard =>
        exact h.congr hnext hmade (fun j => by rw [hjob, loseAll_id]) hcalls
  · exact h.number hg command

/-! ## The table -/

/-- What devd has reported about the job `id`. -/
def Client.reports (c : Client) (id : Nat) : List JobEvent :=
  (c.heard.filter fun p => p.1 = id).map Prod.snd

/-- A job that has not ended, and whose `Job` is there. -/
def Live (c : Client) (j : Nat) : Prop :=
  j < c.made ∧ (c.job j).phase ≠ .gone ∧ ∀ e ∈ (c.job j).events, e.isOut = true

/-- The table holds the live jobs, each under its number. -/
structure Tabled (c : Client) : Prop where
  live : ∀ j, Live c j → ((c.job j).id, j) ∈ c.table
  entry : ∀ id j, (id, j) ∈ c.table → Live c j ∧ (c.job j).id = id
  keys : (c.table.map Prod.fst).Nodup
  ends : ∀ j < c.made, ∀ e ∈ (c.job j).events.dropLast, e.isOut = true
  reported : ∀ j < c.made, ((c.job j).events.filter (· ≠ .lost)).Sublist (c.reports (c.job j).id)

theorem tabled_init : Tabled .init :=
  ⟨fun j h => (by cases h.1), fun _ _ h => (by cases h), List.nodup_nil, fun j hj => (by cases hj),
    fun j hj => (by cases hj)⟩

/-- The jobs of the table are different ones. -/
theorem Tabled.jobs_nodup (h : Tabled c) : (c.table.map Prod.snd).Nodup := by
  refine List.Nodup.map_on ?_ (List.Nodup.of_map _ h.keys)
  rintro ⟨id, j⟩ hp ⟨id', j'⟩ hp' heq
  dsimp only at heq
  subst heq
  rw [← (h.entry _ _ hp).2, ← (h.entry _ _ hp').2]

/-- On the table are the live jobs. -/
theorem Tabled.mem_jobs (h : Tabled c) {j : Nat} : j ∈ c.table.map Prod.snd ↔ Live c j := by
  constructor
  · intro hj
    obtain ⟨⟨id, j'⟩, hp, rfl⟩ := List.mem_map.mp hj
    exact (h.entry id j' hp).1
  · exact fun hj => List.mem_map.mpr ⟨_, h.live j hj, rfl⟩

/-- Under different keys, what is found is what is there. -/
theorem lookup_eq_some_iff {l : List (Nat × Nat)} (h : (l.map Prod.fst).Nodup) {id j : Nat} :
    l.lookup id = some j ↔ (id, j) ∈ l := by
  induction l with
  | nil => simp
  | cons p l ih =>
    obtain ⟨id', j'⟩ := p
    rw [List.map_cons, List.nodup_cons] at h
    have htail := ih h.2
    rw [List.lookup_cons, List.mem_cons]
    by_cases hid : id = id'
    · subst hid
      have hnot : (id, j) ∉ l := fun hmem => h.1 (List.mem_map.mpr ⟨_, hmem, rfl⟩)
      simp [hnot, eq_comm]
    · have hne : (id == id') = false := by simpa using hid
      simp [hne, hid, htail]

/-- Each live job is told that it is lost, and no other. -/
theorem Tabled.loseAll_job (h : Tabled c) (j : Nat) :
    (Live c j → (c.loseAll.job j).events = (c.job j).events ++ [.lost]) ∧
    (¬ Live c j → c.loseAll.job j = c.job j) ∧
      (c.loseAll.job j).phase = (c.job j).phase := by
  have hjob : c.loseAll.job j =
      if j ∈ c.table.map Prod.snd then (c.job j).send .lost else c.job j :=
    foldl_send .lost h.jobs_nodup c.job j
  refine ⟨fun hlive => ?_, fun hnot => ?_, ?_⟩
  · rw [hjob, if_pos (h.mem_jobs.mpr hlive), Job.events_send hlive.2.1]
  · rw [hjob, if_neg (fun hj => hnot (h.mem_jobs.mp hj))]
  · rw [hjob]
    split
    · exact Job.phase_send _ _
    · rfl

/-- That is seen from the jobs alone. -/
theorem Tabled.same (h : Tabled c) (hs : SameJobs c d) : Tabled d := by
  have hlive : ∀ j, Live d j ↔ Live c j := by
    intro j
    rw [Live, Live, hs.made, hs.events, Ne, hs.gone]
  refine ⟨fun j hj => ?_, fun id j hp => ?_, ?_, fun j hj => ?_, fun j hj => ?_⟩
  · rw [hs.table, hs.id]
    exact h.live j ((hlive j).mp hj)
  · rw [hs.table] at hp
    rw [hlive, hs.id]
    exact h.entry id j hp
  · rw [hs.table]
    exact h.keys
  · rw [hs.made] at hj
    rw [hs.events]
    exact h.ends j hj
  · rw [hs.made] at hj
    rw [hs.events, hs.id, Client.reports, hs.heard]
    exact h.reported j hj

/-- A job that is begun goes on the table. -/
theorem Tabled.register (h : Tabled c) (hnum : Numbered c) {n id : Nat} {command : Str}
    (hn : c.caller n = .numbered id command) (hmade : d.made = c.made + 1)
    (htable : d.table = (id, c.made) :: c.table.filter fun p => p.1 ≠ id)
    (hjob : d.job = update c.job c.made ⟨id, [], [], false, .held⟩) (hheard : d.heard = c.heard) :
    Tabled d := by
  -- no job on the table has the new number, so nothing is thrown out for it
  have hfresh : ∀ p ∈ c.table, p.1 ≠ id := by
    rintro ⟨id', j⟩ hp
    obtain ⟨⟨hj, -⟩, hid⟩ := h.entry id' j hp
    rw [← hid]
    exact hnum.apart n id command hn j hj
  have hkept : c.table.filter (fun p => p.1 ≠ id) = c.table :=
    List.filter_eq_self.mpr fun p hp => by simpa using hfresh p hp
  rw [hkept] at htable
  have hold : ∀ j < c.made, d.job j = c.job j := fun j hj => by
    rw [hjob, update_of_ne (Nat.ne_of_lt hj)]
  have hnew : d.job c.made = ⟨id, [], [], false, .held⟩ := by rw [hjob, update_self]
  have hcases : ∀ j < d.made, j < c.made ∨ j = c.made := fun j hj => by omega
  refine ⟨?_, ?_, ?_, ?_, ?_⟩
  -- the live jobs are on the table
  · rintro j ⟨hj, hphase, hout⟩
    rw [htable]
    rcases hcases j hj with hlt | rfl
    · rw [hold j hlt] at hphase hout ⊢
      exact List.mem_cons_of_mem _ (h.live j ⟨hlt, hphase, hout⟩)
    · rw [hnew]
      exact List.mem_cons_self
  -- what is on the table is live
  · intro id' j hp
    rw [htable] at hp
    rcases List.mem_cons.mp hp with heq | hp
    · cases heq
      refine ⟨⟨by omega, ?_, ?_⟩, ?_⟩ <;> rw [hnew]
      · exact fun he => by cases he
      · exact fun e he => by cases he
    · obtain ⟨⟨hj, hphase, hout⟩, hid⟩ := h.entry id' j hp
      refine ⟨⟨by omega, ?_, ?_⟩, ?_⟩ <;> rw [hold j hj]
      · exact hphase
      · exact hout
      · exact hid
  -- each number is there once
  · rw [htable, List.map_cons, List.nodup_cons]
    refine ⟨fun hmem => ?_, h.keys⟩
    obtain ⟨p, hp, hid⟩ := List.mem_map.mp hmem
    exact hfresh p hp hid
  · intro j hj
    rcases hcases j hj with hlt | rfl
    · rw [hold j hlt]
      exact h.ends j hlt
    · rw [hnew]
      exact fun e he => by cases he
  · intro j hj
    rw [Client.reports, hheard]
    rcases hcases j hj with hlt | rfl
    · rw [hold j hlt]
      exact h.reported j hlt
    · rw [hnew]
      exact List.nil_sublist _

/-- One that has ended is taken off it. -/
theorem Tabled.drop (h : Tabled c) (hnum : Numbered c) {j : Nat} (hj : j < c.made)
    (hmade : d.made = c.made) (htable : d.table = c.table.filter fun p => p.1 ≠ (c.job j).id)
    (hjob : d.job = update c.job j { c.job j with phase := .gone }) (hheard : d.heard = c.heard) :
    Tabled d := by
  have hid : ∀ i, (d.job i).id = (c.job i).id := by
    intro i
    rw [hjob]
    by_cases hi : i = j
    · subst hi
      rw [update_self]
    · rw [update_of_ne hi]
  have hevents : ∀ i, (d.job i).events = (c.job i).events := by
    intro i
    rw [hjob]
    by_cases hi : i = j
    · subst hi
      rw [update_self]
      rfl
    · rw [update_of_ne hi]
  -- the one that was dropped is live no more, all others as before
  have hlive : ∀ i, Live d i ↔ Live c i ∧ i ≠ j := by
    intro i
    rw [Live, Live, hmade, hevents, hjob]
    by_cases hi : i = j
    · subst hi
      simp
    · rw [update_of_ne hi]
      simp [hi]
  refine ⟨fun i hi => ?_, fun id i hp => ?_, ?_, fun i hi => ?_, fun i hi => ?_⟩
  · obtain ⟨hi, hne⟩ := (hlive i).mp hi
    rw [htable, hid, List.mem_filter]
    refine ⟨h.live i hi, ?_⟩
    simp only [decide_eq_true_eq]
    -- of two live jobs with one number there would be two jobs with it
    exact fun heq => hne (hnum.jobsApart i hi.1 j hj heq)
  · rw [htable, List.mem_filter] at hp
    obtain ⟨hi, hid'⟩ := h.entry id i hp.1
    rw [hlive, hid]
    refine ⟨⟨hi, ?_⟩, hid'⟩
    rintro rfl
    simp [hid'] at hp
  · rw [htable]
    exact (List.filter_sublist.map _).nodup h.keys
  · rw [hmade] at hi
    rw [hevents]
    exact h.ends i hi
  · rw [hmade] at hi
    rw [hevents, hid, Client.reports, hheard]
    exact h.reported i hi

/-- A line from the guest keeps the table. -/
theorem Tabled.line (h : Tabled c) {id : Nat} {e : JobEvent} (hne : e ≠ .lost) :
    Tabled (c.jobLine id e) := by
  have hjob : ∀ j, (c.jobLine id e).job j =
      if (id, j) ∈ c.table then (c.job j).send e else c.job j := by
    intro j
    rw [jobLine_job]
    exact if_congr (lookup_eq_some_iff h.keys) rfl rfl
  have hphase : ∀ j, ((c.jobLine id e).job j).phase = (c.job j).phase := by
    intro j
    rw [hjob]
    split
    · exact Job.phase_send _ _
    · rfl
  have hnamed : ∀ j, (id, j) ∈ c.table →
      ((c.jobLine id e).job j).events = (c.job j).events ++ [e] := by
    intro j hp
    rw [hjob, if_pos hp, Job.events_send (h.entry id j hp).1.2.1]
  have hother : ∀ j, (id, j) ∉ c.table → ((c.jobLine id e).job j).events = (c.job j).events := by
    intro j hp
    rw [hjob, if_neg hp]
  -- only a terminal event takes the named job out
  have hlive : ∀ j, Live (c.jobLine id e) j ↔ Live c j ∧ (e.isOut = true ∨ (c.job j).id ≠ id) := by
    intro j
    rw [Live, jobLine_made, hphase]
    by_cases hp : (id, j) ∈ c.table
    · obtain ⟨hj, hid⟩ := h.entry id j hp
      rw [hnamed j hp]
      simp only [List.mem_append, List.mem_singleton, or_imp, forall_and, forall_eq, hid, ne_eq,
        not_true_eq_false, or_false]
      exact ⟨fun hd => ⟨hj, hd.2.2.2⟩, fun hd => ⟨hj.1, hj.2.1, hj.2.2, hd.2⟩⟩
    · rw [hother j hp]
      refine ⟨fun hj => ⟨hj, .inr ?_⟩, fun hj => hj.1⟩
      rintro rfl
      exact hp (h.live j hj)
  refine ⟨fun j hj => ?_, fun id' j hp => ?_, ?_, fun j hj => ?_, fun j hj => ?_⟩
  · obtain ⟨hj, hkeep⟩ := (hlive j).mp hj
    rw [jobLine_table, jobLine_id]
    split
    · exact h.live j hj
    · rename_i hout
      rw [List.mem_filter]
      exact ⟨h.live j hj, by simpa [hout] using hkeep⟩
  · rw [jobLine_table] at hp
    rw [hlive, jobLine_id]
    split at hp
    · rename_i hout
      obtain ⟨hj, hid⟩ := h.entry id' j hp
      exact ⟨⟨hj, .inl hout⟩, hid⟩
    · rw [List.mem_filter] at hp
      obtain ⟨hj, hid⟩ := h.entry id' j hp.1
      refine ⟨⟨hj, .inr ?_⟩, hid⟩
      rw [hid]
      simpa using hp.2
  · rw [jobLine_table]
    split
    · exact h.keys
    · exact (List.filter_sublist.map _).nodup h.keys
  · rw [jobLine_made] at hj
    by_cases hp : (id, j) ∈ c.table
    · rw [hnamed j hp, List.dropLast_concat]
      exact (h.entry id j hp).1.2.2
    · rw [hother j hp]
      exact h.ends j hj
  · rw [jobLine_made] at hj
    rw [jobLine_id, Client.reports, jobLine_heard, List.filter_append, List.map_append]
    by_cases hp : (id, j) ∈ c.table
    · rw [hnamed j hp, List.filter_append, (h.entry id j hp).2]
      have hold := h.reported j hj
      rw [(h.entry id j hp).2] at hold
      refine hold.append ?_
      simp [hne]
    · rw [hother j hp]
      exact (h.reported j hj).trans (List.sublist_append_left _ _)

/-- So does the end of a connection. -/
theorem Tabled.lose (h : Tabled c) (hmade : d.made = c.made) (htable : d.table = [])
    (hjob : d.job = c.loseAll.job) (hheard : d.heard = c.heard) : Tabled d := by
  have hdead : ∀ j, ¬ Live d j := by
    rintro j ⟨hj, hphase, hout⟩
    obtain ⟨hlost, hsame, -⟩ := h.loseAll_job j
    rw [hjob] at hphase hout
    by_cases hlive : Live c j
    · have := hout .lost (by rw [hlost hlive]; simp)
      cases this
    · rw [hsame hlive] at hphase hout
      exact hlive ⟨hmade ▸ hj, hphase, hout⟩
  refine ⟨fun j hj => absurd hj (hdead j), fun id j hp => ?_, ?_, fun j hj => ?_, fun j hj => ?_⟩
  · rw [htable] at hp
    cases hp
  · rw [htable]
    exact List.nodup_nil
  · obtain ⟨hlost, hsame, -⟩ := h.loseAll_job j
    rw [hmade] at hj
    rw [hjob]
    by_cases hlive : Live c j
    · rw [hlost hlive, List.dropLast_concat]
      exact hlive.2.2
    · rw [hsame hlive]
      exact h.ends j hj
  · obtain ⟨hlost, hsame, -⟩ := h.loseAll_job j
    rw [hmade] at hj
    rw [hjob, loseAll_id, Client.reports, hheard]
    by_cases hlive : Live c j
    · have hold := h.reported j hj
      rw [Client.reports] at hold
      rw [hlost hlive, List.filter_append]
      simpa using hold
    · rw [hsame hlive]
      exact h.reported j hj

/-- Every step keeps the table. -/
theorem Tabled.step (h : Tabled c) (hnum : Numbered c) {a : Event}
    (hs : devClient.step c a = some d) : Tabled d := by
  cases change_of_step hs with
  | same hsame => exact h.same hsame
  | register n id command hn hnext hcaller hmade htable hjob hheard =>
      exact h.register hnum hn hmade htable hjob hheard
  | drop j hj hmade htable hjob hheard => exact h.drop hnum hj hmade htable hjob hheard
  | line id e hne hfrom hd =>
    subst hd
    exact h.line hne
  | lose hfrom hmade htable hjob hheard => exact h.lose hmade htable hjob hheard

/-! ## The connection -/

/-- Whether the reader serves a connection. -/
def Reader.Serves : Reader → Prop
  | .reading _ => True
  | .closing => True
  | _ => False

/-- Without a connection there is no writer and no job; only `DevClient`'s `drop`
    takes the writer earlier. -/
structure Connected (c : Client) : Prop where
  unserved : ¬ c.reader.Serves → c.writer = none ∧ c.table = []
  served : c.writer = none → c.stop = true ∨ ¬ c.reader.Serves

/-- No connection has been made. -/
theorem connected_init : Connected .init := ⟨fun _ => ⟨rfl, rfl⟩, fun _ => .inr (fun h => h)⟩

/-- A step that keeps the reader, the writer and `stop`, and enters nothing into the table of a
    client without a writer. -/
theorem Connected.congr (h : Connected c) (hreader : d.reader = c.reader)
    (hwriter : d.writer = c.writer) (hstop : d.stop = c.stop)
    (htable : c.writer = none → c.table = [] → d.table = []) : Connected d := by
  refine ⟨fun hr => ?_, fun hw => ?_⟩
  · rw [hreader] at hr
    obtain ⟨hw, ht⟩ := h.unserved hr
    exact ⟨hwriter.trans hw, htable hw ht⟩
  · rw [hwriter] at hw
    rw [hstop, hreader]
    exact h.served hw

/-- Without a connection there is no live job. -/
theorem Connected.step (h : Connected c) {a : Event} (hs : devClient.step c a = some d) :
    Connected d := by
  cases a with
  | begin n command =>
    dsimp only [devClient] at hs
    split at hs
    · split at hs
      · cases hs
      · split at hs <;> (cases hs; exact h.congr rfl rfl rfl fun _ ht => ht)
    · cases hs
  | look n | number n =>
    dsimp only [devClient] at hs
    split at hs
    · cases hs
      exact h.congr rfl rfl rfl fun _ ht => ht
    · cases hs
  | register n w =>
    dsimp only [devClient] at hs
    split at hs
    · cases hs
      -- nothing is made without a connection
      rcases c.register_cases n _ _ w with ⟨wire, heq⟩ | ⟨hwriter, wire, heq⟩ <;> rw [heq]
      · exact h.congr rfl rfl rfl fun _ ht => ht
      · exact h.congr rfl rfl rfl fun hw => absurd hw hwriter
    · cases hs
  | take j =>
    obtain ⟨-, ⟨⟩⟩ := Option.ite_none_right_eq_some.mp hs
    exact h.congr rfl rfl rfl fun _ ht => ht
  | kill j w | dropKill j w =>
    obtain ⟨-, ⟨⟩⟩ := Option.ite_none_right_eq_some.mp hs
    obtain ⟨wire, hwire⟩ := c.kill_eq j w
    rw [hwire]
    exact h.congr rfl rfl rfl fun _ ht => ht
  | dropRemove j =>
    obtain ⟨-, ⟨⟩⟩ := Option.ite_none_right_eq_some.mp hs
    refine h.congr rfl rfl rfl fun _ ht => ?_
    show c.table.filter _ = []
    rw [ht, List.filter_nil]
  | retry | connectFailed | connected =>
    obtain ⟨hreader, ⟨⟩⟩ := Option.ite_none_right_eq_some.mp hs
    -- between two connections the reader serves nothing
    have hquiet := h.unserved (by simp [hreader, Reader.Serves])
    exact ⟨fun _ => hquiet, fun _ => .inr (fun hr => hr)⟩
  | publish =>
    dsimp only [devClient] at hs
    split at hs
    · cases hs
      exact ⟨fun hr => absurd trivial hr, fun hw => by cases hw⟩
    · cases hs
  | line buf =>
    dsimp only [devClient] at hs
    split at hs
    · cases hs
      unfold Client.onLine
      split
      · exact h.congr rfl rfl rfl fun _ _ => rfl
      · exact h.congr rfl rfl rfl fun _ ht => ht
      -- a report can only take entries off the table
      · rename_i id e _
        have htable := jobLine_table c id e
        refine h.congr ?_ ?_ ?_ fun _ ht => ?_
        · unfold Client.jobLine
          dsimp only
          split <;> rfl
        · unfold Client.jobLine
          dsimp only
          split <;> rfl
        · unfold Client.jobLine
          dsimp only
          split <;> rfl
        · rw [htable, ht]
          simp
      · exact h
    · cases hs
  | eof =>
    dsimp only [devClient] at hs
    split at hs
    · rename_i conn hreader
      cases hs
      refine ⟨fun hr => absurd trivial hr, fun hw => ?_⟩
      rcases h.served hw with hstop | hr
      · exact .inl hstop
      · rw [hreader] at hr
        exact absurd trivial hr
    · cases hs
  | lose =>
    obtain ⟨-, ⟨⟩⟩ := Option.ite_none_right_eq_some.mp hs
    exact ⟨fun _ => ⟨rfl, rfl⟩, fun _ => .inr (fun hr => hr)⟩
  | close =>
    cases hs
    exact ⟨fun hr => ⟨rfl, (h.unserved hr).2⟩, fun _ => .inl rfl⟩

/-! ## Runs -/

/-- When the jobs are lost, all that are in the table are told. -/
theorem job_of_loses {a : Event} (hs : devClient.step c a = some d) (h : Loses a) :
    d.job = c.loseAll.job := by
  cases a with
  | lose =>
    obtain ⟨-, ⟨⟩⟩ := Option.ite_none_right_eq_some.mp hs
    rfl
  | line buf =>
    have hhello : readLine buf = some .hello := h
    dsimp only [devClient] at hs
    split at hs
    · cases hs
      rw [Client.onLine, hhello]
    · cases hs
  | _ => exact absurd h id

/-- What a run has delivered: to each job some output, at most one last event, and nothing after it;
    different jobs have different numbers, and a job hears only what devd reports under its number,
    and that it is lost; only the reader delivers; a job that lives when the connection is lost or
    devd greets again is told so; and there is no job in the table while there is no connection. -/
theorem jobs_end_once (h : devClient.Reach NotWrapped .init c) :
    (∀ j < c.made, ∃ outs last, (c.job j).events = outs ++ Option.toList last ∧
      (∀ e ∈ outs, e.isOut = true) ∧
      ∀ e, last = some e → e.isOut = false) ∧
    (∀ i < c.made, ∀ j < c.made, (c.job i).id = (c.job j).id → i = j) ∧
    (∀ j < c.made, ((c.job j).events.filter (· ≠ .lost)).Sublist (c.reports (c.job j).id)) ∧
    (∀ a d, devClient.step c a = some d → ¬ FromReader a →
      ∀ j < c.made, (d.job j).events = (c.job j).events) ∧
    (∀ a d, devClient.step c a = some d → Loses a → ∀ j, Live c j →
      (d.job j).events = (c.job j).events ++ [.lost]) ∧
    (¬ c.reader.Serves → c.table = []) ∧ (c.writer = none → c.stop = false → c.table = []) := by
  obtain ⟨hnum, htab, hconn⟩ : Numbered c ∧ Tabled c ∧ Connected c := by
    refine h.inv (I := fun c => Numbered c ∧ Tabled c ∧ Connected c)
      ⟨numbered_init, tabled_init, connected_init⟩ ?_
    rintro t a u ⟨hnum, htab, hconn⟩ hg hs
    exact ⟨hnum.step hg hs, htab.step hnum hs, hconn.step hs⟩
  refine ⟨fun j hj => ?_, hnum.jobsApart, htab.reported, fun a d hs hquiet j hj => ?_,
    fun a d hs hlose j hlive => ?_, fun hr => (hconn.unserved hr).2, fun hw hstop => ?_⟩
  -- to each job: output, and a last event where there is one
  · rcases List.eq_nil_or_concat (c.job j).events with hnil | ⟨outs, e, hevents⟩
    · exact ⟨[], none, hnil, fun e he => (by cases he), fun e he => by cases he⟩
    · have hends := htab.ends j hj
      rw [List.concat_eq_append] at hevents
      rw [hevents, List.dropLast_concat] at hends
      cases hout : e.isOut with
      | true =>
        refine ⟨outs ++ [e], none, by rw [hevents]; simp, fun e' he' => ?_, fun e he => by cases he⟩
        rcases List.mem_append.mp he' with he' | he'
        · exact hends e' he'
        · rw [List.mem_singleton.mp he']
          exact hout
      | false =>
        refine ⟨outs, some e, hevents, hends, fun e' he' => ?_⟩
        cases he'
        exact hout
  -- only the reader delivers
  · cases change_of_step hs with
    | same hsame => exact hsame.events j
    | register n id command hn hnext hcaller hmade htable hjob hheard =>
        rw [hjob, update_of_ne (Nat.ne_of_lt hj)]
    | drop i hi hmade htable hjob hheard =>
      rw [hjob]
      by_cases hij : j = i
      · subst hij
        rw [update_self]
        rfl
      · rw [update_of_ne hij]
    | line id e hne hfrom hd => exact absurd hfrom hquiet
    | lose hfrom hmade htable hjob hheard => exact absurd hfrom hquiet
  -- when the connection is lost each live job is told, once
  · rw [job_of_loses hs hlose]
    exact (htab.loseAll_job j).1 hlive
  · rcases hconn.served hw with hs | hr
    · rw [hstop] at hs
      cases hs
    · exact (hconn.unserved hr).2

set_option maxRecDepth 10000 in
/-- One job prints a line and ends, another is lost with the connection; after
    that the table is empty. -/
theorem two_jobs_end : ∃ c : Client, c.table = [] ∧ (c.job 0).events = [.out (bytes "x"), .exit 0] ∧
    (c.job 1).events = [.lost] := by
  obtain ⟨c, hreach, hc⟩ := Machine.Reach.of_run_any (M := devClient) (G := NotWrapped) (s := .init)
    (p := fun c => decide (c.reader = .idle ∧ (c.job 0).events = [.out (bytes "x"), .exit 0] ∧
      (c.job 1).events = [.lost]))
    [.retry, .connected, .publish, .line (bytes "hello 1\n"),
      .begin 0 ⟨bytes "echo x", by decide⟩, .look 0, .number 0, .register 0 .all,
      .begin 0 ⟨bytes "sleep 9", by decide⟩, .look 0, .number 0, .register 0 .all,
      .line (bytes "out 1 x\n"), .line (bytes "exit 1 0\n"), .eof, .lose] (by decide)
  obtain ⟨hreader, h0, h1⟩ := of_decide_eq_true hc
  obtain ⟨-, -, -, -, -, htable, -⟩ := jobs_end_once hreach
  exact ⟨c, htable (by rw [hreader]; exact id), h0, h1⟩

end CdjEmu.Dev
