/-
  THE LINUX LINK — a slot's interface, the elevated scripts that make it, and the watchers that
  delete it.

  `LinuxBridge::setup` writes a script and has it run elevated.  The script replaces whatever has
  the slot's name, reports the new link, and stays behind as its watcher: once the claim or the app
  is gone it deletes the link and answers.  It deletes by NAME, and it does not look at the claim
  again before it does.  The script's file, the ready file and the name are the same for every setup
  of the slot; a script that an app has left behind runs on without it.

  Links are numbered as they are made.  So are the claims, by `no`, which no step reads: of two
  claims the one with the larger number was taken later.

  A watcher can delete a later bridge's link (`watcher_deletes_the_next_link`).  It cannot where a
  bridge is opened only once every earlier script is through with the link it has made (`Settled`):
  from there on an earlier script makes a link only where the bridge's own is gone (`Inv.make`).

  1. **Program** — the app's process up to its bridge and down again, and each elevated script
     command by command; nothing is atomic but a command.  What the user answers to the prompt,
     whether a command fails, and what the slot's name is bound to in between are the events of the
     machine.

  2. **Specification** — `Safe`: a watcher that deletes the link takes it from under no bridge of a
     later claim, and an app that is told that its link is gone finds it so.

  3. **The crux (`Inv.make`)** — an earlier script is through with its link or has not made it yet;
     only in the second case can the name still change hands, and then it changes to a link that
     nobody uses.
-/
import CdjEmu.Lib.Machine
import CdjEmu.Net.Lease

namespace CdjEmu.Net.Linux

open Machine Lease

/-- What kind of link is made; a tap of the user's is used without a lease. -/
inductive Shape where
  | tapOnBridge
  | macvtap
  deriving DecidableEq

/-- The device node a script reports. -/
inductive Node where
  /-- `/dev/net/tun`, bound by the link's name. -/
  | tun
  /-- `/dev/tap<ifindex>`. -/
  | tap (index : Nat)
  deriving DecidableEq

/-- What a script is written for: the claim, which number it has, and the link's shape. -/
structure Job where
  claim : Claim
  no : Nat
  shape : Shape
  deriving DecidableEq

/-- Where a script is: its next command. -/
inductive Stage where
  /-- `ip link del`, before the link is made. -/
  | replace
  /-- `ip link add`, or `ip tuntap add`. -/
  | make
  /-- `ip link set`. -/
  | bringUp
  /-- The index of the link is read, and its node handed to the user. -/
  | findNode
  | report (node : Node)
  /-- The watch: the claim is read, then the app is tested. -/
  | readClaim
  | testApp
  /-- `ip link del`, at the end of the watch. -/
  | delete
  | answer
  deriving DecidableEq

/-- Between making its link and having deleted it. -/
def Stage.armed : Stage → Bool
  | .replace | .make | .answer => false
  | _ => true

/-- The script has gone on in the background, and its shell has exited with 0. -/
def Stage.watching : Stage → Bool
  | .readClaim | .testApp | .delete | .answer => true
  | _ => false

/-- An elevated script. -/
inductive Worker where
  /-- The password is asked for. -/
  | prompt
  | at_ (job : Job) (stage : Stage)
  /-- It was refused, or a command failed. -/
  | failed
  | done (job : Job)
  deriving DecidableEq

/-- What `run_elevated` returns, once it does. -/
def Worker.exit : Worker → Option Bool
  | .prompt => none
  | .at_ _ stage => if stage.watching then some true else none
  | .failed => some false
  | .done _ => some true

/-- Where the app's process is. -/
inductive Place where
  | idle
  /-- `setup` has removed the ready file. -/
  | begun (shape : Shape)
  /-- `Lease::take` has removed the answer. -/
  | cleared (shape : Shape)
  | claimed (job : Job)
  /-- The script is written. -/
  | written (job : Job)
  /-- In `run_elevated`. -/
  | elevating (job : Job) (worker : Nat)
  /-- In `wait_for_ready`. -/
  | waiting (job : Job)
  | opening (job : Job) (node : Node)
  /-- A `LinuxBridge`, on the link of that number if its node is bound to one. -/
  | live (job : Job) (on : Option Nat)
  | dropping (job : Job) (watched : Bool) (d : Dropping)
  deriving DecidableEq

structure State where
  /-- The app's process: its pid, and where it is. -/
  app : Option (Nat × Place)
  files : LeaseFiles
  script : Option Job
  ready : Option Node
  /-- The link with the slot's name. -/
  link : Option (Nat × Shape)
  /-- How many links have been made, and how many claims taken. -/
  links : Nat
  claims : Nat
  workers : List Worker

inductive Event where
  | launch (pid : Nat)
  | die
  | setup (shape : Shape)
  | clear
  | claim (ms : Nat)
  | write
  | elevate
  /-- `run_elevated` returns. -/
  | ran
  /-- `wait_for_ready` reads the ready file, or gives up. -/
  | read (late : Bool)
  /-- The node is opened; `ok` says whether the user may. -/
  | open_ (ok : Bool)
  | drop
  /-- The next step of the drop. -/
  | settle (late : Bool)
  /-- The password prompt is answered. -/
  | prompted (worker : Nat) (granted : Bool)
  /-- The script's next command: whether it fails, and whether another process has the app's pid. -/
  | work (worker : Nat) (fails other : Bool)

def boot : State := ⟨none, LeaseFiles.none, none, none, none, 0, 0, []⟩

namespace State

variable (s : State)

def at_ (pid : Nat) (p : Place) : State := { s with app := some (pid, p) }

/-- What opening `node` comes to: the link that the file is bound to, `none` for an error. -/
def opened (job : Job) : Node → Option (Option Nat)
  | .tap i =>
    if s.link.map Prod.fst = some i then if job.shape = .macvtap then some (some i) else none
    else none
  | .tun =>
    match job.shape with
    | .macvtap => some none
    | .tapOnBridge =>
      match s.link with
      | some (i, .tapOnBridge) => some (some i)
      | _ => none

/-- A process's own steps. -/
def next (pid : Nat) : Place → Event → Option State
  | .idle, .setup shape => some { s.at_ pid (.begun shape) with ready := none }
  | .begun shape, .clear => some { s.at_ pid (.cleared shape) with files := s.files.forgetAnswer }
  | .cleared shape, .claim ms =>
    let job : Job := ⟨⟨pid, ms⟩, s.claims, shape⟩
    some { s.at_ pid (.claimed job) with files := s.files.take job.claim, claims := s.claims + 1 }
  | .claimed job, .write => some { s.at_ pid (.written job) with script := some job }
  | .written job, .elevate =>
    some { s.at_ pid (.elevating job s.workers.length) with workers := s.workers ++ [.prompt] }
  | .elevating job k, .ran =>
    match s.workers[k]?.bind Worker.exit with
    | none => none
    | some true => some (s.at_ pid (.waiting job))
    | some false => some (s.at_ pid (.dropping job false .compare))
  | .waiting job, .read late =>
    if late then some (s.at_ pid (.dropping job true .compare))
    else some (s.at_ pid (s.ready.elim (.waiting job) (.opening job)))
  | .opening job node, .open_ ok =>
    match if ok then s.opened job node else none with
    | some on => some (s.at_ pid (.live job on))
    | none => some (s.at_ pid (.dropping job true .compare))
  | .live job _, .drop => some (s.at_ pid (.dropping job true .compare))
  | .dropping job watched d, .settle late =>
    let r := d.step s.files job.claim watched late
    some { s.at_ pid (r.2.elim .idle (.dropping job watched)) with files := r.1 }
  | _, _ => none

def setWorker (k : Nat) (w : Worker) : State := { s with workers := s.workers.set k w }

/-- The next command of the script that is worker `k`. -/
def work (k : Nat) (job : Job) (fails other : Bool) : Stage → State
  | .replace => { s.setWorker k (.at_ job .make) with link := none }
  | .make =>
    if fails || s.link.isSome then s.setWorker k .failed
    else
      { s.setWorker k (.at_ job .bringUp) with
        link := some (s.links, job.shape), links := s.links + 1 }
  | .bringUp =>
    if fails || s.link.isNone then s.setWorker k .failed
    else s.setWorker k (.at_ job .findNode)
  | .findNode =>
    match job.shape, s.link with
    | .macvtap, some (i, _) =>
        s.setWorker k (if fails then .failed else .at_ job (.report (.tap i)))
    | .macvtap, none => s.setWorker k .failed
    | .tapOnBridge, _ => s.setWorker k (.at_ job (.report .tun))
  | .report node =>
    if fails then s.setWorker k .failed
    else { s.setWorker k (.at_ job .readClaim) with ready := some node }
  | .readClaim =>
      s.setWorker k (.at_ job (if s.files.claim = some job.claim then .testApp else .delete))
  | .testApp =>
    s.setWorker k (.at_ job
      (if other || (s.app.map Prod.fst == some job.claim.pid) then .readClaim else .delete))
  | .delete => { s.setWorker k (.at_ job .answer) with link := none }
  | .answer => { s.setWorker k (.done job) with
      files := { s.files with released := some job.claim } }

end State

def slot : Machine State Event where
  step s
    | .launch pid => if s.app.isNone then some (s.at_ pid .idle) else none
    | .die => if s.app.isSome then some { s with app := none } else none
    | .prompted k granted =>
      match s.workers[k]?, s.script with
      | some .prompt, some job =>
          some (s.setWorker k (if granted then .at_ job .replace else .failed))
      | _, _ => none
    | .work k fails other =>
      match s.workers[k]? with
      | some (.at_ job stage) => some (s.work k job fails other stage)
      | _ => none
    | e =>
      match s.app with
      | some (pid, p) => s.next pid p e
      | none => none

/-! ## A link in use -/

/-- A watcher that deletes the link deletes it under no bridge of a later claim, and a drop that has
    its answer has one that a watcher of its own claim has written. -/
structure Safe (s : State) : Prop where
  deletes : ∀ job, .at_ job .delete ∈ s.workers → ∀ i shape, s.link = some (i, shape) →
    ∀ pid job', s.app = some (pid, .live job' (some i)) → ¬ job.no < job'.no
  answered : ∀ pid job watched, s.app = some (pid, .dropping job watched .answered) →
    ∃ job', .done job' ∈ s.workers ∧ job'.claim = job.claim

/-- An earlier script that has made its link and has not deleted it yet. -/
def Worker.earlier (no : Nat) : Worker → Bool
  | .at_ job stage => stage.armed && decide (job.no < no)
  | _ => false

/-- A bridge is opened on a link only when every script of an earlier claim that has made its link
    has deleted it. -/
def Settled (s : State) : Event → Prop
  | .open_ true =>
    match s.app with
    | some (_, .opening job node) => (s.opened job node).join.isSome →
        ∀ w ∈ s.workers, w.earlier job.no = false
    | _ => True
  | _ => True

/-! ## What a step can do -/

/-- The app's step touches no link, and starts a script at most. -/
structure AppStep (s t : State) (pid : Nat) (p p' : Place) (e : Event) : Prop where
  app : t.app = some (pid, p')
  link : t.link = s.link ∧ t.links = s.links
  workers : t.workers = s.workers ∨ t.workers = s.workers ++ [.prompt]
  released : ∀ c, t.files.released = some c → s.files.released = some c
  live : ∀ job i, p' = .live job (some i) → ∃ node, p = .opening job node ∧ e = .open_ true ∧
    s.opened job node = some (some i)
  answered : ∀ job watched, p' = .dropping job watched .answered → s.files.released = some job.claim

/-- Neither a bridge nor a drop with its answer. -/
def Place.calm : Place → Bool
  | .live _ _ => false
  | .dropping _ _ .answered => false
  | _ => true

theorem appStep {s t : State} {pid : Nat} {p : Place} {e : Event} (h : s.next pid p e = some t) :
    ∃ p', AppStep s t pid p p' e := by
  -- at most places the link, its owner and the lease on file stay as they are
  have hcalm : ∀ {u : State} {p' : Place}, u.app = some (pid, p') → u.link = s.link ∧
      u.links = s.links →
      u.workers = s.workers ∨ u.workers = s.workers ++ [.prompt] →
      (∀ c, u.files.released = some c → s.files.released = some c) → p'.calm = true →
      AppStep s u pid p p' e := by
    intro u p' happ hlink hworkers hreleased hp'
    refine ⟨happ, hlink, hworkers, hreleased, ?_, ?_⟩
    · rintro job i rfl
      exact absurd hp' Bool.false_ne_true
    · rintro job watched rfl
      exact absurd hp' Bool.false_ne_true
  unfold State.next at h
  split at h
  · obtain rfl := Option.some.inj h
    exact ⟨_, hcalm rfl ⟨rfl, rfl⟩ (Or.inl rfl) (fun _ hc => hc) rfl⟩
  · obtain rfl := Option.some.inj h
    exact ⟨_, hcalm rfl ⟨rfl, rfl⟩ (Or.inl rfl)
      -- clearing takes a released lease off the file
      (fun _ hc => absurd hc.symm (Option.some_ne_none _)) rfl⟩
  · obtain rfl := Option.some.inj h
    exact ⟨_, hcalm rfl ⟨rfl, rfl⟩ (Or.inl rfl) (fun _ hc => hc) rfl⟩
  · obtain rfl := Option.some.inj h
    exact ⟨_, hcalm rfl ⟨rfl, rfl⟩ (Or.inl rfl) (fun _ hc => hc) rfl⟩
  · obtain rfl := Option.some.inj h
    -- the worker that is started stands at its prompt
    exact ⟨_, hcalm rfl ⟨rfl, rfl⟩ (Or.inr rfl) (fun _ hc => hc) rfl⟩
  · split at h
    · cases h
    · obtain rfl := Option.some.inj h
      exact ⟨_, hcalm rfl ⟨rfl, rfl⟩ (Or.inl rfl) (fun _ hc => hc) rfl⟩
    · obtain rfl := Option.some.inj h
      exact ⟨_, hcalm rfl ⟨rfl, rfl⟩ (Or.inl rfl) (fun _ hc => hc) rfl⟩
  · rename_i job late
    split at h
    · obtain rfl := Option.some.inj h
      exact ⟨_, hcalm rfl ⟨rfl, rfl⟩ (Or.inl rfl) (fun _ hc => hc) rfl⟩
    · obtain rfl := Option.some.inj h
      -- a tap that is ready is opened, else the app waits on
      have hread : (s.ready.elim (Place.waiting job) (Place.opening job)).calm = true := by
        cases s.ready with
        | none => rfl
        | some node => rfl
      exact ⟨_, hcalm rfl ⟨rfl, rfl⟩ (Or.inl rfl) (fun _ hc => hc) hread⟩
  · rename_i job node ok
    split at h
    · rename_i on hon
      obtain rfl := Option.some.inj h
      refine ⟨_, rfl, ⟨rfl, rfl⟩, Or.inl rfl, fun _ hc => hc, ?_, fun _ _ hp => by cases hp⟩
      intro job' i hp
      cases hp
      cases ok with
      -- the device has been opened, on the link that there is
      | true => exact ⟨node, rfl, rfl, hon⟩
      | false => cases hon
    · obtain rfl := Option.some.inj h
      exact ⟨_, hcalm rfl ⟨rfl, rfl⟩ (Or.inl rfl) (fun _ hc => hc) rfl⟩
  · obtain rfl := Option.some.inj h
    exact ⟨_, hcalm rfl ⟨rfl, rfl⟩ (Or.inl rfl) (fun _ hc => hc) rfl⟩
  · rename_i job watched d late
    obtain rfl := Option.some.inj h
    refine ⟨_, rfl, ⟨rfl, rfl⟩, Or.inl rfl, fun _ hc => Dropping.step_released hc, ?_, ?_⟩
    · intro job' i hp
      -- each step of the way out hands on the same job
      cases hr : (d.step s.files job.claim watched late).2 with
      | none =>
        rw [hr] at hp
        cases hp
      | some d' =>
        rw [hr] at hp
        cases hp
    · intro job' watched' hp
      cases hr : (d.step s.files job.claim watched late).2 with
      | none =>
        rw [hr] at hp
        cases hp
      | some d' =>
        rw [hr] at hp
        cases hp
        exact Dropping.step_answered hr
  · cases h

/-- What a script's command does to the link: nothing, and an armed script was armed before; or the
    name is free afterwards; or it was free, and the link is new. -/
inductive LinkChange (s t : State) (job : Job) (stage : Stage) (w : Worker) : Prop
  | same (hlink : t.link = s.link) (hlinks : t.links = s.links)
      (harmed : ∀ no, w.earlier no = true → (Worker.at_ job stage).earlier no = true)
  | gone (hlink : t.link = none) (hlinks : t.links = s.links)
  | made (hfree : s.link = none) (hlink : t.link = some (s.links, job.shape)) (hlinks : t.links =
      s.links + 1)

/-- The script's command. -/
structure WorkStep (s t : State) (k : Nat) (job : Job) (stage : Stage) (w : Worker) : Prop where
  app : t.app = s.app
  workers : t.workers = s.workers.set k w
  change : LinkChange s t job stage w
  released : ∀ c, t.files.released = some c → s.files.released = some c ∨
    (w = .done job ∧ c = job.claim)

theorem workStep (s : State) (k : Nat) (job : Job) (fails other : Bool) (stage : Stage) :
    ∃ w, WorkStep s (s.work k job fails other stage) k job stage w := by
  -- a worker that fails does nothing more
  have hfailed : ∀ no, Worker.failed.earlier no = true → (Worker.at_ job stage).earlier no = true :=
    fun _ h => absurd h Bool.false_ne_true
  cases stage with
  | replace => exact ⟨.at_ job .make, rfl, rfl, .gone rfl rfl, fun _ hc => Or.inl hc⟩
  | make =>
    unfold State.work
    dsimp only
    split
    · exact ⟨.failed, rfl, rfl, .same rfl rfl hfailed, fun _ hc => Or.inl hc⟩
    -- nothing else has the name, so the tap is made
    · rename_i hfree
      rw [Bool.or_eq_true, not_or, Bool.not_eq_true, Bool.not_eq_true, Option.isSome_eq_false_iff,
        Option.isNone_iff_eq_none] at hfree
      exact ⟨.at_ job .bringUp, rfl, rfl, .made hfree.2 rfl rfl, fun _ hc => Or.inl hc⟩
  | bringUp =>
    unfold State.work
    dsimp only
    split
    · exact ⟨.failed, rfl, rfl, .same rfl rfl hfailed, fun _ hc => Or.inl hc⟩
    · exact ⟨.at_ job .findNode, rfl, rfl, .same rfl rfl (fun _ h => h), fun _ hc => Or.inl hc⟩
  | findNode =>
    unfold State.work
    dsimp only
    split
    · split
      · exact ⟨.failed, rfl, rfl, .same rfl rfl hfailed, fun _ hc => Or.inl hc⟩
      · exact ⟨_, rfl, rfl, .same rfl rfl (fun _ h => h), fun _ hc => Or.inl hc⟩
    · exact ⟨.failed, rfl, rfl, .same rfl rfl hfailed, fun _ hc => Or.inl hc⟩
    · exact ⟨_, rfl, rfl, .same rfl rfl (fun _ h => h), fun _ hc => Or.inl hc⟩
  | report node =>
    unfold State.work
    dsimp only
    split
    · exact ⟨.failed, rfl, rfl, .same rfl rfl hfailed, fun _ hc => Or.inl hc⟩
    · exact ⟨.at_ job .readClaim, rfl, rfl, .same rfl rfl (fun _ h => h), fun _ hc => Or.inl hc⟩
  | readClaim =>
    -- what the claim says is read; the link is left alone
    refine ⟨_, rfl, rfl, .same rfl rfl ?_, fun _ hc => Or.inl hc⟩
    intro no hearlier
    split at hearlier
    · exact hearlier
    · exact hearlier
  | testApp =>
    refine ⟨_, rfl, rfl, .same rfl rfl ?_, fun _ hc => Or.inl hc⟩
    intro no hearlier
    split at hearlier
    · exact hearlier
    · exact hearlier
  | delete => exact ⟨.at_ job .answer, rfl, rfl, .gone rfl rfl, fun _ hc => Or.inl hc⟩
  | answer =>
    refine ⟨.done job, rfl, rfl, .same rfl rfl (fun _ h => absurd h Bool.false_ne_true), ?_⟩
    -- the answer names the claim of this very job
    intro c hc
    exact Or.inr ⟨rfl, (Option.some.inj hc).symm⟩

/-! ## The invariant -/

/-- A bridge on the link that has the name is on no earlier script's, and an answer is a watcher's
    that is through. -/
structure Inv (s : State) : Prop where
  made : ∀ i shape, s.link = some (i, shape) → i < s.links
  live : ∀ pid job i, s.app = some (pid, .live job (some i)) →
    i < s.links ∧ ∀ shape, s.link = some (i, shape) → ∀ w ∈ s.workers, w.earlier job.no = false
  released : ∀ c, s.files.released = some c → ∃ job, .done job ∈ s.workers ∧ job.claim = c
  answered : ∀ pid job watched, s.app = some (pid, .dropping job watched .answered) →
    ∃ job', .done job' ∈ s.workers ∧ job'.claim = job.claim

theorem boot_inv : Inv boot :=
  ⟨fun _ _ h => absurd h.symm (Option.some_ne_none _),
    fun _ _ _ h => absurd h.symm (Option.some_ne_none _),
   fun _ h => absurd h.symm (Option.some_ne_none _), fun _ _ _ h =>
     absurd h.symm (Option.some_ne_none _)⟩

theorem Inv.safe {s : State} (h : Inv s) : Safe s := by
  refine ⟨?_, h.answered⟩
  intro job hmem i shape hlink pid job' happ hlater
  have hnot := (h.live pid job' i happ).2 shape hlink _ hmem
  rw [Worker.earlier, decide_eq_true hlater] at hnot
  exact absurd hnot.symm Bool.false_ne_true

theorem opened_link {s : State} {job : Job} {node : Node} {i : Nat}
    (h : s.opened job node = some (some i)) :
    ∃ shape, s.link = some (i, shape) := by
  unfold State.opened at h
  split at h
  · rename_i j
    split at h
    · rename_i hfst
      split at h
      · obtain rfl := Option.some.inj (Option.some.inj h)
        obtain ⟨⟨i', shape⟩, hlink, rfl⟩ := Option.map_eq_some_iff.mp hfst
        exact ⟨shape, hlink⟩
      · cases h
    · cases h
  · split at h
    · cases h
    · split at h
      · rename_i j hlink
        obtain rfl := Option.some.inj (Option.some.inj h)
        exact ⟨_, hlink⟩
      · cases h

theorem AppStep.inv {s t : State} {pid : Nat} {p p' : Place} {e : Event}
    (ht : AppStep s t pid p p' e) (h : Inv s) (happ : s.app = some (pid, p)) (he : Settled s e) :
    Inv t := by
  -- a worker that is there stays there
  have hmem : ∀ {w}, w ∈ s.workers → w ∈ t.workers := by
    intro w hw
    obtain heq | heq := ht.workers
    · rw [heq]
      exact hw
    · rw [heq]
      exact List.mem_append_left _ hw
  have hearlier : ∀ {no}, (∀ w ∈ s.workers, w.earlier no = false) →
      ∀ w ∈ t.workers, w.earlier no = false := by
    -- the app's step adds a worker at its prompt at most, and that one is behind every number
    intro no hall w hw
    obtain heq | heq := ht.workers
    · rw [heq] at hw
      exact hall w hw
    · rw [heq, List.mem_append, List.mem_singleton] at hw
      obtain hw | rfl := hw
      · exact hall w hw
      · rfl
  obtain ⟨hlink, hlinks⟩ := ht.link
  constructor
  · rw [hlink, hlinks]
    exact h.made
  · intro pid' job i hlive
    rw [ht.app] at hlive
    obtain ⟨rfl, rfl⟩ := Prod.mk.inj (Option.some.inj hlive)
    obtain ⟨node, rfl, rfl, hopened⟩ := ht.live job i rfl
    -- the app has opened the link that there is; no earlier worker may touch it any more
    obtain ⟨shape, hon⟩ := opened_link hopened
    rw [hlinks]
    refine ⟨h.made i shape hon, fun _ _ => hearlier ?_⟩
    unfold Settled at he
    dsimp only at he
    rw [happ] at he
    apply he
    rw [hopened]
    rfl
  · intro c hc
    obtain ⟨job, hdone, hlease⟩ := h.released c (ht.released c hc)
    exact ⟨job, hmem hdone, hlease⟩
  · intro pid' job watched hdrop
    rw [ht.app] at hdrop
    obtain ⟨rfl, rfl⟩ := Prod.mk.inj (Option.some.inj hdrop)
    obtain ⟨job', hdone, hlease⟩ := h.released _ (ht.answered job watched rfl)
    exact ⟨job', hmem hdone, hlease⟩

/-- A script that is through stays so. -/
theorem done_set {l : List Worker} {k : Nat} {w w' : Worker} (hk : l[k]? = some w)
    (hw : ∀ job, w ≠ .done job) {job : Job} (hmem : .done job ∈ l) : .done job ∈ l.set k w' := by
  obtain ⟨j, hj⟩ := List.mem_iff_getElem?.mp hmem
  apply List.mem_iff_getElem?.mpr
  refine ⟨j, ?_⟩
  rw [List.getElem?_set_ne]
  · exact hj
  · rintro rfl
    rw [hk] at hj
    exact hw job (Option.some.inj hj)

theorem WorkStep.inv {s t : State} {k : Nat} {job : Job} {stage : Stage} {w : Worker}
    (ht : WorkStep s t k job stage w) (h : Inv s) (hk : s.workers[k]? = some (.at_ job stage)) :
    Inv t := by
  have hat := List.mem_of_getElem? hk
  have hdone : ∀ {job'}, .done job' ∈ s.workers → .done job' ∈ t.workers := by
    intro job' hmem
    rw [ht.workers]
    exact done_set hk (fun _ => fun hat => by cases hat) hmem
  constructor
  · intro i shape hlink
    -- the link is as it was, gone, or new with the next number
    obtain ⟨hsame, hlinks, -⟩ | ⟨hgone, -⟩ | ⟨-, hnew, hlinks⟩ := ht.change
    · rw [hsame] at hlink
      rw [hlinks]
      exact h.made i shape hlink
    · exact absurd (hgone.symm.trans hlink).symm (Option.some_ne_none _)
    · obtain ⟨rfl, -⟩ := Prod.mk.inj (Option.some.inj (hnew.symm.trans hlink))
      rw [hlinks]
      omega
  · intro pid job' i hlive
    rw [ht.app] at hlive
    obtain ⟨hlt, hnone⟩ := h.live pid job' i hlive
    obtain ⟨hsame, hlinks, harmed⟩ | ⟨hgone, hlinks⟩ | ⟨-, hnew, hlinks⟩ := ht.change
    · rw [hlinks]
      refine ⟨hlt, ?_⟩
      intro shape hlink w' hw'
      rw [hsame] at hlink
      rw [ht.workers] at hw'
      obtain hw' | rfl := List.mem_or_eq_of_mem_set hw'
      · exact hnone shape hlink w' hw'
      -- the worker that moved is no earlier one than before
      · apply Bool.eq_false_iff.mpr
        intro hearlier
        have hbefore := hnone shape hlink _ hat
        rw [harmed job'.no hearlier] at hbefore
        exact absurd hbefore.symm Bool.false_ne_true
    · rw [hlinks]
      exact ⟨hlt, fun shape hlink => absurd (hgone.symm.trans hlink).symm (Option.some_ne_none _)⟩
    · refine ⟨by omega, ?_⟩
      intro shape hlink
      obtain ⟨rfl, -⟩ := Prod.mk.inj (Option.some.inj (hnew.symm.trans hlink))
      -- a link made just now has a number that no live job knows
      exact absurd hlt (Nat.lt_irrefl _)
  · intro c hc
    obtain hc | ⟨rfl, rfl⟩ := ht.released c hc
    · obtain ⟨job', hmem, hlease⟩ := h.released c hc
      exact ⟨job', hdone hmem, hlease⟩
    · refine ⟨job, ?_, rfl⟩
      rw [ht.workers]
      exact List.mem_set (List.getElem?_eq_some_iff.mp hk).1 _
  · intro pid job' watched hdrop
    rw [ht.app] at hdrop
    obtain ⟨job'', hmem, hlease⟩ := h.answered pid job' watched hdrop
    exact ⟨job'', hdone hmem, hlease⟩

theorem Inv.same {s t : State} (h : Inv s) (hlink : t.link = s.link ∧ t.links = s.links)
    (hfiles : t.files = s.files)
    (hworkers : ∀ w, w ∈ t.workers → w ∈ s.workers ∨ ∀ no, w.earlier no = false)
    (hdone : ∀ job, .done job ∈ s.workers → .done job ∈ t.workers)
    (happ : ∀ pid p, t.app = some (pid, p) → s.app = some (pid, p) ∨ p = .idle) : Inv t := by
  obtain ⟨hlink, hlinks⟩ := hlink
  constructor
  · rw [hlink, hlinks]
    exact h.made
  · intro pid job i hlive
    obtain hold | hidle := happ _ _ hlive
    · obtain ⟨hlt, hnone⟩ := h.live pid job i hold
      rw [hlink, hlinks]
      refine ⟨hlt, ?_⟩
      intro shape hon w hw
      obtain hw | hw := hworkers w hw
      · exact hnone shape hon w hw
      · exact hw _
    · cases hidle
  · rw [hfiles]
    intro c hc
    obtain ⟨job, hmem, hlease⟩ := h.released c hc
    exact ⟨job, hdone job hmem, hlease⟩
  · intro pid job watched hdrop
    obtain hold | hidle := happ _ _ hdrop
    · obtain ⟨job', hmem, hlease⟩ := h.answered pid job watched hold
      exact ⟨job', hdone job' hmem, hlease⟩
    · cases hidle

theorem Inv.prompted {s : State} (h : Inv s) {k : Nat} (hk : s.workers[k]? = some .prompt)
    {w : Worker} (hw : w = .failed ∨ ∃ job, w = .at_ job .replace) : Inv (s.setWorker k w) := by
  refine h.same ⟨rfl, rfl⟩ rfl ?_ ?_ (fun _ _ happ => Or.inl happ)
  · intro w' hw'
    obtain hold | rfl := List.mem_or_eq_of_mem_set hw'
    · exact Or.inl hold
    · obtain rfl | ⟨job, rfl⟩ := hw
      · exact Or.inr (fun _ => rfl)
      · exact Or.inr (fun _ => rfl)
  · exact fun job hmem => done_set hk (fun _ => fun hprompt => by cases hprompt) hmem

theorem Inv.step {s t : State} {e : Event} (h : Inv s) (he : Settled s e)
    (hs : slot.step s e = some t) : Inv t := by
  -- the app's own steps share their proof
  have happ : ∀ {e}, Settled s e →
      (match s.app with | some (pid, p) => s.next pid p e | none => none) = some t → Inv t := by
    intro e he hs
    split at hs
    · rename_i pid p hplace
      obtain ⟨p', hstep⟩ := appStep hs
      exact hstep.inv h hplace he
    · cases hs
  cases e with
  | launch pid =>
    obtain ⟨-, heq⟩ := Option.ite_none_right_eq_some.mp hs
    obtain rfl := Option.some.inj heq
    -- a launch begins with no job
    refine h.same ⟨rfl, rfl⟩ rfl (fun _ hw => Or.inl hw) (fun _ hd => hd) ?_
    intro pid' p hp
    exact Or.inr (Prod.mk.inj (Option.some.inj hp)).2.symm
  | die =>
    obtain ⟨-, heq⟩ := Option.ite_none_right_eq_some.mp hs
    obtain rfl := Option.some.inj heq
    refine h.same ⟨rfl, rfl⟩ rfl (fun _ hw => Or.inl hw) (fun _ hd => hd) ?_
    exact fun _ _ hp => absurd hp.symm (Option.some_ne_none _)
  | prompted k granted =>
    unfold slot at hs
    dsimp only at hs
    split at hs
    · rename_i job hk _
      obtain rfl := Option.some.inj hs
      -- the prompt is granted or not
      apply h.prompted hk
      cases granted with
      | true => exact Or.inr ⟨job, rfl⟩
      | false => exact Or.inl rfl
    · cases hs
  | work k fails other =>
    unfold slot at hs
    dsimp only at hs
    split at hs
    · rename_i job stage hk
      obtain rfl := Option.some.inj hs
      obtain ⟨w, hwork⟩ := workStep s k job fails other stage
      exact hwork.inv h hk
    · cases hs
  | setup shape => exact happ he hs
  -- the rest are steps of the app
  | clear => exact happ he hs
  | claim ms => exact happ he hs
  | write => exact happ he hs
  | elevate => exact happ he hs
  | ran => exact happ he hs
  | read late => exact happ he hs
  | open_ ok => exact happ he hs
  | drop => exact happ he hs
  | settle late => exact happ he hs

/-- **No bridge loses its link to an earlier watcher**, where bridges are opened only once the
    earlier scripts are through. -/
theorem links_in_use_are_kept {s : State} (h : slot.Reach Settled boot s) : Safe s := by
  have hinv : Inv s := Reach.inv (I := Inv) boot_inv (fun _ _ _ hi hg hs => hi.step hg hs) h
  exact hinv.safe

instance (s : State) (e : Event) : Decidable (Settled s e) := by
  unfold Settled
  split
  · split <;> infer_instance
  · infer_instance

/-- A setup of the app up to its bridge, with the script that is worker `k`. -/
def bridged (shape : Shape) (ms k : Nat) : List Event :=
  [.setup shape, .clear, .claim ms, .write, .elevate, .prompted k true, .work k false false,
    .work k false false,
   .work k false false, .work k false false, .work k false false, .ran, .read false, .open_ true]

/-- A bridge that is dropped, and answered by its watcher; another, on a bridge of the user's; a
    crash, and once the watcher has deleted the link a third, which keeps its own. -/
def session : List Event :=
  .launch 100 :: bridged .macvtap 10 0 ++
  [.drop, .settle false, .settle false, .work 0 false false, .settle false, .work 0 false false,
    .work 0 false false,
   .settle false, .settle false] ++ bridged .tapOnBridge 20 1 ++
  [.work 1 false false, .die, .work 1 false false, .launch 200, .work 1 false false] ++
    bridged .macvtap 30 2 ++
  [.work 1 false false]

theorem session_safe : ∃ s, Safe s ∧ s.app = some (200, .live ⟨⟨200, 30⟩, 2, .macvtap⟩ (some 2)) ∧
    s.link = some (2, .macvtap) := by
  obtain ⟨s, hr, hs⟩ := Reach.of_run_any (M := slot) (G := Settled) (s := boot)
    (p := fun s => decide
      (s.app = some (200, .live ⟨⟨200, 30⟩, 2, .macvtap⟩ (some 2)) ∧ s.link = some (2, .macvtap)))
    session (by decide)
  exact ⟨s, links_in_use_are_kept hr, of_decide_eq_true hs⟩

/-- The app dies, its watcher finds that out, and the app is started and bridged again before the
    watcher goes on. -/
def relaunched : List Event :=
  .launch 100 :: bridged .macvtap 10 0 ++
    [.die, .work 0 false false, .work 0 false false, .launch 200] ++
  bridged .macvtap 20 1

/-- **The first run's watcher deletes the second run's link.** -/
theorem watcher_deletes_the_next_link : ¬ ∀ s, slot.Reach Free boot s → Safe s := by
  intro hall
  obtain ⟨s, hr, hs⟩ := Reach.of_run_any (M := slot) (G := Free) (s := boot)
    (p := fun s =>
      decide (.at_ ⟨⟨100, 10⟩, 0, .macvtap⟩ .delete ∈ s.workers ∧ s.link = some (1, .macvtap) ∧
      s.app = some (200, .live ⟨⟨200, 20⟩, 1, .macvtap⟩ (some 1)))) relaunched (by decide)
  obtain ⟨hwatcher, hlink, happ⟩ := of_decide_eq_true hs
  exact (hall s hr).deletes _ hwatcher 1 .macvtap hlink 200 _ happ (by decide)

end CdjEmu.Net.Linux
