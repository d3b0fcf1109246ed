/-
  THE CONTROL QUEUE OF THE SOUND DRIVER — commands, the device's answers and who gets them.

  `vsnd_ctl_cmd` holds the lock while it resets the completion and queues the command, and waits
  without it.  The completion and the result are the device's and there is one of each.  So an
  answer wakes whoever waits, and what a caller reads is the last answer that was written.

  Calls are numbered; one that finds no memory returns before it does anything, and is left out.
  The interrupt handler collects one answer a time.  `answer`, `active` and `returns` are history:
  what the device said to each command, who is between its lock and its return, and what came back.

  1. **Program** — a call step by step: it takes the lock, resets the completion, queues its
     command, lets go of the lock, waits, and reads the result; the device answers queued commands
     in order, and the clock may end a wait.

  2. **Specification** — `Return.Own`: what a call returned follows from the device's answer to its
     own command.

  3. **The crux (`Sound`)** — with one command at a time the completion is either reset or that
     command's, and so is the result.  A command that timed out is still unanswered, and its late
     answer would wake the next caller; `Alone` excludes that the next one is given before.
-/
import CdjEmu.Lib.Machine

namespace CdjEmu.SoundCtl

open Machine

/-- `VIRTIO_SND_S_OK`. -/
def statusOk : Nat := 0x8000

/-- Where a call is: it has the lock and has reset the completion, its command is queued or was
    refused, it waits, it was woken, or it is over. -/
inductive Place where
  | idle
  | entered
  | queued
  | refused
  | waiting
  | woken
  | returned
  deriving DecidableEq

inductive Ret where
  | ok
  | eio
  | timedOut
  | failed
  deriving DecidableEq

/-- What a call returned, and the device's answer to its command at that time. -/
structure Return where
  call : Nat
  ret : Ret
  answer : Option Nat
  deriving DecidableEq

structure Ctl where
  place : Nat → Place
  lock : Option Nat
  /-- The commands that the device has before it, and those that it has answered. -/
  device : List Nat
  used : List Nat
  /-- The completion's count, and `ctl_res.code`. -/
  done : Nat
  result : Nat
  answer : Nat → Option Nat
  active : List Nat
  returns : List Return

namespace Ctl

def init : Ctl where
  place := fun _ => .idle
  lock := none
  device := []
  used := []
  done := 0
  result := 0
  answer := fun _ => none
  active := []
  returns := []

variable (s : Ctl)

def goTo (c : Nat) (p : Place) : Ctl := { s with place := Function.update s.place c p }

/-- The call is over. -/
def ends (c : Nat) (r : Ret) : Ctl :=
  { s.goTo c .returned with
    active := s.active.erase c, returns := s.returns ++ [⟨c, r, s.answer c⟩] }

end Ctl

inductive Event where
  /-- `mutex_lock` and `reinit_completion`. -/
  | enter (c : Nat)
  /-- `virtqueue_add_sgs`, and the kick if it succeeds. -/
  | queue (c : Nat) (ok : Bool)
  | leave (c : Nat)
  /-- The wait ends because of the completion, or of the clock. -/
  | wake (c : Nat)
  | timeout (c : Nat)
  | finish (c : Nat)
  /-- The device answers the next command; `vsnd_ctl_done`. -/
  | answer (code : Nat)
  | interrupt

def ctl : Machine Ctl Event where
  step s
    | .enter c =>
      if s.place c = .idle ∧ s.lock = none then
        some { s.goTo c .entered with lock := some c, done := 0, active := c :: s.active }
      else none
    | .queue c ok =>
      if s.place c = .entered then
        some (if ok then { s.goTo c .queued with device := s.device ++ [c] } else s.goTo c .refused)
      else none
    | .leave c =>
      match s.place c with
      | .queued => some { s.goTo c .waiting with lock := none }
      | .refused => some { s.ends c .failed with lock := none }
      | _ => none
    | .wake c =>
        if s.place c = .waiting ∧ 0 < s.done then
          some { s.goTo c .woken with done := s.done - 1 }
        else none
    | .timeout c => if s.place c = .waiting ∧ s.done = 0 then some (s.ends c .timedOut) else none
    | .finish c =>
        if s.place c = .woken then some (s.ends c (if s.result = statusOk then .ok else .eio))
        else none
    | .answer code =>
      match s.device with
      | c :: device => some { s with
          device := device
          used := s.used ++ [c]
          result := code
          answer := Function.update s.answer c (some code) }
      | [] => none
    | .interrupt =>
      match s.used with
      | _ :: used => some { s with used := used, done := s.done + 1 }
      | [] => some s

/-! ## The answer of one's own -/

/-- What is returned follows from the answer to the command. -/
def Return.Own (r : Return) : Prop :=
  match r.ret with
  | .ok => r.answer = some statusOk
  | .eio => ∃ code, r.answer = some code ∧ code ≠ statusOk
  | .timedOut => r.answer = none
  | .failed => True

/-- A command is given when no other is under way or unanswered, and no wait ends by the clock
    between the answer and its interrupt. -/
def Alone (s : Ctl) : Event → Prop
  | .enter _ => s.active = [] ∧ s.device = [] ∧ s.used = []
  | .timeout _ => s.used = []
  | _ => True

instance (s : Ctl) (a : Event) : Decidable (Alone s a) := by
  cases a <;> (unfold Alone; infer_instance)

namespace Ctl

variable {s t : Ctl} {c : Nat}

/-- How far the one call has come. -/
inductive Progress (s : Ctl) (c : Nat) : Prop
  | entered (hplace : s.place c = .entered ∨
      s.place c = .refused) (hdevice : s.device = []) (hused : s.used = [])
      (hdone : s.done = 0) (hanswer : s.answer c = none)
  | asked (hplace : s.place c = .queued ∨
      s.place c = .waiting) (hdevice : s.device = [c]) (hused : s.used = [])
      (hdone : s.done = 0) (hanswer : s.answer c = none)
  | answered (hplace : s.place c = .queued ∨
      s.place c = .waiting) (hdevice : s.device = []) (hused : s.used = [c])
      (hdone : s.done = 0) (hanswer : s.answer c = some s.result)
  | reported (hplace : s.place c = .queued ∨
      s.place c = .waiting) (hdevice : s.device = []) (hused : s.used = [])
      (hdone : s.done = 1) (hanswer : s.answer c = some s.result)
  | woken (hplace : s.place c = .woken) (hdevice : s.device = []) (hused : s.used = [])
      (hanswer : s.answer c = some s.result)

/-- The invariant. -/
structure Sound (s : Ctl) : Prop where
  one : s.active = [] ∨ ∃ c, s.active = [c] ∧ s.Progress c
  others : ∀ d, d ∉ s.active → s.place d = .idle ∨ s.place d = .returned
  fresh : ∀ d, s.place d = .idle → s.answer d = none
  device : ∀ d ∈ s.device, s.place d ≠ .idle
  own : ∀ r ∈ s.returns, r.Own

theorem sound_init : init.Sound where
  one := .inl rfl
  others := fun _ _ => .inl rfl
  fresh := fun _ _ => rfl
  device := nofun
  own := nofun

/-- A call that has begun is the one. -/
theorem Sound.progress (h : s.Sound) (hidle : s.place c ≠ .idle)
    (hreturned : s.place c ≠ .returned) :
    s.active = [c] ∧ s.Progress c := by
  have hmem : c ∈ s.active := by
    by_contra hc
    exact (h.others c hc).elim hidle hreturned
  rcases h.one with hnil | ⟨d, hd, hp⟩
  · rw [hnil] at hmem
    cases hmem
  · rw [hd] at hmem
    obtain rfl := List.mem_singleton.mp hmem
    exact ⟨hd, hp⟩

/-- The call goes on. -/
theorem Sound.goes (h : s.Sound) (hactive : s.active = [c]) (ht : t.active = [c]) {p : Place}
    (hplace : t.place = Function.update s.place c p) (hp : p ≠ .idle)
    (hanswer : t.answer = s.answer) (hdevice : ∀ d ∈ t.device, d ∈ s.device ∨ d = c)
    (hreturns : t.returns = s.returns) (hprogress : t.Progress c) :
    t.Sound := by
  refine ⟨.inr ⟨c, ht, hprogress⟩, fun d hd => ?_, fun d hd => ?_, fun d hd => ?_, hreturns ▸ h.own⟩
  · rw [ht, ← hactive] at hd
    have hne : d ≠ c := by
      rintro rfl
      exact hd (hactive ▸ List.mem_singleton_self _)
    rw [hplace, Function.update_of_ne hne]
    exact h.others d hd
  · rw [hplace] at hd
    rw [hanswer]
    rcases eq_or_ne d c with rfl | hne
    · rw [Function.update_self] at hd
      exact absurd hd hp
    · rw [Function.update_of_ne hne] at hd
      exact h.fresh d hd
  · rw [hplace]
    rcases eq_or_ne d c with rfl | hne
    · rwa [Function.update_self]
    · rw [Function.update_of_ne hne]
      exact h.device d ((hdevice d hd).resolve_right hne)

/-- The call is over. -/
theorem Sound.ends (h : s.Sound) (hactive : s.active = [c]) {r : Ret}
    (hown : Return.Own ⟨c, r, s.answer c⟩) (lock : Option Nat) :
    ({ s.ends c r with lock := lock } : Ctl).Sound := by
  have hnone : s.active.erase c = [] := by
    rw [hactive]
    simp
  refine ⟨.inl hnone, fun d _ => ?_, fun d hd => ?_, fun d hd => ?_, fun q hq => ?_⟩
  · show Function.update s.place c .returned d = _ ∨ Function.update s.place c .returned d = _
    rcases eq_or_ne d c with rfl | hne
    · exact .inr (Function.update_self ..)
    · rw [Function.update_of_ne hne]
      exact h.others d (by rw [hactive]; simp [hne])
  · have hd : Function.update s.place c .returned d = .idle := hd
    rcases eq_or_ne d c with rfl | hne
    · rw [Function.update_self] at hd
      cases hd
    · rw [Function.update_of_ne hne] at hd
      exact h.fresh d hd
  · show Function.update s.place c .returned d ≠ .idle
    rcases eq_or_ne d c with rfl | hne
    · rw [Function.update_self]
      nofun
    · rw [Function.update_of_ne hne]
      exact h.device d hd
  · rcases List.mem_append.mp hq with hold | hnew
    · exact h.own q hold
    · exact List.mem_singleton.mp hnew ▸ hown

/-- **The step.** -/
theorem Sound.step (h : s.Sound) {a : Event} (hguard : Alone s a) (hs : ctl.step s a = some t) :
    t.Sound := by
  cases a with
  | enter c =>
    obtain ⟨⟨hidle, -⟩, ht⟩ := Option.ite_none_right_eq_some.mp hs
    obtain rfl := Option.some.inj ht
    obtain ⟨hactive, hdevice, hused⟩ := hguard
    have hplace : Function.update s.place c .entered c = .entered := Function.update_self ..
    refine ⟨.inr ⟨c, ?_, .entered (.inl hplace) hdevice hused rfl (h.fresh c hidle)⟩,
      fun d hd => ?_, fun d hd => ?_, fun d hd => ?_, h.own⟩
    · show c :: s.active = [c]
      rw [hactive]
    · have hne : d ≠ c := by
        rintro rfl
        exact hd List.mem_cons_self
      show Function.update s.place c .entered d = _ ∨ Function.update s.place c .entered d = _
      rw [Function.update_of_ne hne]
      exact h.others d (by rw [hactive]; exact List.not_mem_nil)
    · have hd : Function.update s.place c .entered d = .idle := hd
      rcases eq_or_ne d c with rfl | hne
      · rw [Function.update_self] at hd
        cases hd
      · rw [Function.update_of_ne hne] at hd
        exact h.fresh d hd
    · have hd : d ∈ s.device := hd
      rw [hdevice] at hd
      cases hd
  | queue c ok =>
    obtain ⟨hplace, ht⟩ := Option.ite_none_right_eq_some.mp hs
    obtain rfl := Option.some.inj ht
    obtain ⟨hactive, hp⟩ := h.progress (c := c) (by rw [hplace]; nofun) (by rw [hplace]; nofun)
    cases hp with
    | entered _ hdevice hused hdone hanswer =>
      cases ok with
      | true =>
        refine h.goes (p := .queued) hactive hactive rfl nofun rfl (fun d hd => ?_) rfl
          (.asked (.inl (Function.update_self ..)) ?_ hused hdone hanswer)
        · exact (List.mem_append.mp hd).imp_right List.mem_singleton.mp
        · show s.device ++ [c] = [c]
          rw [hdevice, List.nil_append]
      | false =>
        exact h.goes (p := .refused) hactive hactive rfl nofun rfl (fun _ hd => .inl hd) rfl
          (.entered (.inr (Function.update_self ..)) hdevice hused hdone hanswer)
    | asked hp _ _ _ _ | answered hp _ _ _ _ | reported hp _ _ _ _ =>
        rw [hplace] at hp; cases hp <;> contradiction
    | woken hp _ _ _ => rw [hplace] at hp; cases hp
  | leave c =>
    simp only [ctl] at hs
    split at hs
    · rename_i hplace
      obtain rfl := Option.some.inj hs
      obtain ⟨hactive, hp⟩ := h.progress (c := c) (by rw [hplace]; nofun) (by rw [hplace]; nofun)
      have hself : Function.update s.place c .waiting c = .waiting := Function.update_self ..
      refine h.goes (p := .waiting) hactive hactive rfl nofun rfl (fun _ hd => .inl hd) rfl ?_
      cases hp with
      | entered hp _ _ _ _ => rw [hplace] at hp; cases hp <;> contradiction
      | asked _ hdevice hused hdone hanswer => exact .asked (.inr hself) hdevice hused hdone hanswer
      | answered _ hdevice hused hdone hanswer =>
          exact .answered (.inr hself) hdevice hused hdone hanswer
      | reported _ hdevice hused hdone hanswer =>
          exact .reported (.inr hself) hdevice hused hdone hanswer
      | woken hp _ _ _ => rw [hplace] at hp; cases hp
    · rename_i hplace
      obtain rfl := Option.some.inj hs
      obtain ⟨hactive, -⟩ := h.progress (c := c) (by rw [hplace]; nofun) (by rw [hplace]; nofun)
      exact h.ends hactive (r := .failed) trivial none
    · cases hs
  | wake c =>
    obtain ⟨⟨hplace, hpos⟩, ht⟩ := Option.ite_none_right_eq_some.mp hs
    obtain rfl := Option.some.inj ht
    obtain ⟨hactive, hp⟩ := h.progress (c := c) (by rw [hplace]; nofun) (by rw [hplace]; nofun)
    refine h.goes (p := .woken) hactive hactive rfl nofun rfl (fun _ hd => .inl hd) rfl ?_
    cases hp with
    | reported _ hdevice hused _ hanswer =>
        exact .woken (Function.update_self ..) hdevice hused hanswer
    | woken hp _ _ _ => rw [hplace] at hp; cases hp
    | entered _ _ _ hdone _ | asked _ _ _ hdone _ | answered _ _ _ hdone _ => omega
  | timeout c =>
    obtain ⟨⟨hplace, hzero⟩, ht⟩ := Option.ite_none_right_eq_some.mp hs
    obtain rfl := Option.some.inj ht
    obtain ⟨hactive, hp⟩ := h.progress (c := c) (by rw [hplace]; nofun) (by rw [hplace]; nofun)
    -- the device has not answered
    have hnone : s.answer c = none := by
      have hused : s.used = [] := hguard
      cases hp with
      | entered _ _ _ _ hanswer | asked _ _ _ _ hanswer => exact hanswer
      | answered _ _ hone _ _ => rw [hused] at hone; cases hone
      | reported _ _ _ hdone _ => omega
      | woken hp _ _ _ => rw [hplace] at hp; cases hp
    exact h.ends hactive (r := .timedOut) hnone s.lock
  | finish c =>
    obtain ⟨hplace, ht⟩ := Option.ite_none_right_eq_some.mp hs
    obtain rfl := Option.some.inj ht
    obtain ⟨hactive, hp⟩ := h.progress (c := c) (by rw [hplace]; nofun) (by rw [hplace]; nofun)
    have hanswer : s.answer c = some s.result := by
      cases hp with
      | woken _ _ _ hanswer => exact hanswer
      | entered hp _ _ _ _ | asked hp _ _ _ _ | answered hp _ _ _ _ | reported hp _ _ _ _ =>
        rw [hplace] at hp
        cases hp <;> contradiction
    refine h.ends hactive ?_ s.lock
    split
    · rename_i hok
      show s.answer c = some statusOk
      rw [hanswer, hok]
    · rename_i hbad
      exact ⟨s.result, hanswer, hbad⟩
  | answer code =>
    cases hdev : s.device with
    | nil => simp only [ctl, hdev] at hs; cases hs
    | cons c device =>
      simp only [ctl, hdev] at hs
      obtain rfl := Option.some.inj hs
      refine ⟨h.one.imp_right ?_, h.others, fun d hd => ?_, fun d hd => ?_, h.own⟩
      · rintro ⟨d, hactive, hp⟩
        refine ⟨d, hactive, ?_⟩
        cases hp with
        | asked hplace hdevice hused hdone hanswer =>
          obtain ⟨rfl, rfl⟩ := List.cons_eq_cons.mp (hdevice.symm.trans hdev)
          exact .answered hplace rfl
            (by show s.used ++ [d] = [d]; rw [hused, List.nil_append]) hdone
            (Function.update_self ..)
        | entered _ hdevice _ _ _ | answered _ hdevice _ _ _ | reported _ hdevice _ _ _
        | woken _ hdevice _ _ =>
          rw [hdev] at hdevice
          cases hdevice
      · have hne : d ≠ c := by
          rintro rfl
          exact h.device d (hdev ▸ List.mem_cons_self) hd
        show Function.update s.answer c (some code) d = none
        rw [Function.update_of_ne hne]
        exact h.fresh d hd
      · exact h.device d (hdev ▸ List.mem_cons_of_mem _ hd)
  | interrupt =>
    cases hu : s.used with
    | nil =>
      simp only [ctl, hu] at hs
      exact Option.some.inj hs ▸ h
    | cons c used =>
      simp only [ctl, hu] at hs
      obtain rfl := Option.some.inj hs
      refine ⟨h.one.imp_right ?_, h.others, h.fresh, h.device, h.own⟩
      rintro ⟨d, hactive, hp⟩
      refine ⟨d, hactive, ?_⟩
      cases hp with
      | answered hplace hdevice hused hdone hanswer =>
        obtain ⟨-, rfl⟩ := List.cons_eq_cons.mp (hused.symm.trans hu)
        exact .reported hplace hdevice rfl (by show s.done + 1 = 1; omega) hanswer
      | entered _ _ hused _ _ | asked _ _ hused _ _ | reported _ _ hused _ _ | woken _ _ hused _ =>
        rw [hu] at hused
        cases hused

/-- **A command gets its own answer** if it is given alone. -/
theorem own_command_answered (hr : ctl.Reach Alone .init s) : ∀ r ∈ s.returns, r.Own :=
  (hr.inv (I := Sound) sound_init fun _ _ _ h hg hs => h.step hg hs).own

/-- Two commands, one after the other; the second one is refused by the device. -/
theorem two_commands_answered : ∃ s, ctl.Reach Alone .init s ∧
    s.returns = [⟨0, .ok, some 0x8000⟩, ⟨1, .eio, some 0x8001⟩] ∧ ∀ r ∈ s.returns, r.Own := by
  obtain ⟨s, hr, hs⟩ := Reach.of_run_any (M := ctl) (G := Alone) (s := .init)
    (p := fun s => s.returns = [⟨0, .ok, some 0x8000⟩, ⟨1, .eio, some 0x8001⟩])
    [.enter 0, .queue 0 true, .answer 0x8000, .leave 0, .interrupt, .wake 0, .finish 0,
      .enter 1, .queue 1 true, .leave 1, .answer 0x8001, .interrupt, .wake 1, .finish 1]
        (by decide)
  exact ⟨s, hr, of_decide_eq_true hs, own_command_answered hr⟩

/-- The START work and a `hw_params` wait at the same time: the answer to START wakes the other
    call, which returns success although the device has not seen its command. -/
theorem answer_wakes_the_other_call : ¬ ∀ s, ctl.Reach Free .init s → ∀ r ∈ s.returns, r.Own := by
  intro hall
  obtain ⟨s, hr, hs⟩ := Reach.of_run_any (M := ctl) (G := Free) (s := .init)
    (p := fun s => s.returns = [⟨1, .ok, none⟩])
    [.enter 0, .queue 0 true, .leave 0, .enter 1, .queue 1 true, .leave 1, .answer 0x8000,
      .interrupt, .wake 1, .finish 1]
    (by decide)
  have hone := hall s hr ⟨1, .ok, none⟩
      (by rw [of_decide_eq_true hs]; exact List.mem_singleton_self _)
  cases hone

end Ctl

end CdjEmu.SoundCtl
