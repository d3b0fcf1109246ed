/-
  GUEST EJECTS — whose medium a `usb_state 0` line removes.

  cfgd sends the line when the guest has ejected the medium THEN in the drive, and the line carries
  no medium.  It waits on the wire and then in the one cell of `CfgClient` until the worker polls,
  once a tick, after the mounts of the same tick; a restart clears neither.  A medium that goes in
  meanwhile is therefore ejected by a line that was about the one before it.

  The ghost `Line.medium` says what a line is about, `Manager.serial` which medium is in the drive.
  They agree for every unread eject line while something is attached (`LinesFit`), as long as no
  attach succeeds while such a line is unread.

  The counter `serial` and the line's `medium` are read by no step.  The run is that of the whole
  worker with its USB slot: mounts, ejects, restarts and the guest's own ejects in any order; the
  condition is that no attach succeeds while an eject line is unread.  It is on the state before the
  tick's mount and says nothing of what the poll then does.
-/
import CdjEmu.Usb.Worker

namespace CdjEmu.Usb

open Machine

/-- The lines that the worker has not polled: the cell, then the wire. -/
def State.unread (s : State) : List Line := s.usbState.toList ++ s.wire

/-- At the worker's next step `acknowledge_guest_eject` acts on `line` and
    swaps in the placeholder. -/
def Removes (s : State) (l : Luck) (line : Line) : Prop :=
  s.place = .acknowledge ∧ s.qemu ≠ .none ∧ s.usbState = some line ∧ line.mounted = false ∧
    (s.usb.acknowledgeGuestEject (s.faultsOn l)).2.toOption = some true

instance (s : State) (l : Luck) (line : Line) : Decidable (Removes s l line) :=
  inferInstanceAs (Decidable (_ ∧ _ ∧ _ ∧ _ ∧ _))

/-- **The condition.**  No attach succeeds while a `usb_state 0` line is on its way or unread. -/
def NoAttachOverEject (s : State) : Ev → Prop
  | .work l => ∀ c ∈ s.call l, c.target.Succeeds s.usb (s.faultsOn l) →
      ∀ line ∈ s.unread, line.mounted = true
  | _ => True

instance (s : State) (e : Ev) : Decidable (NoAttachOverEject s e) :=
  match e with
  | .work l => inferInstanceAs (Decidable (∀ c ∈ s.call l, _ → ∀ line ∈ s.unread, _))
  | .clickDisk _ | .clickEject | .pickImage _ _ | .apiAttach _ | .apiEject | .showAlert
  | .answerAlert _ | .requestRestart | .guestExit | .guestLine _ | .deliver =>
    inferInstanceAs (Decidable True)

/-- **The invariant.**  While something is attached, every unread eject line is about it. -/
def LinesFit (s : State) : Prop :=
  s.usb.current ≠ none → ∀ line ∈ s.unread, line.mounted = false → line.medium = s.usb.serial

section Step

variable {s t : State} {l : Luck}

theorem LinesFit.of_empty (h : s.usb.current = none) : LinesFit s := fun hc => absurd h hc

/-- Losing lines and keeping the manager keeps the invariant. -/
theorem LinesFit.mono (h : LinesFit s) (husb : t.usb = s.usb) (hsub : t.unread ⊆ s.unread) :
    LinesFit t := by
  intro hc line hline
  rw [husb] at hc ⊢
  exact h hc line (hsub hline)

/-- An attach that succeeds finds no eject line unread; one that fails leaves nothing attached. -/
theorem Served.linesFit {next : Place} (h : LinesFit s) (hg : NoAttachOverEject s (.work l))
    (hserved : Served s l next t) : LinesFit t := by
  cases hserved with
  | skipped => exact h.mono rfl (List.Subset.refl _)
  | attached hcall _ hres =>
    cases hres with
    | ok hs hin hline =>
      intro _ line hmem hfalse
      have htrue : line.mounted = true := hg _ hcall ⟨hs, hin, hline⟩ line hmem
      rw [htrue] at hfalse
      nomatch hfalse
  | failed _ _ hres => exact .of_empty hres.current

theorem Works.linesFit (h : LinesFit s) (hg : NoAttachOverEject s (.work l))
    (hw : Works s l t) : LinesFit t := by
  cases hw with
  | resets => exact .of_empty rfl
  | serves _ hserved => exact hserved.linesFit h hg
  | picks _ hserved => exact (hserved.linesFit h hg).mono rfl (List.Subset.refl _)
  | ejects _ _ hdet => exact .of_empty hdet.current
  | ejectFails _ _ hdet => exact .of_empty hdet.current
  | polls =>
    -- the poll takes the line out of the cell
    exact h.mono rfl (List.subset_append_right _ _)
  | acknowledges _ _ _ _ hdet => exact .of_empty hdet.current
  | acknowledgeFails _ _ _ hdet => exact .of_empty hdet.current
  | _ => exact h.mono rfl (List.Subset.refl _)

theorem LinesFit.step {e : Ev} (h : LinesFit s) (hg : NoAttachOverEject s e)
    (hs : usbMachine.step s e = some t) : LinesFit t := by
  cases steps hs with
  | works hw => exact hw.linesFit h hg
  | exits => exact h.mono rfl (List.Subset.refl _)
  | acts => exact h.mono rfl (List.Subset.refl _)
  | @sends b hdrive =>
    -- the new line is about the medium in the drive
    intro hc line hline hfalse
    have hline : line ∈ s.unread ++ [⟨b, s.usb.serial⟩] := by
      simpa [State.unread, List.append_assoc] using hline
    rcases List.mem_append.mp hline with hold | hnew
    · exact h hc line hold hfalse
    · rw [List.mem_singleton.mp hnew]
  | @delivers line wire hwire =>
    refine h.mono rfl fun x hx => ?_
    rw [State.unread, hwire]
    exact List.mem_append_right _ hx

end Step

/-- **Main theorem.**  In every run in which no attach succeeds while a `usb_state 0` line is
    unread, a guest eject removes the medium that was in the drive when the guest sent the line. -/
theorem guest_eject_removes_its_medium (passesFds : Bool) (qemu : Qemu)
    (img savedPhysBsd : Option String) {s : State} {l : Luck} {line : Line}
    (hs : usbMachine.Reach NoAttachOverEject (started passesFds qemu img savedPhysBsd) s)
    (hr : Removes s l line) : line.medium = s.usb.serial := by
  have h0 : LinesFit (started passesFds qemu img savedPhysBsd) := .of_empty rfl
  have hinv : LinesFit s := hs.inv (I := LinesFit) h0 fun _ _ _ h hg hstep => h.step hg hstep
  obtain ⟨_, _, hcell, hfalse, hremoved⟩ := hr
  have hcur : s.usb.current ≠ none := by
    intro hc
    simp [Manager.acknowledgeGuestEject, hc, Except.toOption] at hremoved
  exact hinv hcur line (by simp [State.unread, hcell]) hfalse

/-- The image is mounted, the guest ejects it, and nothing is mounted until the next poll. -/
theorem guest_eject_removes_its_medium_at_once :
    ∃ s line, usbMachine.Reach NoAttachOverEject (started false .running none none) s ∧
      Removes s {} line ∧ line.medium = s.usb.serial := by
  obtain ⟨s, hs, hp⟩ := Reach.of_run_any (M := usbMachine) (G := NoAttachOverEject)
    (s := started false .running none none) (p := fun s => decide (Removes s {} ⟨false, 1⟩))
    (.pickImage false "/sticks/a.img" :: ticks 11 ++ .guestLine false :: .deliver :: ticks 8)
    (by decide)
  have hr : Removes s {} ⟨false, 1⟩ := of_decide_eq_true hp
  exact ⟨s, _, hs, hr, guest_eject_removes_its_medium false .running none none hs hr⟩

/-- **The defect.**  The guest ejects the first image, and the user mounts a second one
    before the worker polls: the tick mounts the second image and then ejects it, for
    the line about the first. -/
theorem stale_line_ejects_the_next_medium :
    ¬ ∀ (s : State) (l : Luck) (line : Line),
      usbMachine.Reach Free (started false .running none none) s → Removes s l line →
        line.medium = s.usb.serial := by
  intro hall
  obtain ⟨s, hs, hp⟩ := Reach.of_run_any (M := usbMachine) (G := Free)
    (s := started false .running none none)
    (p := fun s => decide (Removes s {} ⟨false, 1⟩) && decide (s.usb.serial = 2))
    (.pickImage false "/sticks/a.img" :: ticks 11 ++ .guestLine false :: .deliver ::
      .pickImage false "/sticks/b.img" :: ticks 8)
    (by decide)
  simp only [Bool.and_eq_true, decide_eq_true_eq] at hp
  have hone := hall s {} _ hs hp.1
  rw [hp.2] at hone
  exact absurd hone (by decide)

end CdjEmu.Usb
