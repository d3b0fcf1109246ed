/-
  THE HOST'S BRIDGE — the one network bridge of a Windows host, the slots' taps in it, and what
  `netsh` does to them.

  Of the text that `netsh` prints the model keeps what it says: the bridge's GUID and which adapters
  are in it.  A GUID is a number here, new for every bridge.  `made`, the bridges that the app has
  created, is read by no operation.

  What the operations keep is `Host.Sound`: the record names a bridge that the app has made, and
  names the host's bridge where that is one of them.  With it a bridge is destroyed only where it is
  the app's and holds no other slot's tap (`destroys_own`).  `Host.Linked` is what a slot needs: its
  tap, in the bridge, beside its NIC.  Only `takeDown` and `removeTap` of the slot itself can take
  that away.
-/
import Mathlib

namespace CdjEmu.Net.Windows

/-- An adapter's connection name: a slot's tap, or a NIC. -/
inductive Adapter where
  | tap (slot : Nat)
  | nic (n : Nat)
  deriving DecidableEq

/-- The host's bridge, as `netsh` lists it. -/
structure Bridge where
  guid : Nat
  members : List Adapter
  deriving DecidableEq

structure Host where
  /-- The slots that have a tap adapter. -/
  taps : Nat → Bool
  bridge : Option Bridge
  /-- The record of the bridge that the app made. -/
  owned : Option Nat
  made : List Nat
  guids : Nat

variable (named : Nat → Bool)

/-- `is_tap_name`; `named` are the NICs that have been given such a name. -/
def Adapter.isTapName : Adapter → Bool
  | .tap _ => true
  | .nic n => named n

structure Teardown where
  removeFrom : Option Nat
  destroy : Option Nat

/-- `teardown` for the slot's tap. -/
def teardown (bridge : Option Bridge) (owned : Option Nat) (slot : Nat) : Teardown :=
  let bridged := bridge.elim [] Bridge.members
  let others := bridged.any fun a => a.isTapName named && decide (a ≠ .tap slot)
  let ours := bridge.any fun b => decide (owned = some b.guid)
  if ours && !others then ⟨none, bridge.map Bridge.guid⟩
  else ⟨if bridged.contains (.tap slot) then bridge.map Bridge.guid else none, none⟩

namespace Bridge

def add (b : Bridge) (a : Adapter) : Bridge :=
  if b.members.contains a then b else { b with members := b.members ++ [a] }

def drop (b : Bridge) (a : Adapter) : Bridge := { b with members := b.members.filter (· ≠ a) }

theorem mem_add {b : Bridge} {a x : Adapter} : x ∈ (b.add a).members ↔ x = a ∨ x ∈ b.members := by
  unfold add
  split
  · rename_i hin
    rw [List.contains_iff_mem] at hin
    exact ⟨Or.inr, fun h => h.elim (fun heq => heq ▸ hin) id⟩
  · rw [List.mem_append, List.mem_singleton]
    exact or_comm

theorem mem_drop {b : Bridge} {a x : Adapter} : x ∈ (b.drop a).members ↔ x ∈ b.members ∧ x ≠ a := by
  unfold drop
  rw [List.mem_filter, decide_eq_true_iff]

theorem guid_add (b : Bridge) (a : Adapter) : (b.add a).guid = b.guid := by
  unfold add
  split
  · rfl
  · rfl

end Bridge

namespace Host

variable (x : Host)

/-- `slot_tap` and `prepare_tap`. -/
def slotTap (slot : Nat) : Host := { x with taps := Function.update x.taps slot true }

/-- `host_bridge`; `both` says whether `netsh bridge create` joins the NIC too. -/
def hostBridge (slot nic : Nat) (both : Bool) : Host :=
  match x.bridge with
  | some _ => x
  | none =>
    { x with
      bridge := some ⟨x.guids, if both then [.tap slot, .nic nic] else [.tap slot]⟩
      owned := some x.guids, made := x.guids :: x.made, guids := x.guids + 1 }

/-- One adapter's turn in `join_bridge`. -/
def join (a : Adapter) : Host := { x with bridge := x.bridge.map fun b => b.add a }

/-- `take_down`. -/
def takeDown (slot : Nat) : Host :=
  let plan := teardown named x.bridge x.owned slot
  let x := if plan.removeFrom.isSome then
      { x with bridge := x.bridge.map fun b => b.drop (.tap slot) } else x
  if plan.destroy.isSome then { x with bridge := none, owned := none } else x

/-- `remove_tap`; an adapter that is gone is in no bridge. -/
def removeTap (slot : Nat) : Host :=
  { x with
    taps := Function.update x.taps slot false
    bridge := x.bridge.map fun b => b.drop (.tap slot) }

/-- The slot's link is up. -/
structure Linked (slot nic : Nat) : Prop where
  tap : x.taps slot = true
  bridged : ∃ b, x.bridge = some b ∧ .tap slot ∈ b.members ∧ .nic nic ∈ b.members

/-- The record names the app's bridge, and no NIC of it is named like a tap. -/
structure Sound : Prop where
  made_lt : ∀ g ∈ x.made, g < x.guids
  guid_lt : ∀ b, x.bridge = some b → b.guid < x.guids
  owned : ∀ g, x.owned = some g → g ∈ x.made
  record : ∀ b, x.bridge = some b → b.guid ∈ x.made → x.owned = some b.guid
  nics : ∀ b, x.bridge = some b → b.guid ∈ x.made → ∀ n, .nic n ∈ b.members → named n = false

theorem taps_hostBridge (slot nic : Nat) (both : Bool) (k : Nat) :
    (x.hostBridge slot nic both).taps k = x.taps k := by
  unfold hostBridge
  split
  · rfl
  · rfl

theorem bridge_hostBridge (slot nic : Nat) (both : Bool) :
    ∃ b, (x.hostBridge slot nic both).bridge = some b := by
  unfold hostBridge
  split
  · rename_i b hb
    exact ⟨b, hb⟩
  · exact ⟨_, rfl⟩

/-! ## What `take_down` does -/

/-- The bridge holds another slot's tap, or a NIC that is named like one. -/
def others (slot : Nat) : Bool :=
  (x.bridge.elim [] Bridge.members).any fun a => a.isTapName named && decide (a ≠ .tap slot)

theorem others_iff {slot : Nat} : x.others named slot = true ↔
    ∃ b, x.bridge = some b ∧ ∃ a ∈ b.members, a.isTapName named = true ∧ a ≠ .tap slot := by
  unfold others
  cases x.bridge with
  | none => exact ⟨fun h => absurd h Bool.false_ne_true, fun ⟨_, h, _⟩ =>
      absurd h.symm (Option.some_ne_none _)⟩
  | some b =>
    rw [Option.elim_some, List.any_eq_true]
    constructor
    · rintro ⟨a, ha, h⟩
      rw [Bool.and_eq_true, decide_eq_true_iff] at h
      exact ⟨b, rfl, a, ha, h.1, h.2⟩
    · rintro ⟨b', hb, a, ha, h1, h2⟩
      obtain rfl := Option.some.inj hb
      exact ⟨a, ha, by rw [h1, decide_eq_true h2]; rfl⟩

/-- The bridge without the slot's tap. -/
def Trimmed (slot : Nat) (b b' : Bridge) : Prop :=
  b'.guid = b.guid ∧ ∀ a, a ∈ b'.members ↔ a ∈ b.members ∧ a ≠ .tap slot

theorem trimmed_drop (b : Bridge) (slot : Nat) : Trimmed slot b (b.drop (.tap slot)) :=
  ⟨rfl, fun _ => Bridge.mem_drop⟩

theorem teardown_eq (slot : Nat) : teardown named x.bridge x.owned slot =
    if (x.bridge.any fun b => decide (x.owned = some b.guid)) && !x.others named slot then
      ⟨none, x.bridge.map Bridge.guid⟩
    else ⟨if (x.bridge.elim [] Bridge.members).contains (.tap slot) then x.bridge.map Bridge.guid
      else none, none⟩ := rfl

/-- `take_down` destroys the recorded bridge where no other tap is in it, and takes the slot's tap
    out otherwise. -/
theorem takeDown_cases (slot : Nat) :
    (∃ b, x.bridge = some b ∧ x.owned = some b.guid ∧ x.others named slot = false ∧
      x.takeDown named slot = { x with bridge := none, owned := none }) ∨
    ((∀ b, x.bridge = some b → x.owned = some b.guid → x.others named slot = true) ∧
      ∃ f : Bridge → Bridge, (∀ b, x.bridge = some b → Trimmed slot b (f b)) ∧
        x.takeDown named slot = { x with bridge := x.bridge.map f }) := by
  unfold takeDown
  dsimp only
  rw [teardown_eq]
  split
  · rename_i hdestroy
    rw [Bool.and_eq_true, Bool.not_eq_true', Option.any_eq_true] at hdestroy
    obtain ⟨⟨b, hb, howned⟩, hothers⟩ := hdestroy
    refine Or.inl ⟨b, hb, of_decide_eq_true howned, hothers, ?_⟩
    rw [hb]
    rfl
  · rename_i hkeep
    refine Or.inr ⟨?_, ?_⟩
    · intro b hb howned
      apply Bool.of_not_eq_false
      intro hnot
      apply hkeep
      rw [hb, Option.any_some, decide_eq_true howned, hnot]
      rfl
    · cases hbridge : x.bridge with
      | none =>
        refine ⟨id, fun b hb => absurd hb.symm (Option.some_ne_none b), ?_⟩
        rw [Option.elim_none]
        exact congrArg (fun y => { x with bridge := y }) hbridge
      | some b =>
        rw [Option.elim_some]
        by_cases hin : .tap slot ∈ b.members
        · refine ⟨_, fun b _ => trimmed_drop b slot, ?_⟩
          rw [if_pos (List.contains_iff_mem.mpr hin)]
          rfl
        · refine ⟨id, ?_, ?_⟩
          · intro b' hb'
            obtain rfl := Option.some.inj hb'
            refine ⟨rfl, fun a => ⟨fun ha => ⟨ha, ?_⟩, And.left⟩⟩
            rintro rfl
            exact hin ha
          · rw [if_neg (fun hc => hin (List.contains_iff_mem.mp hc))]
            exact congrArg (fun y => { x with bridge := y }) hbridge

/-! ## What the operations keep -/

variable {x named}

theorem Sound.slotTap (h : x.Sound named) (slot : Nat) : (x.slotTap slot).Sound named :=
  ⟨h.made_lt, h.guid_lt, h.owned, h.record, h.nics⟩

theorem Sound.hostBridge (h : x.Sound named) (slot : Nat) {nic : Nat} (hnic : named nic = false)
    (both : Bool) :
    (x.hostBridge slot nic both).Sound named := by
  unfold Host.hostBridge
  split
  · exact h
  · constructor
    · intro g hg
      obtain rfl | hg := List.mem_cons.mp hg
      · exact Nat.lt_succ_self _
      · exact Nat.lt_succ_of_lt (h.made_lt g hg)
    · intro b hb
      obtain rfl := Option.some.inj hb
      exact Nat.lt_succ_self _
    · intro g hg
      obtain rfl := Option.some.inj hg
      exact List.mem_cons_self
    · intro b hb _
      obtain rfl := Option.some.inj hb
      rfl
    · intro b hb _ n hn
      obtain rfl := Option.some.inj hb
      cases both with
      | true =>
        obtain hn | hn := List.mem_cons.mp hn
        · cases hn
        · obtain rfl : n = nic := by
            have heq := List.mem_singleton.mp hn
            cases heq
            rfl
          exact hnic
      | false => cases List.mem_singleton.mp hn

theorem Sound.join (h : x.Sound named) {a : Adapter} (ha : ∀ n, a = .nic n → named n = false) :
    (x.join a).Sound named := by
  have hbridge : ∀ b', (x.join a).bridge = some b' → ∃ b, x.bridge = some b ∧ b' = b.add a := by
    intro b' hb'
    obtain ⟨b, hb, rfl⟩ := Option.map_eq_some_iff.mp hb'
    exact ⟨b, hb, rfl⟩
  refine ⟨h.made_lt, ?_, h.owned, ?_, ?_⟩
  · intro b' hb'
    obtain ⟨b, hb, rfl⟩ := hbridge b' hb'
    rw [Bridge.guid_add]
    exact h.guid_lt b hb
  · intro b' hb' hmade
    obtain ⟨b, hb, rfl⟩ := hbridge b' hb'
    rw [Bridge.guid_add] at hmade ⊢
    exact h.record b hb hmade
  · intro b' hb' hmade n hn
    obtain ⟨b, hb, rfl⟩ := hbridge b' hb'
    rw [Bridge.guid_add] at hmade
    obtain heq | hn := Bridge.mem_add.mp hn
    · exact ha n heq.symm
    · exact h.nics b hb hmade n hn

/-- What takes a tap out keeps the record right. -/
theorem Sound.trim (h : x.Sound named) {slot : Nat} {f : Bridge → Bridge}
    (hf : ∀ b, x.bridge = some b → Trimmed slot b (f b)) (taps : Nat → Bool) :
    ({ x with taps, bridge := x.bridge.map f } : Host).Sound named := by
  refine ⟨h.made_lt, ?_, h.owned, ?_, ?_⟩
  · intro b' hb'
    obtain ⟨b, hb, rfl⟩ := Option.map_eq_some_iff.mp hb'
    rw [(hf b hb).1]
    exact h.guid_lt b hb
  · intro b' hb' hmade
    obtain ⟨b, hb, rfl⟩ := Option.map_eq_some_iff.mp hb'
    rw [(hf b hb).1] at hmade ⊢
    exact h.record b hb hmade
  · intro b' hb' hmade n hn
    obtain ⟨b, hb, rfl⟩ := Option.map_eq_some_iff.mp hb'
    rw [(hf b hb).1] at hmade
    exact h.nics b hb hmade n (((hf b hb).2 _).mp hn).1

theorem Sound.takeDown (h : x.Sound named) (slot : Nat) : (x.takeDown named slot).Sound named := by
  obtain ⟨b, hb, -, -, heq⟩ | ⟨-, f, hf, heq⟩ := x.takeDown_cases named slot
  · rw [heq]
    exact ⟨h.made_lt, fun _ hn => absurd hn.symm (Option.some_ne_none _),
      fun _ hn => absurd hn.symm (Option.some_ne_none _), fun _ hn => absurd hn.symm
        (Option.some_ne_none _), fun _ hn => absurd hn.symm (Option.some_ne_none _)⟩
  · rw [heq]
    exact h.trim hf x.taps

theorem Sound.removeTap (h : x.Sound named) (slot : Nat) : (x.removeTap slot).Sound named :=
  h.trim (fun b _ => trimmed_drop b slot) _

/-- **Only the app's bridge is destroyed**, and only with no other slot's tap in it. -/
theorem Sound.destroys_own (h : x.Sound named) {slot g : Nat}
    (hg : (teardown named x.bridge x.owned slot).destroy = some g) :
    g ∈ x.made ∧ ∃ b, x.bridge = some b ∧ b.guid = g ∧ ∀ j, .tap j ∈ b.members → j = slot := by
  rw [teardown_eq] at hg
  split at hg
  · rename_i hdestroy
    rw [Bool.and_eq_true, Bool.not_eq_true', Option.any_eq_true] at hdestroy
    obtain ⟨⟨b, hb, howned⟩, hothers⟩ := hdestroy
    dsimp only at hg
    rw [hb] at hg
    obtain rfl := Option.some.inj hg
    refine ⟨h.owned _ (of_decide_eq_true howned), b, hb, rfl, ?_⟩
    intro j hj
    by_contra hne
    rw [Bool.eq_false_iff] at hothers
    apply hothers
    apply (x.others_iff named).mpr
    refine ⟨b, hb, _, hj, rfl, ?_⟩
    intro heq
    cases heq
    exact hne rfl
  · cases hg

/-! ## What a slot's link outlasts -/

theorem Linked.slotTap {k nic : Nat} (h : x.Linked k nic) (slot : Nat) :
    (x.slotTap slot).Linked k nic := by
  refine ⟨?_, h.bridged⟩
  by_cases hk : k = slot
  · rw [hk]
    exact Function.update_self slot true x.taps
  · exact (Function.update_of_ne hk true x.taps).trans h.tap

theorem Linked.hostBridge {k nic : Nat} (h : x.Linked k nic) (slot n : Nat) (both : Bool) :
    (x.hostBridge slot n both).Linked k nic := by
  obtain ⟨b, hb, -⟩ := h.bridged
  rw [Host.hostBridge, hb]
  exact h

theorem Linked.join {k nic : Nat} (h : x.Linked k nic) (a : Adapter) : (x.join a).Linked k nic := by
  obtain ⟨b, hb, htap, hnic⟩ := h.bridged
  refine ⟨h.tap, b.add a, ?_, Bridge.mem_add.mpr (Or.inr htap), Bridge.mem_add.mpr (Or.inr hnic)⟩
  rw [Host.join, hb]
  rfl

theorem Linked.trim {k nic slot : Nat} (h : x.Linked k nic) (hk : k ≠ slot) {f : Bridge → Bridge}
    (hf : ∀ b, x.bridge = some b → Trimmed slot b (f b)) {taps : Nat → Bool}
    (htaps : taps k = x.taps k) :
    ({ x with taps, bridge := x.bridge.map f } : Host).Linked k nic := by
  obtain ⟨b, hb, htap, hnic⟩ := h.bridged
  refine ⟨htaps.trans h.tap, f b, ?_, ?_, ?_⟩
  · rw [hb]
    rfl
  · apply ((hf b hb).2 _).mpr
    refine ⟨htap, fun heq => ?_⟩
    cases heq
    exact hk rfl
  · apply ((hf b hb).2 _).mpr
    exact ⟨hnic, fun heq => by cases heq⟩

theorem Linked.takeDown {k nic slot : Nat} (h : x.Linked k nic) (hk : k ≠ slot) :
    (x.takeDown named slot).Linked k nic := by
  obtain ⟨b, hb, -, hothers, -⟩ | ⟨-, f, hf, heq⟩ := x.takeDown_cases named slot
  · obtain ⟨b', hb', htap, -⟩ := h.bridged
    rw [Bool.eq_false_iff] at hothers
    refine absurd ((x.others_iff named).mpr ⟨b', hb', _, htap, rfl, ?_⟩) hothers
    intro heq
    cases heq
    exact hk rfl
  · rw [heq]
    exact h.trim hk hf rfl

theorem Linked.removeTap {k nic slot : Nat} (h : x.Linked k nic) (hk : k ≠ slot) :
    (x.removeTap slot).Linked k nic :=
  h.trim hk (fun b _ => trimmed_drop b slot) (Function.update_of_ne hk _ _)

end Host

end CdjEmu.Net.Windows
