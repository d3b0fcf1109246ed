/-
  FOLDER GRAPHS — descending through folders that may lead back to themselves.

  A folder has names, and each of them leads to a file or to a folder; a link leads where it points,
  so a folder may be reached along several routes and may even lie below itself (`Below`).

  `collect` descends and refuses a folder that it is already in.  What it costs is the chain of
  folders it is in, not the folders it has seen: `collect_some_iff` — as deep as there are folders,
  it succeeds exactly when no folder it can reach lies below itself.  What it yields is then every
  route, once (`collect_routes`): a folder with two routes is listed twice.
-/
import CdjEmu.Lib.Except

namespace CdjEmu

/-- What a name leads to. -/
inductive Target (ι A : Type) where
  | file (a : A)
  | folder (i : ι)
  deriving DecidableEq

/-- The folders `ι`, with their names and what these lead to. -/
structure FolderGraph (ι N A : Type) where
  names : ι → List N
  target : ι → N → Target ι A
  nodup : ∀ i, (names i).Nodup

namespace FolderGraph

open Relation

variable {ι N A : Type} (g : FolderGraph ι N A)

/-- A name of `i` leads to the folder `j`. -/
def Below (i j : ι) : Prop := ∃ n ∈ g.names i, g.target i n = .folder j

/-- The names `ns`, one after the other from `i` on, lead to `t`. -/
inductive Route : ι → List N → Target ι A → Prop
  | here {i : ι} {n : N} (hn : n ∈ g.names i) : Route i [n] (g.target i n)
  | down {i j : ι} {n : N} {ns : List N} {t : Target ι A} (hn : n ∈ g.names i)
      (hj : g.target i n = .folder j) (hr : Route j ns t) : Route i (n :: ns) t

/-- What a name leads to, and what is below it when that is a folder. -/
def under (below : ι → Except ι (List (List N × Target ι A))) (i : ι) (n : N) :
    Except ι (List (List N × Target ι A)) :=
  match g.target i n with
  | .file a => .ok [([n], .file a)]
  | .folder j => (below j).map fun rs => ([n], .folder j) :: rs.map fun r => (n :: r.1, r.2)

/-- Descend from `i` at most `fuel` folders deep; `seen` are the folders above. -/
def collect [DecidableEq ι] : Nat → ι → List ι → Except ι (List (List N × Target ι A))
  | 0, i, _ => .error i
  | fuel + 1, i, seen =>
    if i ∈ seen then .error i
    else ((g.names i).mapM (g.under (fun j => collect fuel j (i :: seen)) i)).map List.flatten

variable {g} {i j : ι} {n : N} {ns : List N} {t : Target ι A}

theorem route_cons : g.Route i (n :: ns) t ↔
    n ∈ g.names i ∧
    (ns = [] ∧ t = g.target i n ∨ ∃ j, g.target i n = .folder j ∧ g.Route j ns t) := by
  constructor
  · rintro (⟨hn⟩ | ⟨hn, hj, hr⟩)
    · exact ⟨hn, .inl ⟨rfl, rfl⟩⟩
    · exact ⟨hn, .inr ⟨_, hj, hr⟩⟩
  · rintro ⟨hn, ⟨rfl, rfl⟩ | ⟨j, hj, hr⟩⟩
    · exact .here hn
    · exact .down hn hj hr

theorem not_route_nil : ¬ g.Route i [] t := by
  rintro ⟨⟩

/-- Only which names there are matters to a route. -/
theorem Route.of_names {g g' : FolderGraph ι N A} (hn : ∀ i n, n ∈ g.names i → n ∈ g'.names i)
    (ht : g'.target = g.target) (h : g.Route i ns t) : g'.Route i ns t := by
  induction h with
  | here hmem => exact ht ▸ .here (hn _ _ hmem)
  | down hmem hj _ ih => exact .down (hn _ _ hmem) (ht ▸ hj) ih

/-! ## What one name contributes -/

section Under

variable {below : ι → Except ι (List (List N × Target ι A))} {rs : List (List N × Target ι A)}

theorem under_eq_ok : g.under below i n = .ok rs ↔
    (∃ a, g.target i n = .file a ∧ rs = [([n], .file a)]) ∨
      ∃ j rs', g.target i n = .folder j ∧ below j = .ok rs' ∧
      rs = ([n], .folder j) :: rs'.map fun r => (n :: r.1, r.2) := by
  unfold under
  cases ht : g.target i n with
  | file a => simp [eq_comm]
  | folder j =>
    cases hj : below j with
    | error e => simp [Except.map, hj]
    | ok rs' => simp [Except.map, hj, eq_comm]

/-- Where everything below is listed by its routes, so is a name. -/
theorem mem_under (hn : n ∈ g.names i) (h : g.under below i n = .ok rs)
    (hbelow : ∀ j rs', below j = .ok rs' → ∀ ns t, (ns, t) ∈ rs' ↔ g.Route j ns t)
    (ns : List N) (t : Target ι A) : (ns, t) ∈ rs ↔ ∃ ns', ns = n :: ns' ∧ g.Route i ns t := by
  rcases under_eq_ok.mp h with ⟨a, ha, rfl⟩ | ⟨j, rs', hj, hrs', rfl⟩
  · rw [List.mem_singleton, Prod.mk.injEq]
    constructor
    · rintro ⟨rfl, rfl⟩
      exact ⟨[], rfl, ha ▸ .here hn⟩
    · rintro ⟨ns', rfl, hr⟩
      rcases (route_cons.mp hr).2 with ⟨rfl, rfl⟩ | ⟨j, hj, -⟩
      · exact ⟨rfl, ha⟩
      · rw [ha] at hj
        cases hj
  · have hiff := hbelow j rs' hrs'
    rw [List.mem_cons, Prod.mk.injEq, List.mem_map]
    constructor
    · rintro (⟨rfl, rfl⟩ | ⟨⟨ns', t'⟩, hr, heq⟩)
      · exact ⟨[], rfl, hj ▸ .here hn⟩
      · obtain ⟨rfl, rfl⟩ := Prod.mk.injEq .. ▸ heq
        exact ⟨ns', rfl, .down hn hj ((hiff ns' t').mp hr)⟩
    · rintro ⟨ns', rfl, hr⟩
      rcases (route_cons.mp hr).2 with ⟨rfl, rfl⟩ | ⟨j', hj', hr⟩
      · exact .inl ⟨rfl, hj⟩
      · rw [hj] at hj'
        cases hj'
        exact .inr ⟨(ns', t), (hiff ns' t).mpr hr, rfl⟩

/-- Routes below that differ still differ with the name in front. -/
theorem nodup_under (h : g.under below i n = .ok rs)
    (hbelow : ∀ j rs', below j = .ok rs' → rs'.Nodup ∧ ∀ r ∈ rs', r.1 ≠ []) : rs.Nodup := by
  rcases under_eq_ok.mp h with ⟨a, ha, rfl⟩ | ⟨j, rs', hj, hrs', rfl⟩
  · exact List.nodup_singleton _
  · obtain ⟨hnd, hne⟩ := hbelow j rs' hrs'
    refine List.nodup_cons.mpr ⟨?_, ?_⟩
    · intro hmem
      obtain ⟨r, hr, heq⟩ := List.mem_map.mp hmem
      have hnil : n :: r.1 = [n] := congrArg Prod.fst heq
      exact hne r hr (List.cons.inj hnil).2
    · refine hnd.map fun r r' heq => ?_
      obtain ⟨h1, h2⟩ := Prod.mk.injEq .. ▸ heq
      exact Prod.ext (List.cons.inj h1).2 h2

/-- What the names of a folder contribute, each its own routes and nobody else's. -/
theorem flatten_routes {l : List N} {parts : List (List (List N × Target ι A))} (hl : l.Nodup)
    (hparts : List.Forall₂ (fun n part => part.Nodup ∧ ∀ ns t, (ns, t) ∈ part ↔
      ∃ ns', ns = n :: ns' ∧ g.Route i ns t) l parts) :
    parts.flatten.Nodup ∧ ∀ ns t, (ns, t) ∈ parts.flatten ↔ ∃ n ∈ l, ∃ ns', ns = n :: ns' ∧
    g.Route i ns t := by
  induction hparts with
  | nil => exact ⟨List.nodup_nil, fun ns t => by simp⟩
  | @cons n part l parts hpart _ ih =>
    obtain ⟨hn, hl⟩ := List.nodup_cons.mp hl
    obtain ⟨hnd, hmem⟩ := ih hl
    constructor
    · refine List.nodup_append.mpr ⟨hpart.1, hnd, ?_⟩
      -- a route that starts with `n` is none of the routes that start with another name
      rintro ⟨ns, t⟩ hr r' hr' rfl
      obtain ⟨ns', rfl, -⟩ := (hpart.2 ns t).mp hr
      obtain ⟨n', hn', ns'', heq, -⟩ := (hmem _ t).mp hr'
      exact hn ((List.cons.inj heq).1 ▸ hn')
    · intro ns t
      rw [List.flatten_cons, List.mem_append, hpart.2, hmem, List.exists_mem_cons_iff]

end Under

/-! ## What a descent lists -/

variable [DecidableEq ι]

theorem collect_succ_eq_ok {fuel : Nat} {seen : List ι} {rs : List (List N × Target ι A)} :
    g.collect (fuel + 1) i seen = .ok rs ↔
      i ∉ seen ∧ ∃ parts,
        List.Forall₂ (fun n part => g.under (fun j => g.collect fuel j (i :: seen)) i n = .ok part)
          (g.names i) parts ∧
        rs = parts.flatten := by
  rw [collect]
  by_cases hi : i ∈ seen
  · rw [if_pos hi]
    exact iff_of_false (by simp) fun h => h.1 hi
  · rw [if_neg hi, ← exists_congr fun parts => and_congr_left fun _ => mapM_eq_ok]
    cases (g.names i).mapM (g.under (fun j => g.collect fuel j (i :: seen)) i) with
    | error e => simp [Except.map]
    | ok parts => simp [Except.map, hi, eq_comm]

/-- A descent that succeeds lists every route, and each of them once. -/
theorem collect_routes {fuel : Nat} {seen : List ι} {rs : List (List N × Target ι A)}
    (h : g.collect fuel i seen = .ok rs) :
    rs.Nodup ∧ ∀ ns t, (ns, t) ∈ rs ↔ g.Route i ns t := by
  induction fuel generalizing i seen rs with
  | zero => cases h
  | succ fuel ih =>
    obtain ⟨-, parts, hparts, rfl⟩ := collect_succ_eq_ok.mp h
    have hbelow : ∀ j rs', g.collect fuel j (i :: seen) = .ok rs' → ∀ ns t, (ns, t) ∈ rs' ↔
        g.Route j ns t :=
      fun j rs' hj => (ih hj).2
    have hne : ∀ j rs', g.collect fuel j (i :: seen) = .ok rs' → rs'.Nodup ∧ ∀ r ∈ rs',
        r.1 ≠ [] := by
      intro j rs' hj
      refine ⟨(ih hj).1, fun r hr hnil => ?_⟩
      exact not_route_nil (hnil ▸ ((ih hj).2 r.1 r.2).mp hr)
    have hall : List.Forall₂
        (fun n part => part.Nodup ∧ ∀ ns t, (ns, t) ∈ part ↔ ∃ ns', ns = n :: ns' ∧ g.Route i ns t)
        (g.names i) parts := by
      refine List.forall₂_iff_get.mpr ⟨hparts.length_eq, fun k h₁ h₂ => ?_⟩
      have hpart := (List.forall₂_iff_get.mp hparts).2 k h₁ h₂
      exact ⟨nodup_under hpart hne, mem_under (List.get_mem _ ⟨k, h₁⟩) hpart hbelow⟩
    obtain ⟨hnd, hmem⟩ := flatten_routes (g.nodup i) hall
    refine ⟨hnd, fun ns t => ?_⟩
    rw [hmem]
    constructor
    · rintro ⟨n, -, ns', -, hr⟩
      exact hr
    · intro hr
      cases ns with
      | nil => exact absurd hr not_route_nil
      | cons n ns => exact ⟨n, (route_cons.mp hr).1, ns, rfl, hr⟩

/-! ## When a descent succeeds -/

/-- The folders of `all` that a descent is not in yet. -/
def unseen (all seen : List ι) : List ι := all.filter (· ∉ seen)

theorem length_unseen_cons_lt {all seen : List ι} (hall : i ∈ all) (hi : i ∉ seen) :
    (unseen all (i :: seen)).length < (unseen all seen).length := by
  have hsub : unseen all (i :: seen) = (unseen all seen).filter (· ≠ i) := by
    rw [unseen, unseen, List.filter_filter]
    refine List.filter_congr fun d _ => ?_
    simp [not_or]
  rw [hsub]
  exact List.length_filter_lt_length_iff_exists.mpr
    ⟨i, List.mem_filter.mpr ⟨hall, by simpa using hi⟩, by simp⟩

/-- A step that can be taken from each item can be taken from all of them. -/
theorem exists_forall₂ {α β : Type} {R : α → β → Prop} {l : List α} (h : ∀ a ∈ l, ∃ b, R a b) :
    ∃ r, List.Forall₂ R l r := by
  induction l with
  | nil => exact ⟨[], .nil⟩
  | cons a l ih =>
    obtain ⟨b, hb⟩ := h a List.mem_cons_self
    obtain ⟨r, hr⟩ := ih fun a ha => h a (List.mem_cons_of_mem _ ha)
    exact ⟨b :: r, .cons hb hr⟩

/-- Steps that are the images of other steps. -/
theorem forall₂_map_iff {α β γ : Type} {R : α → β → Prop} {S : α → γ → Prop} {f : γ → β}
    {l : List α} (h : ∀ a ∈ l, ∀ b, R a b ↔ ∃ c, S a c ∧ b = f c) {bs : List β} :
    List.Forall₂ R l bs ↔ ∃ cs, List.Forall₂ S l cs ∧ bs = cs.map f := by
  induction l generalizing bs with
  | nil =>
    rw [List.forall₂_nil_left_iff]
    constructor
    · rintro rfl
      exact ⟨[], .nil, rfl⟩
    · rintro ⟨cs, ⟨⟩, rfl⟩
      rfl
  | cons a l ih =>
    have htail : ∀ {bs : List β}, List.Forall₂ R l bs ↔ ∃ cs, List.Forall₂ S l cs ∧ bs = cs.map f :=
      ih fun a ha => h a (List.mem_cons_of_mem _ ha)
    rw [List.forall₂_cons_left_iff]
    constructor
    · rintro ⟨b, bs, hb, hbs, rfl⟩
      obtain ⟨c, hc, rfl⟩ := (h a List.mem_cons_self b).mp hb
      obtain ⟨cs, hcs, rfl⟩ := htail.mp hbs
      exact ⟨c :: cs, .cons hc hcs, rfl⟩
    · rintro ⟨all, hall, rfl⟩
      obtain ⟨c, cs, hc, hcs, rfl⟩ := List.forall₂_cons_left_iff.mp hall
      exact ⟨f c, cs.map f, (h a List.mem_cons_self _).mpr ⟨c, hc, rfl⟩,
        htail.mpr ⟨cs, hcs, rfl⟩, rfl⟩

/-- Whether a descent of enough depth succeeds below a folder it may enter. -/
theorem collect_succ_ok_iff {fuel : Nat} {seen : List ι} :
    (∃ rs, g.collect (fuel + 1) i seen = .ok rs) ↔
      i ∉ seen ∧ ∀ j, g.Below i j → ∃ rs, g.collect fuel j (i :: seen) = .ok rs := by
  constructor
  · rintro ⟨rs, h⟩
    obtain ⟨hi, parts, hparts, -⟩ := collect_succ_eq_ok.mp h
    refine ⟨hi, fun j ⟨n, hn, hj⟩ => ?_⟩
    obtain ⟨k, hk, rfl⟩ := List.getElem_of_mem hn
    have hpart := (List.forall₂_iff_get.mp hparts).2 k hk (hparts.length_eq ▸ hk)
    rcases under_eq_ok.mp hpart with ⟨a, ha, -⟩ | ⟨j', rs', hj', hrs', -⟩
    · rw [List.get_eq_getElem, hj] at ha
      cases ha
    · rw [List.get_eq_getElem, hj] at hj'
      cases hj'
      exact ⟨rs', hrs'⟩
  · rintro ⟨hi, hbelow⟩
    have hex : ∀ n ∈ g.names i, ∃ part, g.under (fun j => g.collect fuel j (i :: seen)) i n =
        .ok part := by
      intro n hn
      cases ht : g.target i n with
      | file a => exact ⟨_, under_eq_ok.mpr (.inl ⟨a, ht, rfl⟩)⟩
      | folder j =>
        obtain ⟨rs, hrs⟩ := hbelow j ⟨n, hn, ht⟩
        exact ⟨_, under_eq_ok.mpr (.inr ⟨j, rs, ht, hrs, rfl⟩)⟩
    obtain ⟨parts, hparts⟩ := exists_forall₂ hex
    exact ⟨_, collect_succ_eq_ok.mpr ⟨hi, parts, hparts, rfl⟩⟩

/-- **When a descent succeeds.**  Deep enough for the folders it is not in, it succeeds exactly when
    no folder it can reach is one that it is in, or lies below itself. -/
theorem collect_ok_iff {all : List ι} (hclosed : ∀ i ∈ all, ∀ j, g.Below i j → j ∈ all) {fuel : Nat}
    {seen : List ι} (hi : i ∈ all) (hfuel : (unseen all seen).length < fuel) :
    (∃ rs, g.collect fuel i seen = .ok rs) ↔
      ∀ j, ReflTransGen g.Below i j → j ∉ seen ∧ ¬ TransGen g.Below j j := by
  induction fuel generalizing i seen with
  | zero => omega
  | succ fuel ih =>
    rw [collect_succ_ok_iff]
    constructor
    · rintro ⟨hnew, hbelow⟩
      have hless := length_unseen_cons_lt hi hnew
      have hchild : ∀ k, g.Below i k → ∀ j, ReflTransGen g.Below k j → j ∉ i :: seen ∧
          ¬ TransGen g.Below j j :=
        fun k hk => (ih (hclosed i hi k hk) (by omega)).mp (hbelow k hk)
      intro j hj
      rcases hj.cases_head with rfl | ⟨k, hk, hkj⟩
      · refine ⟨hnew, fun hloop => ?_⟩
        -- the first step of the loop leads to a folder below which `i` lies
        obtain ⟨k, hk, hki⟩ := TransGen.head'_iff.mp hloop
        exact (hchild k hk i hki).1 List.mem_cons_self
      · exact ⟨fun h => (hchild k hk j hkj).1 (List.mem_cons_of_mem _ h), (hchild k hk j hkj).2⟩
    · intro hgood
      have hnew := (hgood i .refl).1
      have hless := length_unseen_cons_lt hi hnew
      refine ⟨hnew, fun k hk => (ih (hclosed i hi k hk) (by omega)).mpr fun j hkj => ?_⟩
      obtain ⟨hj, hloop⟩ := hgood j (.head hk hkj)
      refine ⟨fun hmem => ?_, hloop⟩
      rcases List.mem_cons.mp hmem with rfl | hmem
      · exact (hgood j .refl).2 (TransGen.head' hk hkj)
      · exact hj hmem

end FolderGraph

end CdjEmu
