import Mathlib.Data.List.Perm.Subperm
import Mathlib.Logic.Relation
import NoteMarkup.Grammar.Basic

/-!
This module contains the links from kind to kind in a grammar. Alias links are followed one by one, as far as there
are entries; the kinds that can be reached by style links are gathered in rounds, as far as there are kinds.
-/

namespace NoteMarkup

namespace Grammar

variable {g : Grammar} {kind last : ElementKind}

section AliasLinks

def AliasLink (g : Grammar) (kind next : ElementKind) : Prop :=
  g.aliasOf? kind = some next

structure AliasEnd (g : Grammar) (kind last : ElementKind) : Prop where
  reached : Relation.ReflTransGen g.AliasLink kind last
  ends : g.aliasOf? last = none

theorem AliasEnd.refl (h : g.aliasOf? kind = none) : g.AliasEnd kind kind :=
  ⟨.refl, h⟩

theorem AliasEnd.next {next : ElementKind} (h : g.AliasEnd kind last) (hlink : g.AliasLink kind next) :
    g.AliasEnd next last := by
  rcases h.reached.cases_head with rfl | ⟨other, hother, hreached⟩
  . have hends := h.ends
    rw [hlink] at hends
    cases hends
  . cases Option.some.inj (hother.symm.trans hlink)
    exact ⟨hreached, h.ends⟩

theorem AliasEnd.unique {other : ElementKind} (h : g.AliasEnd kind last) (hother : g.AliasEnd kind other) :
    last = other := by
  rcases h with ⟨hreached, hends⟩
  induction hreached using Relation.ReflTransGen.head_induction_on with
  | refl =>
    rcases hother.reached.cases_head with rfl | ⟨next, hlink, -⟩
    . rfl
    . rw [hlink] at hends
      cases hends
  | head hlink _ ih => exact ih (hother.next hlink)

theorem AliasEnd.not_transGen (h : g.AliasEnd kind last) : ¬ Relation.TransGen g.AliasLink kind kind := by
  rcases h with ⟨hreached, hends⟩
  induction hreached using Relation.ReflTransGen.head_induction_on with
  | refl =>
    intro hcycle
    rcases Relation.TransGen.head'_iff.mp hcycle with ⟨next, hlink, -⟩
    rw [hlink] at hends
    cases hends
  | head hlink _ ih =>
    intro hcycle
    rcases Relation.TransGen.head'_iff.mp hcycle with ⟨next, hnext, hback⟩
    cases Option.some.inj (hlink.symm.trans hnext)
    exact ih (Relation.TransGen.tail' hback hlink)

theorem mem_kinds_of_aliasLink {next : ElementKind} (h : g.AliasLink kind next) : kind ∈ g.entries.map (·.kind) := by
  unfold AliasLink aliasOf? at h
  rw [Option.bind_eq_some_iff] at h
  rcases h with ⟨e, he, -⟩
  have hkind : e.kind = kind := by simpa using List.find?_some he
  exact List.mem_map.mpr ⟨e, List.mem_of_find?_eq_some he, hkind⟩

theorem reached_follow (g : Grammar) (n : Nat) (kind : ElementKind) :
    Relation.ReflTransGen g.AliasLink kind (g.follow n kind) := by
  induction n generalizing kind with
  | zero => exact .refl
  | succ n ih =>
    unfold follow
    split
    . next next hnext => exact .head hnext (ih next)
    . exact .refl

theorem aliasOf?_follow {passed : List ElementKind} {n : Nat} (h : g.AliasEnd kind last)
    (hnodup : passed.Nodup) (hlinks : ∀ before ∈ passed, Relation.TransGen g.AliasLink before kind)
    (hn : g.entries.length ≤ passed.length + n) : g.aliasOf? (g.follow n kind) = none := by
  induction n generalizing kind passed with
  | zero =>
    cases hlink : g.aliasOf? kind with
    | none => exact hlink
    | some next =>
      -- All that has been passed and this kind are declared, and there are more of them than declarations.
      have hnew : kind ∉ passed := fun hmem => h.not_transGen (hlinks kind hmem)
      have hsub : kind :: passed ⊆ g.entries.map (·.kind) := by
        intro before hmem
        rw [List.mem_cons] at hmem
        rcases hmem with rfl | hmem
        . exact mem_kinds_of_aliasLink hlink
        . rcases Relation.TransGen.head'_iff.mp (hlinks before hmem) with ⟨_, hfirst, -⟩
          exact mem_kinds_of_aliasLink hfirst
      have hlength := (List.subperm_of_subset (List.nodup_cons.mpr ⟨hnew, hnodup⟩) hsub).length_le
      simp only [List.length_cons, List.length_map] at hlength
      omega
  | succ n ih =>
    unfold follow
    split
    . next next hlink =>
      have hnew : kind ∉ passed := fun hmem => h.not_transGen (hlinks kind hmem)
      apply ih (h.next hlink) (List.nodup_cons.mpr ⟨hnew, hnodup⟩)
      . intro before hmem
        rw [List.mem_cons] at hmem
        rcases hmem with rfl | hmem
        . exact .single hlink
        . exact (hlinks before hmem).tail hlink
      . rw [List.length_cons]
        omega
    . next hnone => exact hnone

theorem aliasEnd_canonical_iff :
    g.AliasEnd kind (g.canonical kind) ↔ ∃ last, g.AliasEnd kind last := by
  constructor
  . intro h
    exact ⟨_, h⟩
  . rintro ⟨last, h⟩
    refine ⟨g.reached_follow _ kind, ?_⟩
    exact aliasOf?_follow h List.nodup_nil (by simp) (by simp)

theorem canonical_eq_iff (h : g.AliasEnd kind last) {other : ElementKind} :
    g.canonical kind = other ↔ g.AliasEnd kind other := by
  have hcanonical := aliasEnd_canonical_iff.mpr ⟨last, h⟩
  constructor
  . rintro rfl
    exact hcanonical
  . exact hcanonical.unique

theorem aliasCycle?_eq_none_iff : g.aliasCycle? = none ↔ ∀ e ∈ g.entries, ∃ last, g.AliasEnd e.kind last := by
  simp only [aliasCycle?, Option.map_eq_none_iff, List.find?_eq_none, Option.not_isSome_iff_eq_none]
  constructor
  . intro h e he
    exact ⟨_, g.reached_follow _ e.kind, h e he⟩
  . intro h e he
    exact (aliasEnd_canonical_iff.mpr (h e he)).ends

theorem of_aliasCycle? (h : g.aliasCycle? = some kind) :
    kind ∈ g.entries.map (·.kind) ∧ ∀ last, ¬ g.AliasEnd kind last := by
  simp only [aliasCycle?, Option.map_eq_some_iff] at h
  rcases h with ⟨e, he, rfl⟩
  refine ⟨List.mem_map_of_mem (List.mem_of_find?_eq_some he), ?_⟩
  intro last hends
  have hsome := List.find?_some he
  rw [(aliasEnd_canonical_iff.mpr ⟨last, hends⟩).ends] at hsome
  cases hsome

end AliasLinks

section StyleLinks

def StyleLink (g : Grammar) (kind next : ElementKind) : Prop :=
  next ∈ g.styleKinds kind

def StyleClosed (g : Grammar) (reached : List ElementKind) : Prop :=
  ∀ kind ∈ reached, ∀ next, g.StyleLink kind next → next ∈ reached

theorem mem_round {reached : List ElementKind} :
    kind ∈ (reached ++ reached.flatMap g.styleKinds).eraseDups
      ↔
    kind ∈ reached ∨ ∃ before ∈ reached, g.StyleLink before kind := by
  simp [StyleLink]

theorem StyleClosed.round {reached : List ElementKind} (h : g.StyleClosed reached) :
    g.StyleClosed (reached ++ reached.flatMap g.styleKinds).eraseDups := by
  have hround : ∀ kind, kind ∈ (reached ++ reached.flatMap g.styleKinds).eraseDups → kind ∈ reached := by
    intro kind hmem
    rcases mem_round.mp hmem with hmem | ⟨before, hbefore, hlink⟩
    . exact hmem
    . exact h before hbefore kind hlink
  intro kind hmem next hlink
  exact mem_round.mpr (.inl (h kind (hround kind hmem) next hlink))

theorem StyleClosed.styleReach {reached : List ElementKind} (h : g.StyleClosed reached) (n : Nat) :
    g.StyleClosed (g.styleReach n reached) := by
  induction n generalizing reached with
  | zero => exact h
  | succ n ih => exact ih h.round

theorem mem_styleReach_of_mem (n : Nat) {reached : List ElementKind} (h : kind ∈ reached) :
    kind ∈ g.styleReach n reached := by
  induction n generalizing reached with
  | zero => exact h
  | succ n ih => exact ih (mem_round.mpr (.inl h))

theorem reached_of_mem_styleReach {n : Nat} {reached : List ElementKind} (h : last ∈ g.styleReach n reached) :
    ∃ kind ∈ reached, Relation.ReflTransGen g.StyleLink kind last := by
  induction n generalizing reached with
  | zero => exact ⟨last, h, .refl⟩
  | succ n ih =>
    rcases ih h with ⟨kind, hmem, hreached⟩
    rcases mem_round.mp hmem with hmem | ⟨before, hbefore, hlink⟩
    . exact ⟨kind, hmem, hreached⟩
    . exact ⟨before, hbefore, .head hlink hreached⟩

def unreached (reached : List ElementKind) : List ElementKind :=
  ElementKind.all.filter fun kind => !reached.contains kind

theorem mem_unreached {reached : List ElementKind} : kind ∈ unreached reached ↔ kind ∉ reached := by
  simp [unreached, ElementKind.mem_all]

theorem length_unreached_lt {first second : List ElementKind} (hsub : first ⊆ second) (hkind : kind ∈ second)
    (hnew : kind ∉ first) : (unreached second).length < (unreached first).length := by
  have hall : unreached second = (unreached first).filter fun kind => !second.contains kind := by
    unfold unreached
    rw [List.filter_filter]
    apply List.filter_congr
    intro other _
    by_cases hother : other ∈ first
    . simp [hother, hsub hother]
    . simp [hother]
  rw [hall]
  apply List.length_filter_lt_length_iff_exists.mpr
  exact ⟨kind, mem_unreached.mpr hnew, by simpa using hkind⟩

theorem styleClosed_styleReach {n : Nat} {reached : List ElementKind} (hn : (unreached reached).length ≤ n) :
    g.StyleClosed (g.styleReach n reached) := by
  induction n generalizing reached with
  | zero =>
    intro _ _ next _
    by_contra hnext
    have hleft : next ∈ unreached reached := mem_unreached.mpr hnext
    rw [List.length_eq_zero_iff.mp (Nat.le_zero.mp hn)] at hleft
    cases hleft
  | succ n ih =>
    unfold styleReach
    by_cases hclosed : g.StyleClosed reached
    . exact hclosed.round.styleReach n
    . unfold StyleClosed at hclosed
      push Not at hclosed
      rcases hclosed with ⟨before, hbefore, next, hlink, hnew⟩
      -- The round adds a kind, so that fewer are left for the others.
      apply ih
      have hlt : (unreached (reached ++ reached.flatMap g.styleKinds).eraseDups).length
          < (unreached reached).length := by
        apply length_unreached_lt _ (mem_round.mpr (.inr ⟨before, hbefore, hlink⟩)) hnew
        exact fun kind hmem => mem_round.mpr (.inl hmem)
      omega

theorem mem_styleClosure_iff : last ∈ g.styleClosure kind ↔ Relation.TransGen g.StyleLink kind last := by
  constructor
  . intro h
    rcases reached_of_mem_styleReach h with ⟨first, hfirst, hreached⟩
    exact Relation.TransGen.head' hfirst hreached
  . intro h
    induction h with
    | single hlink => exact mem_styleReach_of_mem _ hlink
    | @tail before last _ hlink ih =>
      have hclosed : g.StyleClosed (g.styleClosure kind) := by
        apply styleClosed_styleReach
        exact List.length_filter_le _ _
      exact hclosed before ih last hlink

theorem styleCycle?_eq_none_iff :
    g.styleCycle? = none ↔ ∀ e ∈ g.entries, ¬ Relation.TransGen g.StyleLink e.kind e.kind := by
  simp only [styleCycle?, Option.map_eq_none_iff, List.find?_eq_none, List.contains_iff_mem, mem_styleClosure_iff]

theorem of_styleCycle? (h : g.styleCycle? = some kind) :
    kind ∈ g.entries.map (·.kind) ∧ Relation.TransGen g.StyleLink kind kind := by
  simp only [styleCycle?, Option.map_eq_some_iff] at h
  rcases h with ⟨e, he, rfl⟩
  refine ⟨List.mem_map_of_mem (List.mem_of_find?_eq_some he), ?_⟩
  have hcycle := List.find?_some he
  rwa [List.contains_iff_mem, mem_styleClosure_iff] at hcycle

theorem mem_kinds_of_styleLink {next : ElementKind} (h : g.StyleLink kind next) : kind ∈ g.entries.map (·.kind) := by
  unfold StyleLink styleKinds at h
  split at h
  . next e he =>
    have hkind : e.kind = kind := by simpa using List.find?_some he
    exact List.mem_map.mpr ⟨e, List.mem_of_find?_eq_some he, hkind⟩
  . cases h

theorem not_transGen_styleLink (h : g.styleCycle? = none) (kind : ElementKind) :
    ¬ Relation.TransGen g.StyleLink kind kind := by
  intro hcycle
  -- Only the declared kinds are looked at, but no others have styles.
  rcases Relation.TransGen.head'_iff.mp hcycle with ⟨_, hlink, -⟩
  rcases List.mem_map.mp (mem_kinds_of_styleLink hlink) with ⟨e, he, rfl⟩
  exact styleCycle?_eq_none_iff.mp h e he hcycle

end StyleLinks

end Grammar

end NoteMarkup
