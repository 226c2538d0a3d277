import Mathlib.Data.List.Nodup
import NoteMarkup.Proofs.KindLinks
import NoteMarkup.Proofs.WellFormed

/-!
This module contains what it is for declarations to be sound, and that a grammar is built from exactly those that
are. The fault of all others is the first one in the order of the conditions. The order of the declarations does not
matter.
-/

namespace NoteMarkup

namespace EntryDeclaration

variable (declarations : List EntryDeclaration)

def Declared (kind : ElementKind) : Prop :=
  kind ∈ declarations.map (·.kind)

def Distinct : Prop :=
  (declarations.map (·.kind)).Nodup

def ParentDeclared (d : EntryDeclaration) : Prop :=
  ∀ parent ∈ (d.parentKinds declarations).head?, Declared declarations parent

def HasPlainBlock : Prop :=
  ∃ d ∈ declarations, d.kind = plainBlock ∧ d.category = some .block

def AliasLink (kind next : ElementKind) : Prop :=
  ∃ d ∈ declarations, d.kind = kind ∧ d.aliasOf = some next

structure AliasEnd (kind last : ElementKind) : Prop where
  reached : Relation.ReflTransGen (AliasLink declarations) kind last
  ends : ∀ next, ¬ AliasLink declarations last next

def StyleLink (kind next : ElementKind) : Prop :=
  ∃ d ∈ declarations, d.kind = kind
    ∧ ∃ style ∈ d.styleAttributes, ∃ target ∈ style.2.kinds, AliasEnd declarations target next

structure Sound : Prop where
  distinct : Distinct declarations
  parents : ∀ d ∈ declarations, ParentDeclared declarations d
  plainBlock : HasPlainBlock declarations
  aliases : ∀ d ∈ declarations, ∃ last, AliasEnd declarations d.kind last
  styles : ∀ d ∈ declarations, ¬ Relation.TransGen (StyleLink declarations) d.kind d.kind

end EntryDeclaration

open EntryDeclaration

def GrammarFault.IsFirst (declarations : List EntryDeclaration) : GrammarFault → Prop
  | duplicate kind =>
    ∃ before d after, declarations = before ++ d :: after ∧ d.kind = kind
      ∧ Distinct before ∧ Declared before kind
  | missingParent kind parent =>
    Distinct declarations
      ∧ ∃ before d after, declarations = before ++ d :: after ∧ d.kind = kind
        ∧ (∀ other ∈ before, ParentDeclared declarations other)
        ∧ (d.parentKinds declarations).head? = some parent ∧ ¬ Declared declarations parent
  | missingDefaultBlock kind =>
    Distinct declarations
      ∧ (∀ d ∈ declarations, ParentDeclared declarations d)
      ∧ kind = plainBlock ∧ ¬ HasPlainBlock declarations
  | aliasCycle kind =>
    Distinct declarations
      ∧ (∀ d ∈ declarations, ParentDeclared declarations d)
      ∧ HasPlainBlock declarations
      ∧ Declared declarations kind ∧ ∀ last, ¬ AliasEnd declarations kind last
  | styleCycle kind =>
    Distinct declarations
      ∧ (∀ d ∈ declarations, ParentDeclared declarations d)
      ∧ HasPlainBlock declarations
      ∧ (∀ d ∈ declarations, ∃ last, AliasEnd declarations d.kind last)
      ∧ Declared declarations kind ∧ Relation.TransGen (StyleLink declarations) kind kind

structure Entry.SameContent (e other : Entry) : Prop where
  rules : e.toElementRules = other.toElementRules
  allows : ∀ kind, e.allows kind = other.allows kind
  text : e.holdsText = other.holdsText

namespace Grammar

variable {declarations : List EntryDeclaration}

section Duplicates

theorem duplicate?_eq_none_iff {before : List ElementKind} :
    duplicate? declarations before = none
      ↔
    Distinct declarations ∧ ∀ d ∈ declarations, d.kind ∉ before := by
  unfold Distinct
  induction declarations generalizing before with
  | nil => simp [duplicate?]
  | cons d declarations ih =>
    unfold duplicate?
    by_cases hd : d.kind ∈ before
    . simp [hd]
    . simp only [List.contains_iff_mem, hd, ↓reduceIte, ih, List.map_cons, List.nodup_cons, List.mem_cons, not_or]
      grind

theorem of_duplicate? {before : List ElementKind} {kind : ElementKind}
    (h : duplicate? declarations before = some kind) :
    ∃ front d back, declarations = front ++ d :: back ∧ d.kind = kind
      ∧ Distinct front ∧ (∀ d ∈ front, d.kind ∉ before) ∧ (kind ∈ before ∨ Declared front kind) := by
  induction declarations generalizing before with
  | nil => cases h
  | cons d declarations ih =>
    unfold duplicate? at h
    split at h
    . next hd =>
      cases h
      exact ⟨[], d, declarations, rfl, rfl, List.nodup_nil, by simp, .inl (by simpa using hd)⟩
    . next hd =>
      rcases ih h with ⟨front, other, back, rfl, hkind, hdistinct, hbefore, hdeclared⟩
      refine ⟨d :: front, other, back, rfl, hkind, ?_, ?_, ?_⟩
      . refine List.nodup_cons.mpr ⟨?_, hdistinct⟩
        intro hmem
        rcases List.mem_map.mp hmem with ⟨same, hsame, heq⟩
        exact hbefore same hsame (by simp [heq])
      . rw [List.forall_mem_cons]
        exact ⟨by simpa using hd, fun d hmem hin => hbefore d hmem (List.mem_cons_of_mem _ hin)⟩
      . rw [List.mem_cons] at hdeclared
        rcases hdeclared with (rfl | hmem) | hdeclared
        . exact .inr (by simp [Declared])
        . exact .inl hmem
        . exact .inr (List.mem_cons_of_mem _ hdeclared)

end Duplicates

section Parents

theorem missingParent?_eq_none_iff :
    missingParent? declarations = none ↔ ∀ d ∈ declarations, ParentDeclared declarations d := by
  unfold missingParent? ParentDeclared Declared
  rw [List.findSome?_eq_none_iff]
  apply forall₂_congr
  intro d _
  cases d.parentKinds declarations <;> simp

theorem of_missingParent? {kind parent : ElementKind} (h : missingParent? declarations = some (kind, parent)) :
    ∃ before d after, declarations = before ++ d :: after ∧ d.kind = kind
      ∧ (∀ other ∈ before, ParentDeclared declarations other)
      ∧ (d.parentKinds declarations).head? = some parent ∧ ¬ Declared declarations parent := by
  unfold missingParent? at h
  rw [List.findSome?_eq_some_iff] at h
  rcases h with ⟨before, d, after, hdeclarations, hd, hbefore⟩
  refine ⟨before, d, after, hdeclarations, ?_⟩
  have hbefore' : ∀ other ∈ before, ParentDeclared declarations other := by
    intro other hother
    have hnone := hbefore other hother
    unfold ParentDeclared Declared
    cases hparents : other.parentKinds declarations with
    | nil => simp
    | cons first parents => simpa [hparents] using hnone
  unfold Declared
  cases hparents : d.parentKinds declarations with
  | nil => simp [hparents] at hd
  | cons first parents =>
    simp only [hparents, Option.ite_none_left_eq_some, Option.some.injEq, Prod.mk.injEq] at hd
    rcases hd with ⟨hmissing, rfl, rfl⟩
    exact ⟨rfl, hbefore', rfl, by simpa using hmissing⟩

end Parents

section Entries

theorem entry?_assemble (kind : ElementKind) :
    entry? (assemble declarations) kind
      =
    (declarations.find? (·.kind == kind)).map (·.toEntry declarations) := by
  unfold entry? assemble
  rw [List.find?_map]
  rfl

theorem find?_kind_iff (h : Distinct declarations) {kind : ElementKind} {d : EntryDeclaration} :
    declarations.find? (·.kind == kind) = some d ↔ d ∈ declarations ∧ d.kind = kind := by
  constructor
  . intro hfind
    exact ⟨List.mem_of_find?_eq_some hfind, by simpa using List.find?_some hfind⟩
  . rintro ⟨hd, rfl⟩
    cases hfind : declarations.find? (·.kind == d.kind) with
    | none => simpa using List.find?_eq_none.mp hfind d hd
    | some other =>
      have hkind : other.kind = d.kind := by simpa using List.find?_some hfind
      rw [List.inj_on_of_nodup_map h (List.mem_of_find?_eq_some hfind) hd hkind]

theorem hasPlainBlock_iff (h : Distinct declarations) :
    (assemble declarations).hasPlainBlock ↔ HasPlainBlock declarations := by
  simp only [hasPlainBlock, entry?_assemble, Option.any_map, Option.any_eq_true, find?_kind_iff h, HasPlainBlock,
    and_assoc]
  simp [Entry.isBlock, EntryDeclaration.toEntry]

theorem aliasLink_iff (h : Distinct declarations) :
    (assemble declarations).AliasLink = EntryDeclaration.AliasLink declarations := by
  funext kind next
  simp [AliasLink, aliasOf?, entry?_assemble, Option.bind_eq_some_iff, find?_kind_iff h,
    EntryDeclaration.AliasLink, EntryDeclaration.toEntry, and_assoc]

theorem aliasEnd_iff (h : Distinct declarations) {kind last : ElementKind} :
    (assemble declarations).AliasEnd kind last ↔ EntryDeclaration.AliasEnd declarations kind last := by
  have hends : (assemble declarations).aliasOf? last = none
      ↔ ∀ next, ¬ EntryDeclaration.AliasLink declarations last next := by
    rw [← aliasLink_iff h, Option.eq_none_iff_forall_ne_some]
    rfl
  constructor
  . rintro ⟨hreached, hlast⟩
    exact ⟨aliasLink_iff h ▸ hreached, hends.mp hlast⟩
  . rintro ⟨hreached, hlast⟩
    exact ⟨aliasLink_iff h ▸ hreached, hends.mpr hlast⟩

theorem exists_aliasEnd_iff (h : Distinct declarations) :
    (assemble declarations).aliasCycle? = none
      ↔
    ∀ d ∈ declarations, ∃ last, EntryDeclaration.AliasEnd declarations d.kind last := by
  rw [aliasCycle?_eq_none_iff]
  simp only [assemble, List.forall_mem_map, ← aliasEnd_iff h]
  rfl

theorem aliasEnd_canonical (h : (assemble declarations).aliasCycle? = none) (kind : ElementKind) :
    (assemble declarations).AliasEnd kind ((assemble declarations).canonical kind) := by
  rw [aliasEnd_canonical_iff]
  cases hentry : entry? (assemble declarations) kind with
  | none => exact ⟨kind, .refl (by simp [aliasOf?, hentry])⟩
  | some e =>
    have hends := aliasCycle?_eq_none_iff.mp h e (List.mem_of_find?_eq_some hentry)
    rwa [entry?_kind hentry] at hends

theorem styleLink_iff (h : Distinct declarations) (haliases : (assemble declarations).aliasCycle? = none) :
    (assemble declarations).StyleLink = EntryDeclaration.StyleLink declarations := by
  funext kind next
  have hcanonical : ∀ target, (assemble declarations).canonical target = next
      ↔ EntryDeclaration.AliasEnd declarations target next := by
    intro target
    rw [canonical_eq_iff (aliasEnd_canonical haliases target), aliasEnd_iff h]
  simp only [StyleLink, styleKinds, entry?_assemble, EntryDeclaration.StyleLink, ← hcanonical]
  cases hfind : declarations.find? (·.kind == kind) with
  | none =>
    have hnot : ∀ d ∈ declarations, d.kind ≠ kind := by simpa using hfind
    simp only [Option.map_none, List.not_mem_nil, eq_iff_iff, false_iff, not_exists, not_and]
    intro d hd hkind
    exact absurd hkind (hnot d hd)
  | some d =>
    rw [find?_kind_iff h] at hfind
    have honly : ∀ other, other ∈ declarations ∧ other.kind = kind ↔ other = d := by
      intro other
      constructor
      . rintro ⟨hother, hkind⟩
        exact List.inj_on_of_nodup_map h hother hfind.1 (hkind.trans hfind.2.symm)
      . rintro rfl
        exact hfind
    simp only [← and_assoc, honly, exists_eq_left]
    simp only [Option.map_some, EntryDeclaration.toEntry, List.mem_map, List.mem_flatMap, eq_iff_iff]
    constructor
    . rintro ⟨target, ⟨style, hstyle, htarget⟩, hnext⟩
      exact ⟨style, hstyle, target, htarget, hnext⟩
    . rintro ⟨style, hstyle, target, htarget, hnext⟩
      exact ⟨target, ⟨style, hstyle, htarget⟩, hnext⟩

end Entries

theorem not_styleCycle_iff (h : Distinct declarations) (haliases : (assemble declarations).aliasCycle? = none) :
    (assemble declarations).styleCycle? = none
      ↔
    ∀ d ∈ declarations, ¬ Relation.TransGen (EntryDeclaration.StyleLink declarations) d.kind d.kind := by
  rw [styleCycle?_eq_none_iff, styleLink_iff h haliases]
  simp only [assemble, List.forall_mem_map]
  rfl

theorem kinds_assemble : (assemble declarations).entries.map (·.kind) = declarations.map (·.kind) := by
  simp [assemble, EntryDeclaration.toEntry]

theorem exists_ofDeclarations_iff : (∃ g, ofDeclarations declarations = .ok g) ↔ Sound declarations := by
  simp only [ofDeclarations_eq_ok_iff, exists_and_left, exists_eq', and_true, duplicate?_eq_none_iff,
    List.not_mem_nil, not_false_eq_true, implies_true, missingParent?_eq_none_iff]
  constructor
  . rintro ⟨hdistinct, hparents, hplain, haliases, hstyles⟩
    exact ⟨hdistinct, hparents, (hasPlainBlock_iff hdistinct).mp hplain, (exists_aliasEnd_iff hdistinct).mp haliases,
      (not_styleCycle_iff hdistinct haliases).mp hstyles⟩
  . rintro ⟨hdistinct, hparents, hplain, haliases, hstyles⟩
    have haliases' := (exists_aliasEnd_iff hdistinct).mpr haliases
    exact ⟨hdistinct, hparents, (hasPlainBlock_iff hdistinct).mpr hplain, haliases',
      (not_styleCycle_iff hdistinct haliases').mpr hstyles⟩

theorem isFirst_of_error {fault : GrammarFault} (h : ofDeclarations declarations = .error fault) :
    fault.IsFirst declarations := by
  unfold ofDeclarations at h
  dsimp only at h
  split at h
  . next kind hduplicate =>
    cases h
    rcases of_duplicate? hduplicate with ⟨front, d, back, hdeclarations, hkind, hdistinct, -, hdeclared⟩
    simp only [List.not_mem_nil, false_or] at hdeclared
    exact ⟨front, d, back, hdeclarations, hkind, hdistinct, hdeclared⟩
  . next hduplicate =>
    have hdistinct : Distinct declarations := (duplicate?_eq_none_iff.mp hduplicate).1
    split at h
    . next kind parent hmissing =>
      cases h
      exact ⟨hdistinct, of_missingParent? hmissing⟩
    . next hmissing =>
      have hparents := missingParent?_eq_none_iff.mp hmissing
      split at h
      . next hplain =>
        cases h
        refine ⟨hdistinct, hparents, rfl, ?_⟩
        rw [← hasPlainBlock_iff hdistinct]
        simpa using hplain
      . next hplain =>
        have hplain' : HasPlainBlock declarations := by
          rw [← hasPlainBlock_iff hdistinct]
          simpa using hplain
        split at h
        . next kind hcycle =>
          cases h
          rcases of_aliasCycle? hcycle with ⟨hdeclared, hends⟩
          rw [kinds_assemble] at hdeclared
          simp only [aliasEnd_iff hdistinct] at hends
          exact ⟨hdistinct, hparents, hplain', hdeclared, hends⟩
        . next haliases =>
          have haliases' := (exists_aliasEnd_iff hdistinct).mp haliases
          split at h
          . next kind hcycle =>
            cases h
            rcases of_styleCycle? hcycle with ⟨hdeclared, hback⟩
            rw [kinds_assemble] at hdeclared
            rw [styleLink_iff hdistinct haliases] at hback
            exact ⟨hdistinct, hparents, hplain', haliases', hdeclared, hback⟩
          . cases h

section Order

variable {shuffled : List EntryDeclaration}

theorem declared_iff (h : declarations.Perm shuffled) (kind : ElementKind) :
    Declared declarations kind ↔ Declared shuffled kind :=
  (h.map _).mem_iff

theorem members_perm (h : declarations.Perm shuffled) (group : KindGroup) :
    (group.members declarations).Perm (group.members shuffled) := by
  cases group with
  | kind kind => exact .refl _
  | category category => exact (h.filter _).map _
  | text => exact .refl _
  | flow => exact ((h.filter _).map _).append ((h.filter _).map _)

theorem mem_childKinds_iff (h : declarations.Perm shuffled) (d : EntryDeclaration) (kind : ElementKind) :
    kind ∈ d.childKinds declarations ↔ kind ∈ d.childKinds shuffled := by
  simp only [EntryDeclaration.childKinds, List.mem_flatMap, (members_perm h _).mem_iff]

theorem declared_of_mem_members {group : KindGroup} {kind : ElementKind} (h : kind ∈ group.members declarations) :
    group = .kind kind ∨ Declared declarations kind := by
  have hkinds : ∀ category, kind ∈ kindsIn declarations category → Declared declarations kind := by
    intro category hmem
    simp only [kindsIn, List.mem_map, List.mem_filter] at hmem
    rcases hmem with ⟨d, ⟨hd, -⟩, rfl⟩
    exact List.mem_map_of_mem hd
  cases group with
  | kind other =>
    cases List.mem_singleton.mp h
    exact .inl rfl
  | category category => exact .inr (hkinds category h)
  | text => cases h
  | flow =>
    rw [KindGroup.members, List.mem_append] at h
    exact .inr (h.elim (hkinds .block) (hkinds .inline))

theorem head?_eraseDups (kinds : List ElementKind) : kinds.eraseDups.head? = kinds.head? := by
  cases kinds <;> simp [List.eraseDups_cons]

theorem parentDeclared_perm (h : declarations.Perm shuffled) {d : EntryDeclaration}
    (hd : ParentDeclared declarations d) : ParentDeclared shuffled d := by
  unfold ParentDeclared EntryDeclaration.parentKinds at hd ⊢
  rw [head?_eraseDups] at hd ⊢
  generalize d.parents = groups at hd ⊢
  induction groups with
  | nil => simp
  | cons group groups ih =>
    rw [List.flatMap_cons, List.head?_append] at hd ⊢
    have hmembers := members_perm h group
    cases hshuffled : group.members shuffled with
    | nil =>
      rw [hshuffled, List.perm_nil] at hmembers
      rw [hmembers] at hd
      exact ih hd
    | cons first others =>
      -- Another order may have another first member, if the group is no single kind. All its members are declared then.
      intro parent hparent
      cases Option.some.inj hparent
      have hmem : first ∈ group.members shuffled := by simp [hshuffled]
      rcases declared_of_mem_members hmem with rfl | hdeclared
      . rw [← declared_iff h]
        exact hd first rfl
      . exact hdeclared

theorem aliasLink_perm (h : declarations.Perm shuffled) :
    EntryDeclaration.AliasLink declarations = EntryDeclaration.AliasLink shuffled := by
  funext kind next
  simp only [EntryDeclaration.AliasLink, h.mem_iff]

theorem aliasEnd_perm (h : declarations.Perm shuffled) {kind last : ElementKind} :
    EntryDeclaration.AliasEnd declarations kind last ↔ EntryDeclaration.AliasEnd shuffled kind last := by
  constructor
  . rintro ⟨hreached, hends⟩
    rw [aliasLink_perm h] at hreached hends
    exact ⟨hreached, hends⟩
  . rintro ⟨hreached, hends⟩
    rw [← aliasLink_perm h] at hreached hends
    exact ⟨hreached, hends⟩

theorem styleLink_perm (h : declarations.Perm shuffled) :
    EntryDeclaration.StyleLink declarations = EntryDeclaration.StyleLink shuffled := by
  funext kind next
  simp only [EntryDeclaration.StyleLink, h.mem_iff, aliasEnd_perm h]

theorem sound_perm (h : declarations.Perm shuffled) (hsound : Sound declarations) : Sound shuffled where
  distinct := (h.map _).nodup_iff.mp hsound.distinct
  parents := fun d hd => parentDeclared_perm h (hsound.parents d (h.mem_iff.mpr hd))
  plainBlock := by
    rcases hsound.plainBlock with ⟨d, hd, hplain⟩
    exact ⟨d, h.mem_iff.mp hd, hplain⟩
  aliases := by
    intro d hd
    rcases hsound.aliases d (h.mem_iff.mpr hd) with ⟨last, hlast⟩
    exact ⟨last, (aliasEnd_perm h).mp hlast⟩
  styles := by
    rw [← styleLink_perm h]
    exact fun d hd => hsound.styles d (h.mem_iff.mpr hd)

theorem find?_perm (h : declarations.Perm shuffled) (hdistinct : Distinct declarations) (kind : ElementKind) :
    declarations.find? (·.kind == kind) = shuffled.find? (·.kind == kind) := by
  have hdistinct' : Distinct shuffled := (h.map _).nodup_iff.mp hdistinct
  ext d
  rw [find?_kind_iff hdistinct, find?_kind_iff hdistinct', h.mem_iff]

theorem entry?_perm {g other : Grammar} (h : declarations.Perm shuffled) (hdistinct : Distinct declarations)
    (hg : assemble declarations = g) (hother : assemble shuffled = other) (kind : ElementKind) :
    (g.entry? kind).Rel Entry.SameContent (other.entry? kind) := by
  rw [← hg, ← hother, entry?_assemble, entry?_assemble, find?_perm h hdistinct]
  cases shuffled.find? (·.kind == kind) with
  | none => exact .none
  | some d =>
    refine .some ⟨rfl, ?_, rfl⟩
    intro child
    rw [Bool.eq_iff_iff]
    simp only [Entry.allows, EntryDeclaration.toEntry, List.contains_iff_mem, mem_childKinds_iff h]

end Order

theorem grammar_of_sound_declarations (declarations : List EntryDeclaration) :
    ((∃ g, ofDeclarations declarations = .ok g) ↔ Sound declarations)
      ∧ (∀ fault, ofDeclarations declarations = .error fault → fault.IsFirst declarations)
      ∧ ∀ g, ofDeclarations declarations = .ok g →
        (∀ kind, EntryDeclaration.AliasEnd declarations kind (g.canonical kind))
          ∧ ∀ shuffled, declarations.Perm shuffled →
            ∃ other, ofDeclarations shuffled = .ok other
              ∧ ∀ kind, (g.entry? kind).Rel Entry.SameContent (other.entry? kind) := by
  refine ⟨exists_ofDeclarations_iff, fun fault => isFirst_of_error, ?_⟩
  intro g hg
  have hsound : Sound declarations := exists_ofDeclarations_iff.mp ⟨g, hg⟩
  rcases ofDeclarations_eq_ok_iff.mp hg with ⟨-, -, -, haliases, -, rfl⟩
  constructor
  . intro kind
    rw [← aliasEnd_iff hsound.distinct]
    exact aliasEnd_canonical haliases kind
  . intro shuffled hperm
    rcases exists_ofDeclarations_iff.mpr (sound_perm hperm hsound) with ⟨other, hother⟩
    refine ⟨other, hother, ?_⟩
    rcases ofDeclarations_eq_ok_iff.mp hother with ⟨-, -, -, -, -, hshuffled⟩
    exact entry?_perm hperm hsound.distinct rfl hshuffled

def strayItemDeclarations : List EntryDeclaration :=
  [{ kind := .li, category := some .listItem, parents := [.kind .ul] }]

theorem items_sound_in_any_order :
    Sound Cleaner.itemDeclarations
      ∧ EntryDeclaration.AliasEnd Cleaner.itemDeclarations .div .p
      ∧ (∃ g other, ofDeclarations Cleaner.itemDeclarations = .ok g
        ∧ ofDeclarations Cleaner.itemDeclarations.reverse = .ok other
        ∧ ∀ kind, (g.entry? kind).Rel Entry.SameContent (other.entry? kind))
      ∧ (GrammarFault.missingParent .li .ul).IsFirst strayItemDeclarations := by
  have hg : ofDeclarations Cleaner.itemDeclarations = .ok (assemble Cleaner.itemDeclarations) := by
    rw [ofDeclarations_eq_ok_iff]
    refine ⟨?_, ?_, ?_, ?_, ?_, rfl⟩ <;> decide +kernel
  have hstray : ofDeclarations strayItemDeclarations = .error (.missingParent .li .ul) := by rfl
  rcases grammar_of_sound_declarations Cleaner.itemDeclarations with ⟨hsound, -, hbuilt⟩
  rcases hbuilt _ hg with ⟨hends, hshuffled⟩
  rcases hshuffled _ (List.reverse_perm _).symm with ⟨other, hother, hsame⟩
  refine ⟨hsound.mp ⟨_, hg⟩, ?_, ⟨_, other, hg, hother, hsame⟩, ?_⟩
  . have hdiv : (assemble Cleaner.itemDeclarations).canonical .div = .p := by decide +kernel
    rw [← hdiv]
    exact hends .div
  . exact (grammar_of_sound_declarations strayItemDeclarations).2.1 _ hstray

end Grammar

end NoteMarkup
