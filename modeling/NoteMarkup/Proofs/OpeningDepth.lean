import Mathlib.Data.Fintype.Order
import NoteMarkup.Proofs.Invariants
import NoteMarkup.Proofs.KindLinks
import NoteMarkup.Proofs.Styling
import NoteMarkup.Proofs.WellFormed

/-!
This module contains the end of every opening. The opening of an element comes back to itself along the links to
required parents, along those of styles, and for the plain block. Where none of these is endless, one depth suffices
for all elements of a grammar on any draft.
-/

namespace NoteMarkup

instance : Finite ElementKind :=
  .of_surjective (fun i : Fin ElementKind.all.length => ElementKind.all[i]) fun kind => by
    rcases List.getElem_of_mem (ElementKind.mem_all kind) with ⟨i, hi, hkind⟩
    exact ⟨⟨i, hi⟩, hkind⟩

theorem ElementKind.wellFounded_of_acyclic {link : ElementKind → ElementKind → Prop}
    (h : ∀ kind, ¬ Relation.TransGen link kind kind) : WellFounded (flip link) := by
  have htrans : IsTrans ElementKind (flip (Relation.TransGen link)) := ⟨fun _ _ _ hab hbc => hbc.trans hab⟩
  have hirrefl : Std.Irrefl (flip (Relation.TransGen link)) := ⟨h⟩
  have hwf := Finite.wellFounded_of_trans_of_irrefl (flip (Relation.TransGen link))
  have hsub : Subrelation (flip link) (flip (Relation.TransGen link)) := fun hlink => Relation.TransGen.single hlink
  exact hsub.wf hwf

namespace Style

theorem Property.kind_mem_kinds {property : Property} {value : String} {s : Counterpart}
    (h : property.counterpart? value = some s) : s.kind ∈ property.kinds := by
  cases property with
  | fontWeight =>
    simp only [counterpart?, Option.ite_none_right_eq_some, Option.some.injEq] at h
    simp [kinds, ← h.2]
  | fontStyle =>
    simp only [counterpart?, Option.ite_none_right_eq_some, Option.some.injEq] at h
    simp [kinds, ← h.2]
  | textDecoration =>
    simp only [counterpart?] at h
    rcases List.exists_of_findSome?_eq_some h with ⟨word, -, hword⟩
    split at hword <;> cases hword <;> simp [kinds]
  | background =>
    simp only [counterpart?, Option.map_eq_some_iff] at h
    rcases h with ⟨color, -, rfl⟩
    simp [kinds, colored]
  | color =>
    simp only [counterpart?, Option.map_eq_some_iff] at h
    rcases h with ⟨color, -, rfl⟩
    simp [kinds, colored]

theorem Counterpart.Proper.lookup?_style {s : Counterpart} (h : s.Proper) :
    Attribute.lookup? s.attributes "style" = none := by
  cases h with
  | bare kind hkind => rfl
  | colored kind hkind color hcolor => exact Attribute.lookup?_style (by decide) _

end Style

theorem Entry.counterparts_nil (e : Entry) : e.counterparts [] = [] := by
  simp [counterparts, Attribute.lookup?]

namespace Grammar

def ParentLink (g : Grammar) (kind next : ElementKind) : Prop :=
  ∃ e, g.entry? (g.canonical kind) = some e ∧ e.parentKinds.head? = some next

theorem styleLink_of_counterparts {g : Grammar} {kind : ElementKind} {e : Entry} {source : List Attribute}
    {s : Style.Counterpart} (he : g.entry? kind = some e) (hsource : Attribute.lookup? source "style" = none)
    (hs : s ∈ e.counterparts source) : g.StyleLink kind (g.canonical s.kind) := by
  simp only [Entry.counterparts, hsource, Option.map_none, Option.getD_none, List.append_nil, List.mem_filterMap,
    Option.bind_eq_some_iff] at hs
  rcases hs with ⟨⟨name, property⟩, hproperty, value, -, hvalue⟩
  simp only [StyleLink, styleKinds, he, List.mem_map, List.mem_flatMap]
  exact ⟨s.kind, ⟨(name, property), hproperty, Style.Property.kind_mem_kinds hvalue⟩, rfl⟩

end Grammar

namespace Cleaner

variable {c : Cleaner} {depth : Nat} {name : TagName} {source : List Attribute}

def OpensWithin (c : Cleaner) (depth : Nat) (name : TagName) (source : List Attribute) : Prop :=
  ∀ d, ∃ opened, c.openElement? depth name source d = some opened

theorem OpensWithin.mono {deeper : Nat} (h : c.OpensWithin depth name source) (hle : depth ≤ deeper) :
    c.OpensWithin deeper name source := by
  intro d
  rcases h d with ⟨opened, hopened⟩
  exact ⟨opened, openElement?_mono hle hopened⟩

section Steps

variable {d : Draft}

theorem exists_endLine {openPlain : Draft → Option Draft} (h : ∀ d, ∃ opened, openPlain d = some opened) :
    ∃ ended, c.endLine openPlain d = some ended := by
  unfold endLine
  split
  . rcases h d with ⟨opened, hopened⟩
    exact ⟨_, by rw [hopened, Option.map_some]⟩
  . dsimp only
    split
    . exact ⟨_, rfl⟩
    . split
      . next inside _ _ _ _ =>
        rcases h (d.close c inside) with ⟨opened, hopened⟩
        simp only [beginLine, hopened]
        exact ⟨_, rfl⟩
      . exact ⟨_, rfl⟩

theorem exists_supplyParent {openBare : ElementKind → Draft → Option Draft} {e : Entry}
    (h : ∀ parent ∈ e.parentKinds.head?, ∀ d, ∃ opened, openBare parent d = some opened) :
    ∃ supplied, c.supplyParent openBare e d = some supplied := by
  unfold supplyParent
  split
  . exact ⟨_, rfl⟩
  . next first _ hparents =>
    split
    . exact ⟨_, rfl⟩
    . exact h first (by simp [hparents]) d

theorem exists_supplyBlock {openPlain : Draft → Option Draft} {e : Entry}
    (h : e.isInline → ∀ d, ∃ opened, openPlain d = some opened) :
    ∃ supplied, supplyBlock openPlain e d = some supplied := by
  unfold supplyBlock
  split
  . next hinline =>
    rw [Bool.and_eq_true] at hinline
    exact h hinline.1 d
  . exact ⟨_, rfl⟩

theorem exists_openCounterparts {openStyled : Style.Counterpart → Draft → Option Draft}
    {styles : List Style.Counterpart} (h : ∀ s ∈ styles, ∀ d, ∃ opened, openStyled s d = some opened) :
    ∃ opened, styles.foldlM (c.openCounterpart openStyled) d = some opened := by
  induction styles generalizing d with
  | nil => exact ⟨_, rfl⟩
  | cons s styles ih =>
    rw [List.forall_mem_cons] at h
    have hs : ∃ opened, c.openCounterpart openStyled d s = some opened := by
      unfold openCounterpart
      split
      . exact h.1 d
      . exact ⟨_, rfl⟩
    rcases hs with ⟨opened, hopened⟩
    rw [List.foldlM_cons, hopened]
    exact ih h.2

theorem exists_openHere {openStyled : Style.Counterpart → Draft → Option Draft} {kind : ElementKind} {e : Entry}
    (h : ∀ s ∈ e.counterparts source, ∀ d, ∃ opened, openStyled s d = some opened) :
    ∃ opened, c.openHere openStyled kind e source d = some opened := by
  unfold openHere
  dsimp only
  split
  . exact ⟨_, rfl⟩
  . split
    . exact ⟨_, rfl⟩
    . exact exists_openCounterparts h

end Steps

structure Prepared (c : Cleaner) (depth : Nat) (e : Entry) (source : List Attribute) : Prop where
  plain : e.endsLine ∨ e.isInline → c.OpensWithin depth (.known plainBlock) []
  parent : ∀ parent ∈ e.parentKinds.head?, c.OpensWithin depth (.known parent) []
  styles : ∀ s ∈ e.counterparts source, c.OpensWithin depth (.known s.kind) s.attributes

theorem OpensWithin.succ
    (h : ∀ kind e, c.grammar.canonicalName name = .known kind → c.grammar.entry? kind = some e →
      c.Prepared depth e source) :
    c.OpensWithin (depth + 1) name source := by
  intro d
  unfold openElement?
  dsimp only
  split
  . exact ⟨_, rfl⟩
  . next kind hname =>
    split
    . exact ⟨_, rfl⟩
    . next e he =>
      rcases h kind e hname he with ⟨hplain, hparent, hstyles⟩
      split
      . exact ⟨_, rfl⟩
      . split
        . next hends => exact exists_endLine (hplain (.inl hends))
        . split
          . exact ⟨_, rfl⟩
          . rcases exists_supplyParent hparent with ⟨inParent, hinParent⟩
            rcases exists_supplyBlock fun hinline => hplain (.inr hinline) with ⟨inBlock, hinBlock⟩
            simp only [Option.bind_eq_bind]
            rw [hinParent, Option.bind_some, hinBlock, Option.bind_some]
            exact exists_openHere hstyles

theorem exists_depth_forall {given : ElementKind → List Attribute → Prop}
    (h : ∀ kind, ∃ depth, ∀ source, given kind source → c.OpensWithin depth (.known kind) source) :
    ∃ depth, ∀ kind source, given kind source → c.OpensWithin depth (.known kind) source := by
  choose depths hdepths using h
  rcases Finite.exists_le depths with ⟨depth, hdepth⟩
  exact ⟨depth, fun kind source hsource => (hdepths kind source hsource).mono (hdepth kind)⟩

theorem exists_depth_of_acyclic {link : ElementKind → ElementKind → Prop}
    (hacyclic : ∀ kind, ¬ Relation.TransGen link kind kind) {given : List Attribute → Prop}
    (h : ∀ kind depth,
      (∀ next, link kind next → ∀ source, given source → c.OpensWithin depth (.known next) source) →
        ∃ deeper, ∀ source, given source → c.OpensWithin deeper (.known kind) source) :
    ∃ depth, ∀ kind source, given source → c.OpensWithin depth (.known kind) source := by
  apply exists_depth_forall
  intro kind
  induction kind using (ElementKind.wellFounded_of_acyclic hacyclic).induction with
  | _ kind ih =>
    have hlinked : ∃ depth, ∀ next source, (link kind next ∧ given source) →
        c.OpensWithin depth (.known next) source := by
      apply exists_depth_forall
      intro next
      by_cases hlink : link kind next
      . rcases ih next hlink with ⟨depth, hdepth⟩
        exact ⟨depth, fun source hsource => hdepth source hsource.2⟩
      . exact ⟨0, fun source hsource => absurd hsource.1 hlink⟩
    rcases hlinked with ⟨depth, hdepth⟩
    exact h kind depth fun next hlink source hsource => hdepth next source ⟨hlink, hsource⟩

theorem opensWithin_plainBlock {plain : Entry} (hblock : c.grammar.hasPlainBlock)
    (hplain : c.grammar.entry? plainBlock = some plain) (halias : plain.aliasOf = none)
    (hends : plain.endsLine = false) (hparents : plain.parentKinds = []) :
    c.OpensWithin 1 (.known plainBlock) [] := by
  have hcanonical : c.grammar.canonical plainBlock = plainBlock := by
    have hend : c.grammar.AliasEnd plainBlock plainBlock := .refl (by simp [Grammar.aliasOf?, hplain, halias])
    rwa [Grammar.canonical_eq_iff hend]
  apply OpensWithin.succ
  intro kind e hname he
  cases hname
  rw [hcanonical, hplain] at he
  cases he
  have hinline : plain.isInline = false := by
    have hcategory : plain.category = some .block := by
      simpa [Grammar.hasPlainBlock, hplain, Entry.isBlock] using hblock
    simp [Entry.isInline, hcategory]
  refine ⟨?_, ?_, ?_⟩
  . simp [hends, hinline]
  . simp [hparents]
  . simp [Entry.counterparts_nil]

theorem exists_depth_bare (hplain : c.OpensWithin 1 (.known plainBlock) [])
    (hparents : ∀ kind, ¬ Relation.TransGen c.grammar.ParentLink kind kind) :
    ∃ depth, ∀ kind, c.OpensWithin depth (.known kind) [] := by
  have hbare : ∃ depth, ∀ kind source, source = [] → c.OpensWithin depth (.known kind) source := by
    apply exists_depth_of_acyclic hparents
    intro kind depth hlinked
    refine ⟨max depth 1 + 1, ?_⟩
    -- Without attributes there are no styles to come back for.
    rintro _ rfl
    apply OpensWithin.succ
    intro canonical e hname he
    cases hname
    refine ⟨fun _ => hplain.mono (by omega), ?_, by simp [Entry.counterparts_nil]⟩
    intro parent hparent
    exact (hlinked parent ⟨e, he, hparent⟩ [] rfl).mono (by omega)
  rcases hbare with ⟨depth, hdepth⟩
  exact ⟨depth, fun kind => hdepth kind [] rfl⟩

theorem exists_depth_styled {depth : Nat} (hbare : ∀ kind, c.OpensWithin depth (.known kind) [])
    (hstyles : ∀ kind, ¬ Relation.TransGen c.grammar.StyleLink kind kind) :
    ∃ deeper, ∀ kind source, Attribute.lookup? source "style" = none →
      c.OpensWithin deeper (.known kind) source := by
  -- What a style stands for is a kind that may be an alias, and the links are those of the kinds meant.
  have hcanonical : ∀ kind, ¬ Relation.TransGen
      (fun kind next => c.grammar.StyleLink (c.grammar.canonical kind) (c.grammar.canonical next)) kind kind :=
    fun kind hcycle => hstyles _ (hcycle.lift c.grammar.canonical fun _ _ hlink => hlink)
  apply exists_depth_of_acyclic hcanonical
  intro kind deeper hlinked
  refine ⟨max depth deeper + 1, ?_⟩
  intro source hsource
  apply OpensWithin.succ
  intro canonical e hname he
  cases hname
  refine ⟨fun _ => (hbare _).mono (by omega), fun parent _ => (hbare parent).mono (by omega), ?_⟩
  intro s hs
  have hlink := Grammar.styleLink_of_counterparts he hsource hs
  exact (hlinked s.kind hlink _ (Entry.counterparts_proper hs).lookup?_style).mono (by omega)

theorem exists_depth {depth : Nat} (hbare : ∀ kind, c.OpensWithin depth (.known kind) [])
    (hstyles : ∀ kind, ¬ Relation.TransGen c.grammar.StyleLink kind kind) :
    ∃ deeper, ∀ name source, c.OpensWithin deeper name source := by
  rcases exists_depth_styled hbare hstyles with ⟨deeper, hstyled⟩
  refine ⟨max depth deeper + 1, ?_⟩
  intro name source
  apply OpensWithin.succ
  intro kind e _ _
  refine ⟨fun _ => (hbare _).mono (by omega), fun parent _ => (hbare parent).mono (by omega), ?_⟩
  intro s hs
  exact (hstyled _ _ (Entry.counterparts_proper hs).lookup?_style).mono (by omega)

theorem exists_cleanEvents? {depth : Nat} (h : ∀ name source, c.OpensWithin depth name source)
    (events : List SourceEvent) : ∃ cleaned, c.cleanEvents? events = some cleaned := by
  have henter : ∀ name source (d : Draft), ∃ opened, d.enter? c name source = some opened := by
    intro name source d
    rcases h name source d with ⟨opened, hopened⟩
    exact ⟨opened, Draft.enter?_eq_some_iff.mpr ⟨depth, hopened⟩⟩
  have hplain : ∀ content (d : Draft), ∃ held, Draft.text?.openThenEmit c content d = some held := by
    intro content d
    rcases henter (.known plainBlock) [] d with ⟨opened, hopened⟩
    exact ⟨_, by rw [Draft.text?.openThenEmit, hopened, Option.map_some]⟩
  have hstep : ∀ e (d : Draft), ∃ next, d.step? c e = some next := by
    intro e d
    cases e with
    | enter name source => exact henter _ source d
    | leave name => exact ⟨_, rfl⟩
    | text content =>
      simp only [Draft.step?]
      split
      . unfold Draft.text?
        split
        . split
          . exact ⟨_, rfl⟩
          . split
            . exact hplain _ d
            . exact ⟨_, rfl⟩
        . exact hplain _ d
      . exact ⟨_, rfl⟩
  have hrun : ∀ d : Draft, ∃ last, d.run? c events = some last := by
    unfold Draft.run?
    induction events with
    | nil => exact fun d => ⟨d, rfl⟩
    | cons e events ih =>
      intro d
      rcases hstep e d with ⟨next, hnext⟩
      rw [List.foldlM_cons, hnext]
      exact ih next
  rcases hrun {} with ⟨last, hlast⟩
  exact ⟨_, by rw [cleanEvents?, hlast, Option.map_some]⟩

theorem opening_ends {declarations : List EntryDeclaration} {g : Grammar} {plain : Entry}
    (hg : Grammar.ofDeclarations declarations = .ok g) (hplain : g.entry? plainBlock = some plain)
    (halias : plain.aliasOf = none) (hends : plain.endsLine = false) (hparents : plain.parentKinds = [])
    (hacyclic : ∀ kind, ¬ Relation.TransGen g.ParentLink kind kind) (o : CleaningOptions) :
    (∃ depth, ∀ name source (d : Draft), ∃ opened, openElement? ⟨g, o⟩ depth name source d = some opened)
      ∧ (∀ name source (d : Draft), ∃ opened, d.enter? ⟨g, o⟩ name source = some opened)
      ∧ ∀ events, ∃ cleaned, cleanEvents? ⟨g, o⟩ events = some cleaned := by
  rcases Grammar.ofDeclarations_eq_ok_iff.mp hg with ⟨-, -, hblock, -, hstyles, rfl⟩
  have hplain1 : OpensWithin ⟨_, o⟩ 1 (.known plainBlock) [] :=
    opensWithin_plainBlock hblock hplain halias hends hparents
  rcases exists_depth_bare hplain1 hacyclic with ⟨bare, hbare⟩
  rcases exists_depth hbare (Grammar.not_transGen_styleLink hstyles) with ⟨depth, hdepth⟩
  refine ⟨⟨depth, hdepth⟩, ?_, exists_cleanEvents? hdepth⟩
  intro name source d
  rcases hdepth name source d with ⟨opened, hopened⟩
  exact ⟨opened, Draft.enter?_eq_some_iff.mpr ⟨depth, hopened⟩⟩

def parentHeight : ElementKind → Nat
  | .td | .th => 2
  | .tr | .li | .dt | .dd => 1
  | _ => 0

theorem parentHeight_lt {kind next : ElementKind} (h : Grammar.standard.ParentLink kind next) :
    parentHeight next < parentHeight kind := by
  rcases h with ⟨e, he, hparent⟩
  rw [Grammar.entry?_standard, Option.some.injEq] at he
  rw [← he, ElementKind.entry_parentKinds] at hparent
  revert hparent
  cases kind <;> rintro ⟨⟩ <;> decide

theorem standard_opening_ends :
    Grammar.ofDeclarations Grammar.standardDeclarations = .ok .standard
      ∧ ∀ name source (d : Draft), ∃ opened, d.enter? ⟨.standard, {}⟩ name source = some opened := by
  have hg : Grammar.ofDeclarations Grammar.standardDeclarations = .ok .standard := by
    rw [Grammar.ofDeclarations_eq_ok_iff]
    refine ⟨?_, ?_, ?_, ?_, ?_, rfl⟩ <;> decide +kernel
  have hacyclic : ∀ kind, ¬ Relation.TransGen Grammar.standard.ParentLink kind kind := by
    intro kind hcycle
    have hlt : ∀ last, Relation.TransGen Grammar.standard.ParentLink kind last →
        parentHeight last < parentHeight kind := by
      intro last hreached
      induction hreached with
      | single hlink => exact parentHeight_lt hlink
      | tail _ hlink ih => exact (parentHeight_lt hlink).trans ih
    exact absurd (hlt kind hcycle) (Nat.lt_irrefl _)
  exact ⟨hg, (opening_ends hg (Grammar.entry?_standard .p) rfl rfl rfl hacyclic {}).2.1⟩

end Cleaner

end NoteMarkup
