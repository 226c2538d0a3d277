import Mathlib.Data.List.Forall2
import NoteMarkup.Proofs.Atop
import NoteMarkup.Proofs.Consistency

/-!
This module contains that a line break changes nothing about what is open. Every open element goes on behind it, with
the start tag it had; a plain block may have begun around those that are open inside of a table cell or a definition;
and what stands around the element that the line break acts on is not touched.
-/

namespace NoteMarkup

def OpenElement.holdsLine (c : Cleaner) (e : OpenElement) : Bool :=
  e.start.isSome && (c.entryOf? e.name).any (!·.isInline)

namespace Draft

structure LineHeld (c : Cleaner) (opened inner : List OpenElement) (holder : OpenElement)
    (outer : List OpenElement) : Prop where
  opened_eq : opened = inner ++ holder :: outer
  holds : holder.holdsLine c
  innermost : ∀ e ∈ inner, e.holdsLine c = false

structure GoesOn (d d' : Draft) (e e' : OpenElement) : Prop where
  name : e'.name = e.name
  tag : ∀ start ∈ e.start, ∃ start' ∈ e'.start, ∃ kind attributes,
    d.output[start]? = some (.startTag kind attributes) ∧ d'.output[start']? = some (.startTag kind attributes)
  silent : e.start = none → e'.start = none

inductive LineBroken (c : Cleaner) (d d' : Draft) : Prop
  /-- Where no open element can hold the line, it is an empty plain block. -/
  | outside (hnone : ∀ e ∈ d.opened, e.holdsLine c = false) (hopened : d'.opened = d.opened)
    (hblocks : d'.blocks = d.blocks) (houtput : d'.output = d.output.push (.standaloneTag .p []))
  /-- Otherwise all that is open goes on. The elements around the one that holds the line keep their places, and what
  has been emitted before its start tag stays. In a table cell or a definition a plain block may have begun. -/
  | inside (inner outer : List OpenElement) (holder : OpenElement) (hheld : LineHeld c d.opened inner holder outer)
    (inner' begun : List OpenElement) (holder' : OpenElement)
    (hopened : d'.opened = inner' ++ (begun ++ holder' :: outer))
    (hgoesOn : List.Forall₂ (d.GoesOn d') d.opened (inner' ++ holder' :: outer))
    (hbegun : begun = []
      ∨ holder.name ∈ [.known .td, .known .th, .known .dd]
        ∧ ∃ start, begun = [⟨.known .p, some start⟩] ∧ d'.output[start]? = some (.startTag .p []))
    (hbefore : ∀ start ∈ holder.start, ∀ i < start, d'.output[i]? = d.output[i]?)

end Draft

namespace Cleaner

open Draft

theorem lineHolder?_cons (c : Cleaner) (e : OpenElement) (opened : List OpenElement) :
    c.lineHolder? (e :: opened)
      =
    if e.holdsLine c then (c.entryOf? e.name).map (0, ·) else (c.lineHolder? opened).map lineHolder?.deeper := by
  unfold OpenElement.holdsLine
  rw [lineHolder?]
  cases e.start with
  | none => rfl
  | some start =>
    cases c.entryOf? e.name with
    | none => rfl
    | some entry => cases hinline : entry.isInline <;> simp [hinline]

variable {c : Cleaner} {opened : List OpenElement}

theorem not_holdsLine_of_lineHolder? (h : c.lineHolder? opened = none) : ∀ e ∈ opened, e.holdsLine c = false := by
  induction opened with
  | nil => simp
  | cons e opened ih =>
    rw [lineHolder?_cons] at h
    split at h
    . next hholds =>
      rw [OpenElement.holdsLine, Bool.and_eq_true] at hholds
      rw [Option.map_eq_none_iff] at h
      simp [h] at hholds
    . next hholds =>
      rw [Option.map_eq_none_iff] at h
      rw [List.forall_mem_cons]
      exact ⟨by simpa using hholds, ih h⟩

theorem exists_lineHeld {inside : Nat} {entry : Entry} (h : c.lineHolder? opened = some (inside, entry)) :
    ∃ inner holder outer, LineHeld c opened inner holder outer ∧ inner.length = inside
      ∧ c.entryOf? holder.name = some entry := by
  induction opened generalizing inside with
  | nil => cases h
  | cons e opened ih =>
    rw [lineHolder?_cons] at h
    split at h
    . next hholds =>
      simp only [Option.map_eq_some_iff, Prod.mk.injEq] at h
      rcases h with ⟨_, hentry, rfl, rfl⟩
      exact ⟨[], e, opened, ⟨rfl, hholds, by simp⟩, rfl, hentry⟩
    . next hholds =>
      rw [Option.map_eq_some_iff] at h
      rcases h with ⟨⟨further, _⟩, hfurther, h⟩
      cases h
      rcases ih hfurther with ⟨inner, holder, outer, hheld, rfl, hentry⟩
      refine ⟨e :: inner, holder, outer, ⟨by rw [hheld.opened_eq]; rfl, hheld.holds, ?_⟩, rfl, hentry⟩
      rw [List.forall_mem_cons]
      exact ⟨by simpa using hholds, hheld.innermost⟩

end Cleaner

namespace Draft

def head (d : Draft) (e : OpenElement) : TagName × Option (Option Event) :=
  (e.name, e.start.map (d.output[·]?))

variable {d d' : Draft}

theorem goesOn_of_head_eq {e e' : OpenElement} (htag : d.hasTag e) (h : d'.head e' = d.head e) :
    d.GoesOn d' e e' := by
  rcases e with ⟨name, _ | start⟩
  . simp only [head, Prod.mk.injEq, Option.map_none, Option.map_eq_none_iff] at h
    exact ⟨h.1, by simp, fun _ => h.2⟩
  . simp only [head, Prod.mk.injEq, Option.map_some, Option.map_eq_some_iff] at h
    rcases h with ⟨hname, start', hstart', hevent⟩
    simp only [hasTag, Option.all_some, Option.any_eq_true] at htag
    rcases htag with ⟨event, hat, kind, -, hopens⟩
    cases event with
    | startTag kind attributes =>
      refine ⟨hname, ?_, by simp⟩
      intro _ hstart
      cases hstart
      exact ⟨start', hstart', kind, attributes, hat, hevent.trans hat⟩
    | endTag kind => cases hopens
    | standaloneTag kind attributes => cases hopens
    | text content => cases hopens

theorem forall₂_goesOn {opened' : List OpenElement} (htags : ∀ e ∈ d.opened, d.hasTag e)
    (h : d.opened.map d.head = opened'.map d'.head) : List.Forall₂ (d.GoesOn d') d.opened opened' := by
  rw [← List.forall₂_eq_eq_eq, List.forall₂_map_left_iff, List.forall₂_map_right_iff] at h
  apply ((List.forall₂_and_left _ _).mpr ⟨htags, h⟩).imp
  rintro e e' ⟨htag, hhead⟩
  exact goesOn_of_head_eq htag hhead.symm

theorem LineHeld.broken {c : Cleaner} {inner outer : List OpenElement} {holder : OpenElement}
    (hheld : LineHeld c d.opened inner holder outer) (htags : ∀ e ∈ d.opened, d.hasTag e)
    {begun : List (TagName × Option (Option Event))}
    (hbegun : begun = []
      ∨ holder.name ∈ [.known .td, .known .th, .known .dd]
        ∧ begun = [(.known .p, some (some (.startTag .p [])))])
    (hheads : d'.opened.map d'.head = inner.map d.head ++ (begun ++ (holder :: outer).map d.head))
    (hsuffix : outer <:+ d'.opened)
    (hbefore : ∀ start ∈ holder.start, ∀ i < start, d'.output[i]? = d.output[i]?) : d.LineBroken c d' := by
  rw [List.map_eq_append_iff] at hheads
  rcases hheads with ⟨inner', rest, hopened, hinner, hrest⟩
  rw [List.map_eq_append_iff] at hrest
  rcases hrest with ⟨begun', rest, rfl, rfl, hrest⟩
  rw [List.map_cons, List.map_eq_cons_iff] at hrest
  rcases hrest with ⟨holder', outer', rfl, hholder, houter⟩
  -- To the output the outer elements are the same. They also have their places, for both are the end of what is open.
  have hlength : outer'.length = outer.length := by simpa using congrArg List.length houter
  have hsame : outer' = outer := by
    have hsuffix' : outer' <:+ d'.opened := ⟨inner' ++ (begun' ++ [holder']), by simp [hopened]⟩
    apply (List.suffix_of_suffix_length_le hsuffix' hsuffix (by omega)).eq_of_length hlength
  subst hsame
  apply LineBroken.inside inner outer' holder hheld inner' begun' holder' hopened _ _ hbefore
  . apply forall₂_goesOn htags
    rw [hheld.opened_eq, List.map_append, List.map_append, List.map_cons, List.map_cons, hinner, hholder, houter]
  . rcases hbegun with hnil | ⟨hname, hplain⟩
    . left
      simpa using hnil
    . right
      refine ⟨hname, ?_⟩
      rw [List.map_eq_singleton_iff] at hplain
      rcases hplain with ⟨⟨name, start⟩, rfl, hplain⟩
      simp only [head, Prod.mk.injEq, Option.map_eq_some_iff] at hplain
      rcases hplain with ⟨rfl, start, rfl, hevent⟩
      exact ⟨start, rfl, hevent⟩

end Draft

namespace Outline

theorem heads_draft {g : Grammar} (z : Outline g) :
    z.draft.opened.map z.draft.head = z.shells.map fun l => (l.name, l.startTag?.map some) := by
  have hheads := heads_openedOf z.ground z.layers []
  simp only [List.append_nil] at hheads
  simp only [shells, List.map_map, Function.comp_def, Layer.emptied_name, Layer.emptied_startTag?, ← hheads]
  simp [draft, Draft.head]

variable {o : CleaningOptions} {z : Outline .standard} {inside : Nat} {k : ElementKind}

theorem name_of_entryOf? {name : TagName} (h : Cleaner.entryOf? ⟨.standard, o⟩ name = some k.entry) :
    name = .known k := by
  rw [entryOf?_standard, Option.map_eq_some_iff] at h
  rcases h with ⟨w, hw, hentry⟩
  have hkind : w = k := by rw [← ElementKind.entry_kind w, hentry, ElementKind.entry_kind]
  subst hkind
  cases name with
  | known v => rw [Option.some.inj hw]
  | unknown raw => cases hw

theorem endLine_heads (hholder : holderOf z.shells = some (inside, k)) (now : Nat) :
    ∃ begun, (begun = [] ∨ k.beginsLines ∧ begun = [(.known .p, some (some (.startTag .p [])))])
      ∧ (z.endLine now).draft.opened.map (z.endLine now).draft.head
        =
      (z.draft.opened.take inside).map z.draft.head ++ (begun ++ (z.draft.opened.drop inside).map z.draft.head) := by
  rcases endLine_shells now z with hsame | ⟨inside', k', hholder', hbegins, hbegun⟩
  . refine ⟨[], .inl rfl, ?_⟩
    rw [heads_draft, hsame, ← heads_draft, List.nil_append, ← List.map_append, List.take_append_drop]
  . rw [hholder, Option.some.injEq, Prod.mk.injEq] at hholder'
    rcases hholder' with ⟨rfl, rfl⟩
    refine ⟨[(.known .p, some (some (.startTag .p [])))], .inr ⟨hbegins, rfl⟩, ?_⟩
    rw [heads_draft, hbegun, List.map_append, List.map_cons, List.map_take, List.map_drop, List.map_take,
      List.map_drop, heads_draft]
    rfl

theorem exists_endLine_atop {f : Outline .standard}
    (hholder : holderOf (z.atop f).shells = some (inside, k)) (hlt : inside < f.layers.length) (now : Nat) :
    ∃ f', (z.atop f).endLine now = z.atop f' := by
  unfold endLine
  rw [hholder]
  dsimp only
  split
  . exact ⟨f, rfl⟩
  . split
    . rw [← atop_close (by omega)]
      unfold openPlain
      split
      . exact ⟨(f.close inside).putUp _, (atop_putUp _ z _).symm⟩
      . exact ⟨((f.close inside).place .p [] now).putUp _, (atop_putUp _ z ((f.close inside).place .p [] now)).symm⟩
    . rw [← atop_close (by omega)]
      exact ⟨(f.close (inside + 1)).putUp _, (atop_putUp _ z _).symm⟩

theorem endLine_around (hholder : holderOf z.shells = some (inside, k)) (now : Nat) {holder : OpenElement}
    {outer : List OpenElement} (hdrop : z.draft.opened.drop inside = holder :: outer) :
    outer <:+ (z.endLine now).draft.opened
      ∧ ∀ start ∈ holder.start, ∀ i < start, (z.endLine now).draft.output[i]? = z.draft.output[i]? := by
  rcases start_of_drop hdrop with ⟨rfl, hstart⟩
  have hz := atop_take_drop (inside + 1) z
  have hlt : inside < (z.layers.take (inside + 1)).length := by
    have hlength := congrArg List.length hdrop
    rw [List.length_drop, draft_opened_length, List.length_cons] at hlength
    rw [List.length_take]
    omega
  generalize (⟨z.ground, z.layers.drop (inside + 1)⟩ : Outline .standard) = y at hz hstart ⊢
  rw [← hz] at hholder
  rcases exists_endLine_atop hholder hlt now with ⟨f, hf⟩
  rw [hz] at hf
  rw [hf]
  refine ⟨opened_suffix_atop y f, ?_⟩
  intro start hmem i hi
  rw [hstart start hmem] at hi
  rw [← hz, output_atop y f hi, output_atop y _ hi]

theorem lineBroken_endLine (o : CleaningOptions) (now : Nat) (z : Outline .standard) :
    z.draft.LineBroken ⟨.standard, o⟩ (z.endLine now).draft := by
  have hline := lineHolder?_draft (o := o) z
  cases hholder : holderOf z.shells with
  | none =>
    rw [hholder, Option.map_none] at hline
    have hends : z.endLine now = z.hold (.standalone .nil .p []) := by
      unfold endLine
      rw [hholder]
    rw [hends, hold_standalone_draft]
    exact .outside (Cleaner.not_holdsLine_of_lineHolder? hline) rfl rfl rfl
  | some found =>
    rcases found with ⟨inside, k⟩
    rw [hholder, Option.map_some] at hline
    rcases Cleaner.exists_lineHeld hline with ⟨inner, holder, outer, hheld, rfl, hentry⟩
    have htake : z.draft.opened.take inner.length = inner := by rw [hheld.opened_eq, List.take_left]
    have hdrop : z.draft.opened.drop inner.length = holder :: outer := by rw [hheld.opened_eq, List.drop_left]
    rcases endLine_heads hholder now with ⟨begun, hbegun, hheads⟩
    rcases endLine_around hholder now hdrop with ⟨hsuffix, hbefore⟩
    rw [htake, hdrop] at hheads
    apply hheld.broken (consistent_draft o z).tags _ hheads hsuffix hbefore
    apply hbegun.imp_right
    rintro ⟨hbegins, hplain⟩
    refine ⟨?_, hplain⟩
    rw [name_of_entryOf? hentry]
    revert hbegins
    cases k <;> decide

end Outline

namespace Cleaner

theorem line_break_keeps_open (o : CleaningOptions) (events : List SourceEvent) :
    ∃ d d', ({} : Draft).run? ⟨.standard, o⟩ events = some d
      ∧ (∀ depth, endLine ⟨.standard, o⟩ (openElement? ⟨.standard, o⟩ (depth + 1) (.known plainBlock) []) d = some d')
      ∧ (∀ source, d.enter? ⟨.standard, o⟩ (.known .br) source = some d')
      ∧ d.LineBroken ⟨.standard, o⟩ d' := by
  have hsound : Outline.Sound o True (Outline.run o 0 {} events) :=
    Outline.sound_empty.run 0 events fun _ _ _ => trivial
  refine ⟨_, _, Draft.run?_draft 0 events Outline.sound_empty, ?_, ?_, Outline.lineBroken_endLine o 0 _⟩
  . intro depth
    exact Draft.endLine_draft depth 0 hsound.stacked
  . intro source
    rw [Draft.enter?_draft 0 _ source hsound, Outline.enter_br rfl]

example :
    (({} : Draft).run? ⟨.standard, { dedupeInline := true }⟩
        [.enter "td" [], .text "a", .enter "em" [], .enter "x-y" [], .enter "em" [], .enter "br" []]).map (·.opened)
      =
    some [⟨.known .em, none⟩, ⟨.unknown "x-y", none⟩, ⟨.known .em, some 5⟩, ⟨.known .p, some 4⟩, ⟨.known .td, some 2⟩,
      ⟨.known .tr, some 1⟩, ⟨.known .table, some 0⟩] := by
  have hempty : ({} : Draft) = ({} : Outline .standard).draft := rfl
  rw [hempty, Draft.run?_draft 0 _ Outline.sound_empty]
  decide +kernel

end Cleaner

end NoteMarkup
