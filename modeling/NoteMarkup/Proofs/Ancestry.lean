import NoteMarkup.Proofs.EndTag
import NoteMarkup.Proofs.Texts

/-!
This module contains the elements around a place in a source next to the layers that are open there. Text is
refused by lists, definitions, tables and rows only. Where one of them meets a text that the source lets stand,
either it was supplied for an element that lacked it, and no end tag has closed it, or it is around the text in
the source too, but what stands between them there is not open.
-/

namespace NoteMarkup

structure Ancestor where
  number : Nat
  name : String
  deriving DecidableEq, Repr

namespace Ancestor

def tag (a : Ancestor) : TagName :=
  Grammar.standard.canonicalName (.ofName a.name)

def nearestKind? (as : List Ancestor) : Option ElementKind :=
  as.findSome? (·.tag.kind?)

end Ancestor

namespace SourceEvent

def enclose (now : Nat) (as : List Ancestor) : SourceEvent → List Ancestor
  | enter name _ => ⟨now, name⟩ :: as
  | leave _ => as.tail
  | text _ => as

def encloseAll : Nat → List Ancestor → List SourceEvent → List Ancestor
  | _, as, [] => as
  | now, as, e :: events => encloseAll (now + 1) (e.enclose now as) events

def ancestors (events : List SourceEvent) : List Ancestor :=
  encloseAll 0 [] events

def Matched : List String → List SourceEvent → Prop
  | _, [] => True
  | names, enter name _ :: events => Matched (name :: names) events
  | names, leave name :: events => names.head? = some name ∧ Matched names.tail events
  | names, text _ :: events => Matched names events

theorem Matched.of_append {names : List String} {first second : List SourceEvent}
    (h : Matched names (first ++ second)) : Matched names first := by
  induction first generalizing names with
  | nil => trivial
  | cons e first ih =>
    cases e with
    | enter name source => exact ih h
    | leave name => exact ⟨h.1, ih h.2⟩
    | text content => exact ih h

end SourceEvent

mutual

theorem Node.matched_sourceEvents {names : List String} {events : List SourceEvent}
    (h : SourceEvent.Matched names events) : ∀ n : Node, SourceEvent.Matched names (n.sourceEvents ++ events)
  | .element name _ children => by
    have hleave : SourceEvent.Matched (name :: names) (.leave name :: events) := ⟨rfl, h⟩
    simpa [sourceEvents, SourceEvent.Matched] using matched_sourceEventsAll hleave children
  | .text _ => h

theorem Node.matched_sourceEventsAll {names : List String} {events : List SourceEvent}
    (h : SourceEvent.Matched names events) :
    ∀ ns : List Node, SourceEvent.Matched names (sourceEventsAll ns ++ events)
  | [] => h
  | n :: ns => by
    rw [sourceEventsAll, List.append_assoc]
    exact matched_sourceEvents (matched_sourceEventsAll h ns) n

end

theorem SourceEvent.matched_ofNodes (nodes : List Node) : Matched [] (ofNodes nodes) := by
  have hnil : Matched [] [] := trivial
  have hall := Node.matched_sourceEventsAll hnil nodes
  rwa [List.append_nil, ← ofNodes_eq] at hall

namespace Outline

/-- The layer was opened around an element that its event entered, because it was missing there. -/
def SuppliedBy (events : List SourceEvent) (l : Layer .standard) : Prop :=
  ∃ name source k, events[l.since]? = some (.enter name source)
    ∧ Grammar.standard.canonicalName (.ofName name) = .known k
    ∧ ∃ w ∈ suppliedAround k, l.name = .known w

def RefusesText (l : Layer .standard) : Prop :=
  ∃ w, l.name = .known w ∧ w.model.holdsText = false

/-- How a layer stands in one that refuses text. Nothing is supplied inside of a layer that was not supplied
itself, and what is inside of a layer of the same name is younger. -/
def StandsIn (events : List SourceEvent) (inner outer : Layer .standard) : Prop :=
  RefusesText outer →
    SuppliedBy events outer ∨ ¬ SuppliedBy events inner ∧ (inner.name = outer.name → outer.since < inner.since)

/-- The layers that are open when the next event has the number `now`, next to the elements around the place.
What refuses text is supplied or stands for one of these. -/
structure Traced (events : List SourceEvent) (now : Nat) (as : List Ancestor) (z : Outline .standard) : Prop where
  origin : ∀ l ∈ z.shells, RefusesText l → SuppliedBy events l ∨ ∃ a ∈ as, a.number = l.since ∧ a.tag = l.name
  order : z.shells.Pairwise (StandsIn events)
  within : ∀ a ∈ as, Within a.number a.tag z.shells
  opened : ∀ l ∈ z.shells, l.since < now
  entered : ∀ a ∈ as, a.number < now
  nested : as.Pairwise fun inner outer => outer.number < inner.number

variable {events : List SourceEvent} {now : Nat} {as : List Ancestor} {z : Outline .standard} {o : CleaningOptions}

theorem not_refusesText_of_isInline {l : Layer .standard} {w : ElementKind} (hl : l.name = .known w)
    (hw : w.isInline) : ¬ RefusesText l := by
  rintro ⟨v, hv, hrefuses⟩
  cases hl.symm.trans hv
  rw [ElementKind.model_of_isInline hw] at hrefuses
  cases hrefuses

theorem not_refusesText_plain (since : Nat) (held : Content) : ¬ RefusesText (.written (tagOf .p []) since held) := by
  rintro ⟨w, hw, hrefuses⟩
  cases hw
  cases hrefuses

theorem RefusesText.of_name {l m : Layer .standard} (h : RefusesText l) (hname : m.name = l.name) :
    RefusesText m := by
  rcases h with ⟨w, hw, hrefuses⟩
  exact ⟨w, hname.trans hw, hrefuses⟩

theorem not_refusesText_of_nearestOf {ls : List (Layer .standard)} (h : nearestOf ls = none) :
    ∀ l ∈ ls, ¬ RefusesText l := by
  rintro l hmem ⟨w, hw, -⟩
  have hnone := List.findSome?_eq_none_iff.mp h l hmem
  rw [hw] at hnone
  cases hnone

theorem SuppliedBy.refusesText {l : Layer .standard} (h : SuppliedBy events l) : RefusesText l := by
  rcases h with ⟨_, _, k, -, -, w, hw, hl⟩
  have hrefuse : ∀ w ∈ suppliedAround k, w.model.holdsText = false := by
    cases k <;> decide
  exact ⟨w, hl, hrefuse w hw⟩

theorem not_suppliedBy_plain (events : List SourceEvent) (since : Nat) (held : Content) :
    ¬ SuppliedBy events (.written (tagOf .p []) since held) :=
  fun h => not_refusesText_plain since held h.refusesText

section Entered

variable {name : String} {source : List Attribute} {k : ElementKind} {l : Layer .standard}

theorem suppliedBy_of_around (hentered : events[now]? = some (.enter name source))
    (hname : Grammar.standard.canonicalName (.ofName name) = .known k) (hnow : l.since = now)
    (haround : ∃ w, l.name = .known w ∧ (w ∈ suppliedAround k ∨ w = .p ∧ k.isInline)) (hrefuses : RefusesText l) :
    SuppliedBy events l := by
  rcases haround with ⟨w, hw, hmem | ⟨rfl, -⟩⟩
  . subst hnow
    exact ⟨name, source, k, hentered, hname, w, hmem, hw⟩
  . rcases hrefuses with ⟨v, hv, hrefuses⟩
    cases hw.symm.trans hv
    cases hrefuses

theorem not_suppliedBy_own (hentered : events[now]? = some (.enter name source))
    (hname : Grammar.standard.canonicalName (.ofName name) = .known k) (hnow : l.since = now)
    (hl : l.name = .known k) : ¬ SuppliedBy events l := by
  rintro ⟨name', source', k', hentered', hname', w, hw, hl'⟩
  subst hnow
  cases hentered.symm.trans hentered'
  cases hname.symm.trans hname'
  cases hl.symm.trans hl'
  -- Nothing is supplied around an element of its own kind.
  revert hw
  cases k <;> simp [suppliedAround]

end Entered

theorem standsIn_opened {opened ls : List (Layer .standard)} (hopened : opened.Pairwise (StandsIn events))
    (hls : ls.Pairwise (StandsIn events)) (hyounger : ∀ inner ∈ opened, ∀ outer ∈ ls, outer.since < inner.since)
    (hsupplied : ∀ inner ∈ opened, SuppliedBy events inner → ∀ outer ∈ ls, ¬ RefusesText outer) :
    (opened ++ ls).Pairwise (StandsIn events) := by
  rw [List.pairwise_append]
  refine ⟨hopened, hls, ?_⟩
  intro inner hinner outer houter hrefuses
  right
  constructor
  . intro hinnerSupplied
    exact hsupplied inner hinner hinnerSupplied outer houter hrefuses
  . intro _
    exact hyounger inner hinner outer houter

theorem standsIn_cons {l : Layer .standard} {ls : List (Layer .standard)} (hls : ls.Pairwise (StandsIn events))
    (hyounger : ∀ outer ∈ ls, outer.since < l.since) (hl : ¬ SuppliedBy events l) :
    (l :: ls).Pairwise (StandsIn events) := by
  apply standsIn_opened (List.pairwise_singleton _ l) hls (by simpa using hyounger)
  intro inner hinner hinnerSupplied
  rw [List.mem_singleton] at hinner
  rw [hinner] at hinnerSupplied
  exact absurd hinnerSupplied hl

theorem standsIn_lineBegun {before after : List (Layer .standard)} (h : LineBegun now before after)
    (hbefore : before.Pairwise (StandsIn events)) (hpast : ∀ l ∈ before, l.since < now) :
    after.Pairwise (StandsIn events) := by
  rcases h with ⟨n, rfl⟩
  rw [← List.take_append_drop n before, List.pairwise_append] at hbefore
  rcases hbefore with ⟨htake, hdrop, hacross⟩
  rw [List.pairwise_append]
  refine ⟨htake, ?_, ?_⟩
  . have hpast : ∀ l ∈ before.drop n, l.since < now := fun l hmem => hpast l (List.mem_of_mem_drop hmem)
    exact standsIn_cons hdrop hpast (not_suppliedBy_plain _ _ _)
  . intro inner hinner outer houter
    rw [List.mem_cons] at houter
    rcases houter with rfl | houter
    . intro hrefuses
      exact absurd hrefuses (not_refusesText_plain _ _)
    . exact hacross inner hinner outer houter

theorem standsIn_entered {styled own around : List (Layer .standard)} (hstyled : ∀ l ∈ styled, ¬ RefusesText l)
    (hown : own.Pairwise (StandsIn events)) (haround : ∀ l ∈ around, RefusesText l → SuppliedBy events l) :
    (styled ++ (own ++ around)).Pairwise (StandsIn events) := by
  rw [List.pairwise_append, List.pairwise_append]
  refine ⟨?_, ⟨hown, ?_, ?_⟩, ?_⟩
  . apply List.pairwise_of_forall_mem_list
    intro inner _ outer houter hrefuses
    exact absurd hrefuses (hstyled outer houter)
  . apply List.pairwise_of_forall_mem_list
    intro inner _ outer houter hrefuses
    exact .inl (haround outer houter hrefuses)
  . intro inner _ outer houter hrefuses
    exact .inl (haround outer houter hrefuses)
  . intro inner hinner outer houter hrefuses
    rw [List.mem_append] at houter
    rcases houter with houter | houter
    . right
      constructor
      . intro hsupplied
        exact hstyled inner hinner hsupplied.refusesText
      . intro hsame
        exact absurd (hrefuses.of_name hsame) (hstyled inner hinner)
    . exact .inl (haround outer houter hrefuses)

theorem EntersOnto.standsIn {name : String} {source : List Attribute} {k : ElementKind}
    {before after : List (Layer .standard)} (h : EntersOnto k now before after)
    (hentered : events[now]? = some (.enter name source))
    (hname : Grammar.standard.canonicalName (.ofName name) = .known k)
    (hbefore : before.Pairwise (StandsIn events)) (hpast : ∀ l ∈ before, l.since < now) :
    after.Pairwise (StandsIn events) := by
  rcases h with ⟨n, styled, own, around, rfl, hnow, hstyled, hown, haround, hnearest⟩
  have hsplit : styled ++ (own ++ (around ++ before.drop n)) = (styled ++ (own ++ around)) ++ before.drop n := by
    simp
  have hstyledHolds : ∀ l ∈ styled, ¬ RefusesText l := by
    intro l hmem
    rcases hstyled l hmem with ⟨w, hw, hinline⟩
    exact not_refusesText_of_isInline hw hinline
  have hownAlone : own.Pairwise (StandsIn events) ∧ ∀ l ∈ own, ¬ SuppliedBy events l := by
    rcases hown with rfl | ⟨l, rfl, hl, -, -⟩
    . simp
    . simpa using not_suppliedBy_own hentered hname (hnow l (by simp)) hl
  have haroundSupplied : ∀ l ∈ around, RefusesText l → SuppliedBy events l := by
    intro l hmem
    exact suppliedBy_of_around hentered hname (hnow l (by simp [hmem])) (haround l hmem)
  rw [hsplit]
  apply standsIn_opened (standsIn_entered hstyledHolds hownAlone.1 haroundSupplied) hbefore.drop
  . intro inner hinner outer houter
    rw [hnow inner hinner]
    exact hpast outer (List.mem_of_mem_drop houter)
  -- Something is supplied only where nothing known is open.
  . intro inner hinner hsupplied
    simp only [List.mem_append] at hinner
    rcases hinner with hinner | hinner | hinner
    . exact absurd hsupplied.refusesText (hstyledHolds inner hinner)
    . exact absurd hsupplied (hownAlone.2 inner hinner)
    . exact not_refusesText_of_nearestOf (hnearest (List.ne_nil_of_mem hinner))

theorem EntersOnto.origin {name : String} {source : List Attribute} {k : ElementKind}
    {before after : List (Layer .standard)} (h : EntersOnto k now before after)
    (hentered : events[now]? = some (.enter name source))
    (hname : Grammar.standard.canonicalName (.ofName name) = .known k) :
    ∀ l ∈ after, RefusesText l →
      l ∈ before ∨ SuppliedBy events l ∨ l.since = now ∧ l.name = .known k := by
  rcases h with ⟨n, styled, own, around, rfl, hnow, hstyled, hown, haround, -⟩
  intro l hmem hrefuses
  simp only [List.mem_append] at hmem
  rcases hmem with hmem | hmem | hmem | hmem
  . rcases hstyled l hmem with ⟨w, hw, hinline⟩
    exact absurd hrefuses (not_refusesText_of_isInline hw hinline)
  . right; right
    refine ⟨hnow l (by simp [hmem]), ?_⟩
    rcases hown with rfl | ⟨l', rfl, hl', -⟩
    . cases hmem
    . rw [List.mem_singleton] at hmem
      rwa [hmem]
  . right; left
    exact suppliedBy_of_around hentered hname (hnow l (by simp [hmem])) (haround l hmem) hrefuses
  . exact .inl (List.mem_of_mem_drop hmem)

variable {name : String} {source : List Attribute}

theorem origin_enter (z : Outline .standard) (hentered : events[now]? = some (.enter name source)) :
    ∀ l ∈ (z.enter o now (.ofName name) source).shells, RefusesText l →
      l ∈ z.shells ∨ SuppliedBy events l
        ∨ l.since = now ∧ l.name = Grammar.standard.canonicalName (.ofName name) := by
  intro l hmem hrefuses
  rcases enter_cases (o := o) now z (.ofName name) source with
    hsame | ⟨raw, -, hsilent⟩ | ⟨-, n, hbegun⟩ | ⟨k, hk, henters⟩
  . left
    rwa [hsame] at hmem
  . rw [hsilent, List.mem_cons] at hmem
    rcases hmem with rfl | hmem
    . rcases hrefuses with ⟨w, hw, -⟩
      cases hw
    . exact .inl hmem
  . rw [hbegun, List.mem_append, List.mem_cons] at hmem
    rcases hmem with hmem | rfl | hmem
    . exact .inl (List.mem_of_mem_take hmem)
    . exact absurd hrefuses (not_refusesText_plain _ _)
    . exact .inl (List.mem_of_mem_drop hmem)
  . rw [hk]
    exact henters.origin hentered hk l hmem hrefuses

theorem standsIn_enter {z : Outline .standard} (hentered : events[now]? = some (.enter name source))
    (hz : z.shells.Pairwise (StandsIn events)) (hpast : ∀ l ∈ z.shells, l.since < now) :
    (z.enter o now (.ofName name) source).shells.Pairwise (StandsIn events) := by
  rcases enter_cases (o := o) now z (.ofName name) source with
    hsame | ⟨raw, -, hsilent⟩ | ⟨-, hbegun⟩ | ⟨k, hk, henters⟩
  . rwa [hsame]
  . rw [hsilent]
    refine standsIn_cons hz hpast ?_
    rintro ⟨_, _, _, -, -, w, -, hw⟩
    cases hw
  . exact standsIn_lineBegun hbegun hz hpast
  . exact henters.standsIn hentered hk hz hpast

theorem exists_mem_reach {name : TagName} {ls : List (Layer .standard)} (h : ∃ l ∈ ls, l.name = name) :
    ∃ l ∈ reach name ls, l.name = name := by
  rcases h with ⟨l, hmem, hname⟩
  unfold reach
  cases hfind : ls.findIdx? (·.name == name) with
  | none =>
    rw [List.findIdx?_eq_none_iff] at hfind
    simpa [hname] using hfind l hmem
  | some i =>
    rw [List.findIdx?_eq_some_iff_getElem] at hfind
    rcases hfind with ⟨hlength, hi, -⟩
    refine ⟨ls[i], ?_, by simpa using hi⟩
    dsimp only
    rw [List.mem_take_iff_getElem]
    exact ⟨i, by omega, rfl⟩

theorem Traced.origin_leave {a : Ancestor} (h : Traced events now (a :: as) z) :
    ∀ l ∈ (z.leave a.tag).shells, RefusesText l →
      SuppliedBy events l ∨ ∃ a' ∈ as, a'.number = l.since ∧ a'.tag = l.name := by
  intro l hmem hrefuses
  have hshells := reach_append_leave a.tag z
  have hopen : l ∈ z.shells := by
    rw [← hshells]
    simp [hmem]
  rcases h.origin l hopen hrefuses with hsupplied | ⟨a', ha', hnumber, htag⟩
  . exact .inl hsupplied
  . rw [List.mem_cons] at ha'
    rcases ha' with rfl | ha'
    -- Another layer of the name is inside of it, which would have to be of an element inside of the one left.
    . rcases exists_mem_reach ⟨l, hopen, htag.symm⟩ with ⟨m, hm, hmname⟩
      have horder := h.order
      rw [← hshells, List.pairwise_append] at horder
      have hmopen : m ∈ z.shells := by
        rw [← hshells]
        simp [hm]
      have hsame : m.name = l.name := hmname.trans htag
      rcases horder.2.2 m hm l hmem hrefuses with hsupplied | ⟨hnot, hyounger⟩
      . exact .inl hsupplied
      . have hyounger := hyounger hsame
        rcases h.origin m hmopen (hrefuses.of_name hsame) with hsupplied | ⟨a'', ha'', hnumber'', -⟩
        . exact absurd hsupplied hnot
        . have hnested := h.nested
          rw [List.pairwise_cons] at hnested
          rw [List.mem_cons] at ha''
          rcases ha'' with rfl | ha''
          . omega
          . have := hnested.1 a'' ha''
            omega
    . exact .inr ⟨a', ha', hnumber, htag⟩

theorem traced_empty (events : List SourceEvent) : Traced events 0 [] {} :=
  ⟨by simp [shells], by simp [shells], by simp, by simp [shells], by simp, by simp⟩

variable {e : SourceEvent}

theorem Traced.step_enter (h : Traced events now as z) (he : events[now]? = some (.enter name source)) :
    Traced events (now + 1) (⟨now, name⟩ :: as) (z.step o now (.enter name source)) where
  origin := by
    intro l hmem hrefuses
    rcases origin_enter (o := o) z he l hmem hrefuses with hopen | hsupplied | ⟨hnow, hname⟩
    . refine (h.origin l hopen hrefuses).imp_right ?_
      rintro ⟨a, ha, hown⟩
      exact ⟨a, by simp [ha], hown⟩
    . exact .inl hsupplied
    . exact .inr ⟨⟨now, name⟩, by simp, hnow.symm, hname.symm⟩
  order := standsIn_enter he h.order h.opened
  within := by
    intro a ha
    rw [List.mem_cons] at ha
    rcases ha with rfl | ha
    . exact within_enter h.opened source name
    . exact within_step (h.entered a ha) (h.within a ha) _
  opened := since_lt_step h.opened _
  entered := by
    intro a ha
    rw [List.mem_cons] at ha
    rcases ha with rfl | ha
    . exact Nat.lt_succ_self now
    . exact Nat.lt_succ_of_lt (h.entered a ha)
  nested := List.pairwise_cons.mpr ⟨h.entered, h.nested⟩

theorem Traced.step_leave {a : Ancestor} (h : Traced events now (a :: as) z) :
    Traced events (now + 1) as (z.step o now (.leave a.name)) where
  origin := h.origin_leave
  order := by
    rcases leave_shells a.tag z with ⟨n, hn⟩
    have hdrop : (z.leave a.tag).shells.Pairwise (StandsIn events) := by
      rw [hn]
      exact h.order.drop
    exact hdrop
  within := fun a' ha' => within_step (h.entered a' (by simp [ha'])) (h.within a' (by simp [ha'])) _
  opened := since_lt_step h.opened _
  entered := fun a' ha' => Nat.lt_succ_of_lt (h.entered a' (by simp [ha']))
  nested := (List.pairwise_cons.mp h.nested).2

theorem Traced.step_text (h : Traced events now as z) (content : String) :
    Traced events (now + 1) as (z.step o now (.text content)) where
  origin := by
    intro l hmem hrefuses
    rcases step_text_shells (o := o) now content z with hsame | hplain
    . rw [hsame] at hmem
      exact h.origin l hmem hrefuses
    . rw [hplain, List.mem_cons] at hmem
      rcases hmem with rfl | hmem
      . exact absurd hrefuses (not_refusesText_plain _ _)
      . exact h.origin l hmem hrefuses
  order := by
    rcases step_text_shells (o := o) now content z with hsame | hplain
    . rw [hsame]
      exact h.order
    . rw [hplain]
      exact standsIn_cons h.order h.opened (not_suppliedBy_plain _ _ _)
  within := fun a ha => within_step (h.entered a ha) (h.within a ha) _
  opened := since_lt_step h.opened _
  entered := fun a ha => Nat.lt_succ_of_lt (h.entered a ha)
  nested := h.nested

theorem Traced.run {rest : List SourceEvent} (h : Traced events now as z)
    (hrest : ∀ i e, rest[i]? = some e → events[now + i]? = some e)
    (hmatched : SourceEvent.Matched (as.map (·.name)) rest) :
    Traced events (now + rest.length) (SourceEvent.encloseAll now as rest) (z.run o now rest) := by
  induction rest generalizing now as z with
  | nil => exact h
  | cons e rest ih =>
    have hlength : now + (e :: rest).length = now + 1 + rest.length := by
      simp only [List.length_cons]
      omega
    have he : events[now]? = some e := hrest 0 e rfl
    have hrest' : ∀ i e', rest[i]? = some e' → events[now + 1 + i]? = some e' := by
      intro i e' hi
      have hevent := hrest (i + 1) e' (by simpa using hi)
      rwa [show now + (i + 1) = now + 1 + i by omega] at hevent
    rw [hlength]
    cases e with
    | enter name source => exact ih (h.step_enter he) hrest' hmatched
    | text content => exact ih (h.step_text content) hrest' hmatched
    | leave name =>
      cases as with
      | nil => cases hmatched.1
      | cons a as =>
        have hname : a.name = name := by simpa using hmatched.1
        subst hname
        exact ih h.step_leave hrest' hmatched.2

/-- The layer is that of an element around the place, and of what the grammar knows between the two nothing is
open. -/
def Outlasts (as : List Ancestor) (z : Outline .standard) (l : Layer .standard) : Prop :=
  ∃ nearer a outer, as = nearer ++ a :: outer ∧ a.number = l.since ∧ a.tag = l.name
    ∧ Ancestor.nearestKind? nearer ≠ none
    ∧ ∀ b ∈ nearer, b.tag.kind?.isSome → ∀ m ∈ z.shells, m.since = b.number → m.name ≠ b.tag

def nearestLayer? (z : Outline .standard) : Option (Layer .standard) :=
  z.shells.find? (·.name.kind?.isSome)

theorem exists_nearestLayer? {w : ElementKind} (h : z.nearest = some w) :
    ∃ l, z.nearestLayer? = some l ∧ l.name = .known w := by
  unfold nearest nearestOf at h
  unfold nearestLayer?
  generalize z.shells = ls at h
  induction ls with
  | nil => cases h
  | cons l ls ih =>
    rw [List.findSome?_cons] at h
    cases hname : l.name with
    | known k =>
      refine ⟨l, ?_, ?_⟩
      . simp [hname, TagName.kind?]
      . simpa [hname, TagName.kind?] using h
    | unknown raw =>
      rcases ih (by simpa [hname, TagName.kind?] using h) with ⟨m, hm, hmname⟩
      refine ⟨m, ?_, hmname⟩
      simpa [hname, TagName.kind?] using hm

theorem Traced.outlasts {l : Layer .standard} (h : Traced events now as z) (hl : z.nearestLayer? = some l)
    (hrefuses : RefusesText l) (hallowed : ∀ k ∈ Ancestor.nearestKind? as, k.entry.holdsText) :
    SuppliedBy events l ∨ Outlasts as z l := by
  rcases List.find?_eq_some_iff_append.mp hl with ⟨hknown, inside, outside, hshells, hinside⟩
  have hmem : l ∈ z.shells := by simp [hshells]
  refine (h.origin l hmem hrefuses).imp_right ?_
  rintro ⟨a, ha, hnumber, htag⟩
  rcases List.append_of_mem ha with ⟨nearer, outer, rfl⟩
  refine ⟨nearer, a, outer, rfl, hnumber, htag, ?_, ?_⟩
  . intro hnone
    rcases hrefuses with ⟨w, hw, hholds⟩
    have hnearest : Ancestor.nearestKind? (nearer ++ a :: outer) = some w := by
      unfold Ancestor.nearestKind? at hnone ⊢
      rw [List.findSome?_append, hnone, Option.none_or, List.findSome?_cons, htag, hw]
      rfl
    have hallowed := hallowed w hnearest
    rw [ElementKind.entry_holdsText, hholds] at hallowed
    cases hallowed
  . intro b hb hbknown m hm hmnumber hmtag
    have hyounger : a.number < b.number := (List.pairwise_append.mp h.nested).2.2 b hb a (by simp)
    rw [hshells, List.mem_append, List.mem_cons] at hm
    rcases hm with hm | rfl | hm
    . have hunknown := hinside m hm
      rw [hmtag, hbknown] at hunknown
      cases hunknown
    . omega
    -- The layer stands inside of one that was opened later, which no step leads to.
    . have hwithin := h.within b (by simp [hb])
      unfold Within at hwithin
      rw [hshells, List.pairwise_append, List.pairwise_cons] at hwithin
      have := hwithin.2.1.1 m hm hmnumber hmtag
      omega

theorem mem_cleaned_of_kept? {before : List SourceEvent} {content : String}
    (h : (run o 0 {} before).kept? o e = some content) (after : List SourceEvent) :
    .text content ∈ (cleaned o (before ++ e :: after)).events := by
  rw [← Event.mem_texts, texts_cleaned, run_append, run]
  rcases texts_run (o := o) (0 + before.length + 1) ((run o 0 {} before).step o (0 + before.length) e) after with
    ⟨more, htexts, -⟩
  rw [htexts, texts_step, h]
  simp

theorem kind_of_refuses {w : ElementKind} (hconcrete : w.isConcrete) (hrefuses : w.model.holdsText = false)
    (hhr : w ≠ .hr) (hbr : w ≠ .br) : w ∈ [.ul, .ol, .dl, .table, .tr] := by
  revert hconcrete hrefuses hhr hbr
  cases w <;> decide

theorem kind_of_nearestLayer? {bare : Prop} {l : Layer .standard} {w : ElementKind} (hsound : z.Sound o bare)
    (hl : l ∈ z.shells) (hw : l.name = .known w) (hrefuses : w.model.holdsText = false)
    (horigin : SuppliedBy events l ∨ Outlasts as z l) : w ∈ [.ul, .ol, .dl, .table, .tr] := by
  rcases horigin with ⟨_, _, k, -, -, v, hv, hname⟩ | ⟨_, a, _, -, -, htag, -⟩
  . cases hw.symm.trans hname
    have hkinds : ∀ w ∈ suppliedAround k, w ∈ [.ul, .ol, .dl, .table, .tr] := by
      cases k <;> decide
    exact hkinds w hv
  . have hne := hsound.name_ne l hl
    rw [hw] at htag hne
    apply kind_of_refuses (isConcrete_of_canonicalName htag) hrefuses
    . rintro rfl
      exact hne.1 rfl
    . rintro rfl
      exact hne.2 rfl

/-- A text that the source lets stand where it comes is emitted, unless the innermost known layer is a list, a
definition list, a table or a row that was supplied for an element in front of the text, or that outlasts what is
open of the elements around the text. -/
theorem admitted_text_kept_or_refused (o : CleaningOptions) (name : String) (attributes : List Attribute)
    (children : List Node) (before after : List SourceEvent) (content admitted : String)
    (hevents : SourceEvent.ofNodes children = before ++ .text content :: after)
    (hadmitted : o.admitText? content = some admitted)
    (hallowed : ∀ k ∈ Ancestor.nearestKind? (SourceEvent.ancestors before), k.entry.holdsText) :
    let z := run o 0 {} before
    ∃ cleaned, Cleaner.clean ⟨.standard, o⟩ (.element name attributes children) = .ok cleaned
      ∧ ({} : Draft).run? ⟨.standard, o⟩ before = some z.draft
      ∧ (.text admitted ∈ cleaned
        ∨ z.draft.step? ⟨.standard, o⟩ (.text content) = some z.draft
          ∧ ∃ l w, z.nearestLayer? = some l ∧ l.name = .known w ∧ w ∈ [.ul, .ol, .dl, .table, .tr]
            ∧ (SuppliedBy before l ∨ Outlasts (SourceEvent.ancestors before) z l)) := by
  intro z
  have hsound : z.Sound o True := sound_empty.run 0 before fun _ _ _ => trivial
  refine ⟨_, clean_eq o name attributes children, Draft.run?_draft 0 before sound_empty, ?_⟩
  rw [hevents]
  by_cases hallows : z.allowsText
  . left
    apply mem_cleaned_of_kept?
    unfold kept?
    rw [if_pos hallows]
    exact hadmitted
  . right
    have hallows : z.allowsText = false := by simpa using hallows
    constructor
    . rw [Draft.step?_draft 0 (.text content) hsound]
      simp only [step, hadmitted]
      rw [text_of_not_allowsText 0 admitted hallows]
    . have hrefused : ∃ w, z.nearest = some w ∧ w.model.holdsText = false := by
        unfold allowsText at hallows
        simpa [Option.all_eq_false] using hallows
      rcases hrefused with ⟨w, hnearest, hholds⟩
      rcases exists_nearestLayer? hnearest with ⟨l, hl, hw⟩
      have hmatched : SourceEvent.Matched [] before := by
        have hall := SourceEvent.matched_ofNodes children
        rw [hevents] at hall
        exact hall.of_append
      have htraced : Traced before (0 + before.length) (SourceEvent.ancestors before) z :=
        (traced_empty before).run (fun i e' hi => by rwa [Nat.zero_add]) hmatched
      have horigin := htraced.outlasts hl ⟨w, hw, hholds⟩ hallowed
      exact ⟨l, w, hl, hw, kind_of_nearestLayer? hsound (List.mem_of_find?_eq_some hl) hw hholds horigin, horigin⟩

theorem bold_text_in_item_kept :
    let list : Node := .element "ul" [] [.element "li" [] [.text "a", .element "b" [] [.text "c"]]]
    let before : List SourceEvent := [.enter "ul" [], .enter "li" [], .text "a", .enter "b" []]
    SourceEvent.ofNodes [list] = before ++ .text "c" :: [.leave "b", .leave "li", .leave "ul"]
      ∧ (∀ k ∈ Ancestor.nearestKind? (SourceEvent.ancestors before), k.entry.holdsText)
      ∧ ∃ cleaned, Cleaner.clean ⟨.standard, {}⟩ (Node.fragment [list]) = .ok cleaned ∧ .text "c" ∈ cleaned := by
  intro list before
  have hevents : SourceEvent.ofNodes [list] = before ++ .text "c" :: [.leave "b", .leave "li", .leave "ul"] := by
    rw [SourceEvent.ofNodes_eq]
    rfl
  have hallowed : ∀ k ∈ Ancestor.nearestKind? (SourceEvent.ancestors before), k.entry.holdsText := by
    decide +kernel
  refine ⟨hevents, hallowed, ?_⟩
  rcases admitted_text_kept_or_refused {} Node.fragmentTag [] [list] before _ "c" "c" hevents (by decide +kernel)
    hallowed with ⟨cleaned, hclean, -, hkept | ⟨hunchanged, -⟩⟩
  . exact ⟨cleaned, hclean, hkept⟩
  . exact absurd hunchanged (by decide +kernel)

/-- A list that was supplied for a stray item is still open behind it, and a list that an item stands in is what
is left open behind an item in that item; both refuse text that could stand there in the source. -/
theorem text_refused_behind_items :
    let o : CleaningOptions := {}
    let stray : List Node := [.element "li" [] [.text "x"], .text "y"]
    let nested : List Node :=
      [.element "ul" [] [.element "li" [] [.text "a", .element "li" [] [.text "b"], .text "c"]]]
    let beforeStray : List SourceEvent := [.enter "li" [], .text "x", .leave "li"]
    let beforeNested : List SourceEvent :=
      [.enter "ul" [], .enter "li" [], .text "a", .enter "li" [], .text "b", .leave "li"]
    (SourceEvent.ofNodes stray = beforeStray ++ [.text "y"]
        ∧ o.admitText? "y" = some "y"
        ∧ SourceEvent.ancestors beforeStray = []
        ∧ Cleaner.clean ⟨.standard, o⟩ (Node.fragment stray)
          = .ok [.startTag .ul [], .startTag .li [⟨"list", "disc"⟩], .text "x", .endTag .li, .endTag .ul])
      ∧ SourceEvent.ofNodes nested = beforeNested ++ .text "c" :: [.leave "li", .leave "ul"]
        ∧ o.admitText? "c" = some "c"
        ∧ SourceEvent.ancestors beforeNested = [⟨1, "li"⟩, ⟨0, "ul"⟩]
        ∧ ElementKind.li.entry.keeps [] ∧ ElementKind.ul.entry.keeps [] ∧ ElementKind.li.entry.holdsText
        ∧ Cleaner.clean ⟨.standard, o⟩ (Node.fragment nested)
          = .ok [.startTag .ul [], .startTag .li [⟨"list", "disc"⟩], .text "a", .endTag .li,
              .startTag .li [⟨"list", "disc"⟩], .text "b", .endTag .li, .endTag .ul] := by
  unfold Node.fragment
  simp only [clean_eq, SourceEvent.ofNodes_eq, Except.ok.injEq]
  refine ⟨⟨rfl, ?_, rfl, ?_⟩, rfl, ?_, rfl, rfl, rfl, rfl, ?_⟩ <;> decide +kernel

end Outline

end NoteMarkup
