import NoteMarkup.Proofs.Ancestry
import NoteMarkup.Proofs.Stripping

/-!
This module contains the layers that the elements around a place have of their own, next to the inline layers that
are open there. As long as no element has a style that stands for its own kind, an end tag of an inline element finds
the layer of just this element.
-/

namespace NoteMarkup

def TagName.isLight (name : TagName) : Bool :=
  name.kind?.all (·.isInline)

theorem TagName.isLight_of_isInline {name : TagName} (h : name.isInline) : name.isLight := by
  cases name with
  | known k => exact h
  | unknown raw => rfl

theorem ElementKind.admits_of_isInline {w : ElementKind} (h : w.isInline) (k : ElementKind) :
    w.model.admits k = k.isInline := by
  rw [model_of_isInline h]
  rfl

def SourceEvent.linksUsably : SourceEvent → Bool
  | enter name source =>
    Grammar.standard.canonicalName (.ofName name) != .known .a
      || ((Attribute.lookup? source "href").bind Href.usable?).isSome
  | leave _ | text _ => true

def SourceEvent.stylesOthers : SourceEvent → Bool
  | enter name source =>
    match Grammar.standard.canonicalName (.ofName name) with
    | .known k => (k.entry.counterparts source).all (·.kind != k)
    | .unknown _ => true
  | leave _ | text _ => true

namespace SourceEvent

variable {name : String} {source : List Attribute}

theorem keeps_of_linksUsably (h : (enter name source).linksUsably)
    (hname : Grammar.standard.canonicalName (.ofName name) = .known .a) : ElementKind.a.entry.keeps source := by
  simpa [linksUsably, hname, Entry.keeps, ElementKind.requirements, Requirement.isMet] using h

theorem ne_of_stylesOthers (h : (enter name source).stylesOthers) {k : ElementKind}
    (hname : Grammar.standard.canonicalName (.ofName name) = .known k) :
    ∀ s ∈ k.entry.counterparts source, s.kind ≠ k := by
  simpa [stylesOthers, hname] using h

end SourceEvent

namespace Outline

section Stacked

variable {ls : List (Layer .standard)}

theorem Stacked.isInline_nearestOf (h : Stacked ls) {l : Layer .standard} (hmem : l ∈ ls) (hl : l.name.isInline) :
    ∃ w ∈ nearestOf ls, w.isInline := by
  cases hname : l.name with
  | unknown raw =>
    rw [hname] at hl
    cases hl
  | known k =>
    rw [hname] at hl
    have hopen : ls.any (·.name == .known k) := List.any_eq_true.mpr ⟨l, hmem, by simp [hname]⟩
    rcases h.isInline_frameOf hopen hl with ⟨w, hw, hwinline⟩
    rcases h.nearestOf_eq_or with heq | ⟨hnearest, -⟩
    . exact ⟨w, heq ▸ hw, hwinline⟩
    . exact hnearest

theorem Stacked.pairwise_isLight (h : Stacked ls) :
    ls.Pairwise fun inner outer => outer.name.isInline → inner.name.isLight := by
  induction ls with
  | nil => exact .nil
  | cons l ls ih =>
    refine List.pairwise_cons.mpr ⟨?_, ih h.tail⟩
    intro outer hmem houter
    rcases h.isInline_nearestOf (List.mem_cons_of_mem l hmem) houter with ⟨w, hw, hwinline⟩
    unfold TagName.isLight
    cases hkind : l.name.kind? with
    | none => rfl
    | some k =>
      have : k = w := by simpa [nearestOf, hkind] using hw
      simpa [this] using hwinline

theorem Stacked.obstaclesOf_eq_zero {k : ElementKind} (h : Stacked ls) {l : Layer .standard}
    (hmem : l ∈ ls.drop (obstaclesOf k ls)) (hl : l.name.isInline) : obstaclesOf k ls = 0 := by
  have hk : k.isInline := by
    have hadmits := nearestOf_drop_obstaclesOf k ls
    rcases (h.drop _).isInline_nearestOf hmem hl with ⟨w, hw, hwinline⟩
    rwa [Option.mem_def.mp hw, Option.all_some, ElementKind.admits_of_isInline hwinline] at hadmits
  rcases h.isInline_nearestOf (List.mem_of_mem_drop hmem) hl with ⟨w, hw, hwinline⟩
  apply Outline.obstaclesOf_eq_zero
  rwa [Option.mem_def.mp hw, Option.all_some, ElementKind.admits_of_isInline hwinline]

end Stacked

def HasOwn (a : Ancestor) (ls : List (Layer .standard)) : Prop :=
  ∃ l ∈ ls, l.since = a.number ∧ l.name = a.tag

/-- The inline layers that are open next to the elements around the place. Each was opened by one of the elements,
whose own layer is open too; an element that can stand in an inline one has its own layer, unless all that is inline
and open is younger; and what is inline and stands around an element's own layer is older. -/
structure Owned (as : List Ancestor) (ls : List (Layer .standard)) : Prop where
  sourced : ∀ l ∈ ls, l.name.isInline → ∃ a ∈ as, a.number = l.since ∧ a.tag.kind?.isSome ∧ HasOwn a ls
  standing : ∀ a ∈ as, a.tag.isLight → HasOwn a ls ∨ ∀ l ∈ ls, l.name.isInline → a.number < l.since
  outside : ∀ a ∈ as, ls.Pairwise fun inner outer =>
    inner.since = a.number → inner.name = a.tag → inner.name.isInline → outer.name.isInline → outer.since < a.number

variable {as : List Ancestor} {ls ms : List (Layer .standard)} {now : Nat}

theorem HasOwn.mono {a : Ancestor} (h : HasOwn a ls) (hsub : ls ⊆ ms) : HasOwn a ms := by
  rcases h with ⟨l, hmem, hown⟩
  exact ⟨l, hsub hmem, hown⟩

theorem owned_nil : Owned [] [] :=
  ⟨by simp, by simp, by simp⟩

theorem owned_of_not_isInline (h : ∀ l ∈ ls, l.name.isInline = false) : Owned as ls where
  sourced := by
    intro l hmem hl
    rw [h l hmem] at hl
    cases hl
  standing := by
    intro a _ _
    right
    intro l hmem hl
    rw [h l hmem] at hl
    cases hl
  outside := by
    intro a _
    apply List.pairwise_of_forall_mem_list
    intro inner hinner _ _ _ _ hl
    rw [h inner hinner] at hl
    cases hl

theorem Owned.insert {l : Layer .standard} (h : Owned as (ls ++ ms)) (hl : l.name.isInline = false)
    (hyounger : ∀ a ∈ as, a.number < l.since) : Owned as (ls ++ l :: ms) := by
  have hsub : ls ++ ms ⊆ ls ++ l :: ms := by
    intro m hmem
    simp only [List.mem_append, List.mem_cons] at hmem ⊢
    rcases hmem with hmem | hmem
    . exact .inl hmem
    . exact .inr (.inr hmem)
  have hinline : ∀ m ∈ ls ++ l :: ms, m.name.isInline → m ∈ ls ++ ms := by
    intro m hmem hm
    simp only [List.mem_append, List.mem_cons] at hmem ⊢
    rcases hmem with hmem | rfl | hmem
    . exact .inl hmem
    . rw [hl] at hm
      cases hm
    . exact .inr hmem
  refine ⟨?_, ?_, ?_⟩
  . intro m hmem hm
    rcases h.sourced m (hinline m hmem hm) hm with ⟨a, ha, hnumber, hkind, hown⟩
    exact ⟨a, ha, hnumber, hkind, hown.mono hsub⟩
  . intro a ha hlight
    rcases h.standing a ha hlight with hown | hyounger
    . exact .inl (hown.mono hsub)
    . exact .inr fun m hmem hm => hyounger m (hinline m hmem hm) hm
  . intro a ha
    have houtside := h.outside a ha
    rw [List.pairwise_append] at houtside ⊢
    rcases houtside with ⟨hls, hms, hacross⟩
    refine ⟨hls, List.pairwise_cons.mpr ⟨?_, hms⟩, ?_⟩
    . intro outer _ hsince
      have := hyounger a ha
      omega
    . intro inner hinner outer houter
      rw [List.mem_cons] at houter
      rcases houter with rfl | houter
      . intro _ _ _ houterInline
        rw [hl] at houterInline
        cases houterInline
      . exact hacross inner hinner outer houter

theorem Owned.insertAll {around : List (Layer .standard)} (h : Owned as ls)
    (haround : ∀ l ∈ around, l.name.isInline = false ∧ ∀ a ∈ as, a.number < l.since) : Owned as (around ++ ls) := by
  induction around with
  | nil => exact h
  | cons l around ih =>
    rw [List.forall_mem_cons] at haround
    have hrest : Owned as ([] ++ (around ++ ls)) := ih haround.2
    exact hrest.insert haround.1.1 haround.1.2

variable {name : String}

theorem Owned.pass (h : Owned as ls) (hopened : ∀ l ∈ ls, l.name.isInline → l.since < now)
    (htag : (Ancestor.mk now name).tag.isLight = false) : Owned (⟨now, name⟩ :: as) ls where
  sourced := by
    intro l hmem hl
    rcases h.sourced l hmem hl with ⟨a, ha, hown⟩
    exact ⟨a, List.mem_cons_of_mem _ ha, hown⟩
  standing := by
    intro a ha hlight
    rw [List.mem_cons] at ha
    rcases ha with rfl | ha
    . rw [htag] at hlight
      cases hlight
    . exact h.standing a ha hlight
  outside := by
    intro a ha
    rw [List.mem_cons] at ha
    rcases ha with rfl | ha
    . apply List.pairwise_of_forall_mem_list
      intro inner hinner _ _ hsince _ hinline
      have := hopened inner hinner hinline
      dsimp only at hsince
      omega
    . exact h.outside a ha

theorem Owned.enter {styled : List (Layer .standard)} {own : Layer .standard} (h : Owned as ls)
    (hopened : ∀ l ∈ ls, l.name.isInline → l.since < now) (hentered : ∀ a ∈ as, a.number < now)
    (hown : own.since = now) (hname : own.name = (Ancestor.mk now name).tag)
    (hstyled : ∀ l ∈ styled, l.since = now ∧ l.name ≠ own.name ∧ own.name.kind?.isSome) :
    Owned (⟨now, name⟩ :: as) (styled ++ own :: ls) := by
  have hsub : ls ⊆ styled ++ own :: ls := by
    intro l hmem
    simp [hmem]
  have hhasOwn : HasOwn ⟨now, name⟩ (styled ++ own :: ls) := ⟨own, by simp, hown, hname⟩
  have hcases : ∀ l ∈ styled ++ own :: ls, l ∈ ls ∨ l.since = now := by
    intro l hmem
    simp only [List.mem_append, List.mem_cons] at hmem
    rcases hmem with hmem | rfl | hmem
    . exact .inr (hstyled l hmem).1
    . exact .inr hown
    . exact .inl hmem
  refine ⟨?_, ?_, ?_⟩
  . intro l hmem hl
    have hkind : l ∈ ls ∨ (l.since = now ∧ own.name.kind?.isSome) := by
      simp only [List.mem_append, List.mem_cons] at hmem
      rcases hmem with hmem | rfl | hmem
      . exact .inr ⟨(hstyled l hmem).1, (hstyled l hmem).2.2⟩
      . refine .inr ⟨hown, ?_⟩
        exact Option.isSome_of_any hl
      . exact .inl hmem
    rcases hkind with hmem | ⟨hsince, hkind⟩
    . rcases h.sourced l hmem hl with ⟨a, ha, hnumber, hkind, ha'⟩
      exact ⟨a, List.mem_cons_of_mem _ ha, hnumber, hkind, ha'.mono hsub⟩
    . exact ⟨⟨now, name⟩, by simp, hsince.symm, hname ▸ hkind, hhasOwn⟩
  . intro a ha hlight
    rw [List.mem_cons] at ha
    rcases ha with rfl | ha
    . exact .inl hhasOwn
    . rcases h.standing a ha hlight with hown | hyounger
      . exact .inl (hown.mono hsub)
      . right
        intro l hmem hl
        rcases hcases l hmem with hmem | hsince
        . exact hyounger l hmem hl
        . have := hentered a ha
          omega
  . intro a ha
    rw [List.mem_cons] at ha
    rcases ha with rfl | ha
    -- Of the layers the element opens only its own has its name, and what is around this one is older.
    . rw [List.pairwise_append, List.pairwise_cons]
      refine ⟨?_, ⟨?_, ?_⟩, ?_⟩
      . apply List.pairwise_of_forall_mem_list
        intro inner hinner _ _ _ hinnerName
        exact absurd (hinnerName.trans hname.symm) (hstyled inner hinner).2.1
      . intro outer houter _ _ _ houterInline
        exact hopened outer houter houterInline
      . apply List.pairwise_of_forall_mem_list
        intro inner hinner _ _ hsince _ hinline
        have := hopened inner hinner hinline
        dsimp only at hsince
        omega
      . intro inner hinner _ _ _ hinnerName
        exact absurd (hinnerName.trans hname.symm) (hstyled inner hinner).2.1
    . have hnumber := hentered a ha
      rw [List.pairwise_append, List.pairwise_cons]
      refine ⟨?_, ⟨?_, h.outside a ha⟩, ?_⟩
      . apply List.pairwise_of_forall_mem_list
        intro inner hinner _ _ hsince
        have := (hstyled inner hinner).1
        omega
      . intro _ _ hsince
        omega
      . intro inner hinner _ _ hsince
        have := (hstyled inner hinner).1
        omega

theorem Owned.drop (h : Owned as ls) {n : Nat}
    (hn : n = 0 ∨ ∀ l ∈ ls.drop n, l.name.isInline = false) : Owned as (ls.drop n) := by
  rcases hn with rfl | hn
  . exact h
  . exact owned_of_not_isInline hn

variable {o : CleaningOptions} {bare : Prop} {z : Outline .standard}

theorem eq_p_of_drops {k : ElementKind} (h : z.drops k) : k = .p := by
  unfold drops at h
  rcases (Option.any_eq_true _ _).mp h with ⟨parent, -, hdrops⟩
  rw [ElementKind.entry_drops] at hdrops
  simp only [Bool.and_eq_true, beq_iff_eq] at hdrops
  exact hdrops.2.1

theorem Owned.endLine (h : Owned as z.shells) (hpast : ∀ l ∈ z.shells, l.name.isInline → l.since < now)
    (hentered : ∀ a ∈ as, a.number < now) :
    Owned as (z.endLine now).shells ∧ ∀ l ∈ (z.endLine now).shells, l.name.isInline → l.since < now := by
  rcases endLine_cases now z with hsame | ⟨n, hbegun⟩
  . rw [hsame]
    exact ⟨h, hpast⟩
  . rw [hbegun]
    constructor
    . rw [← List.take_append_drop n z.shells] at h
      exact h.insert rfl hentered
    . intro l hmem hl
      simp only [List.mem_append, List.mem_cons] at hmem
      rcases hmem with hmem | rfl | hmem
      . exact hpast l (List.mem_of_mem_take hmem) hl
      . cases hl
      . exact hpast l (List.mem_of_mem_drop hmem) hl

theorem Owned.prepare (h : Owned as z.shells) (hstacked : Stacked z.shells)
    (hpast : ∀ l ∈ z.shells, l.name.isInline → l.since < now) (hentered : ∀ a ∈ as, a.number < now)
    (k : ElementKind) :
    Owned as (z.prepare k now).shells ∧ ∀ l ∈ (z.prepare k now).shells, l.name.isInline → l.since < now := by
  rcases prepare_shells now k z with ⟨around, hprepare, hnow, haround, -⟩
  have hplain : ∀ l ∈ around, l.name.isInline = false := by
    intro l hmem
    rcases haround l hmem with ⟨w, hw, hmissing⟩
    rw [hw]
    exact not_isInline_of_mem_missingAround hmissing
  have hclear : Owned as (z.shells.drop (obstaclesOf k z.shells)) := by
    apply h.drop
    by_cases hleft : ∃ l ∈ z.shells.drop (obstaclesOf k z.shells), l.name.isInline
    . rcases hleft with ⟨l, hmem, hl⟩
      exact .inl (hstacked.obstaclesOf_eq_zero hmem hl)
    . right
      intro l hmem
      rw [Bool.eq_false_iff]
      exact fun hl => hleft ⟨l, hmem, hl⟩
  rw [hprepare]
  constructor
  . apply hclear.insertAll
    intro l hmem
    refine ⟨hplain l hmem, ?_⟩
    rw [hnow l hmem]
    exact hentered
  . intro l hmem hl
    rw [List.mem_append] at hmem
    rcases hmem with hmem | hmem
    . rw [hplain l hmem] at hl
      cases hl
    . exact hpast l (List.mem_of_mem_drop hmem) hl

theorem Owned.step_enter {source : List Attribute} (h : Owned as z.shells) (hstacked : Stacked z.shells)
    (hopened : ∀ l ∈ z.shells, l.since < now) (hentered : ∀ a ∈ as, a.number < now)
    (hlink : (SourceEvent.enter name source).linksUsably) (hstyles : (SourceEvent.enter name source).stylesOthers) :
    Owned (⟨now, name⟩ :: as) (z.step o now (.enter name source)).shells := by
  have hpast : ∀ l ∈ z.shells, l.name.isInline → l.since < now := fun l hmem _ => hopened l hmem
  simp only [step]
  unfold Outline.enter
  split
  . next raw hraw =>
    have hopen : Owned _ ([] ++ .silent (.unknown raw) now .nil :: z.shells) :=
      h.enter hpast hentered rfl hraw.symm (by simp)
    exact hopen
  . next k hk =>
    have htag : (Ancestor.mk now name).tag = .known k := hk
    have hlight : (Ancestor.mk now name).tag.isLight = k.isInline := by
      rw [htag]
      rfl
    -- What is not opened, as well as what stands alone, is not inline.
    split
    . next hkeeps =>
      apply h.pass hpast
      rw [hlight]
      by_cases ha : k = .a
      . subst ha
        simp [SourceEvent.keeps_of_linksUsably hlink hk] at hkeeps
      . by_cases hli : k = .li
        . rw [hli]
          rfl
        . simp [ElementKind.entry_keeps ha hli] at hkeeps
    . split
      . next hbr =>
        rcases h.endLine hpast hentered with ⟨hended, hpast⟩
        apply hended.pass hpast
        rw [hlight, hbr]
        rfl
      . split
        . next hdrops =>
          apply h.pass hpast
          rw [hlight, eq_p_of_drops hdrops]
          rfl
        . rcases h.prepare hstacked hpast hentered k with ⟨hprepared, hpast⟩
          by_cases hhr : k = .hr
          . have hshells : ((z.prepare k now).openHere o k source now).shells = (z.prepare k now).shells := by
              simp [openHere, hhr]
            rw [hshells]
            apply hprepared.pass hpast
            rw [hlight, hhr]
            rfl
          . rcases openHere_shells (o := o) now hhr source (z.prepare k now) with
              ⟨styled, own, hshells, hown, hownName, hstyled⟩
            rw [hshells]
            apply hprepared.enter hpast hentered hown (hownName.trans hk.symm)
            intro l hmem
            rcases hstyled l hmem with ⟨hsince, s, hs, hlname⟩
            refine ⟨hsince, ?_, by simp [hownName, TagName.kind?]⟩
            rw [hlname, hownName]
            simpa using SourceEvent.ne_of_stylesOthers hstyles hk s hs

theorem Owned.step_text (h : Owned as z.shells) (hentered : ∀ a ∈ as, a.number < now) (content : String) :
    Owned as (z.step o now (.text content)).shells := by
  rcases step_text_shells (o := o) now content z with hsame | hplain
  . rwa [hsame]
  . have hrest : Owned as ([] ++ z.shells) := h
    rw [hplain]
    exact hrest.insert rfl hentered

section Leave

variable {events : List SourceEvent} {a : Ancestor}

theorem exists_of_mem_reach {name : TagName} {l : Layer .standard} (h : l ∈ reach name ls) :
    ∃ m ∈ ls, m.name = name := by
  unfold reach at h
  cases hfind : ls.findIdx? (·.name == name) with
  | none =>
    rw [hfind] at h
    cases h
  | some i =>
    rcases List.findIdx?_eq_some_iff_getElem.mp hfind with ⟨hlength, hi, -⟩
    exact ⟨ls[i], List.getElem_mem hlength, by simpa using hi⟩

theorem Stacked.isLight_of_mem_reach (h : Stacked z.shells) {name : TagName} {l r : Layer .standard}
    (hl : l ∈ reach name z.shells) (hr : r ∈ (z.leave name).shells) (hrinline : r.name.isInline) : name.isLight := by
  rcases exists_mem_reach (exists_of_mem_reach hl) with ⟨m, hm, rfl⟩
  have hlight := h.pairwise_isLight
  rw [← reach_append_leave m.name z, List.pairwise_append] at hlight
  exact hlight.2.2 m hm r hr hrinline

theorem Owned.since_le (h : Owned (a :: as) ls) (hnested : ∀ b ∈ as, b.number < a.number) :
    ∀ l ∈ ls, l.name.isInline → l.since ≤ a.number := by
  intro l hmem hl
  rcases h.sourced l hmem hl with ⟨b, hb, hnumber, -⟩
  rw [List.mem_cons] at hb
  rcases hb with rfl | hb
  . omega
  . have := hnested b hb
    omega

theorem Owned.since_of_mem_reach (h : Owned (a :: as) z.shells) (hwithin : Within a.number a.tag z.shells)
    (hnested : ∀ b ∈ as, b.number < a.number) (hinline : a.tag.isInline) :
    ∀ l ∈ reach a.tag z.shells, l.name = a.tag → l.since = a.number := by
  intro l hmem hname
  have hsub : l ∈ z.shells := by
    rw [← reach_append_leave a.tag z]
    exact List.mem_append_left _ hmem
  have hl : l.name.isInline := hname ▸ hinline
  have hle := h.since_le hnested l hsub hl
  rcases h.standing a (by simp) (TagName.isLight_of_isInline hinline) with hown | hyounger
  . have := Outline.since_of_mem_reach hwithin hown l hmem
    omega
  . have := hyounger l hsub hl
    omega

theorem Owned.leave (h : Owned (a :: as) z.shells) (hstacked : Stacked z.shells)
    (hwithin : Within a.number a.tag z.shells) (hnested : ∀ b ∈ as, b.number < a.number) :
    Owned as (z.leave a.tag).shells := by
  have hshells := reach_append_leave a.tag z
  have hsub : (z.leave a.tag).shells ⊆ z.shells := by
    rw [← hshells]
    exact List.subset_append_right _ _
  by_cases hleft : ∃ r ∈ (z.leave a.tag).shells, r.name.isInline
  . rcases hleft with ⟨r, hr, hrinline⟩
    -- Something inline is left open, so that nothing older than the element is closed.
    have hreach : ∀ l ∈ reach a.tag z.shells, a.number ≤ l.since := by
      intro l hl
      rcases h.standing a (by simp) (hstacked.isLight_of_mem_reach hl hr hrinline) with hown | hyounger
      . exact Outline.since_of_mem_reach hwithin hown l hl
      . have := hyounger r (hsub hr) hrinline
        have := h.since_le hnested r (hsub hr) hrinline
        omega
    have hkept : ∀ b ∈ as, HasOwn b z.shells → HasOwn b (z.leave a.tag).shells := by
      rintro b hb ⟨m, hm, hnumber, hname⟩
      rw [← hshells, List.mem_append] at hm
      rcases hm with hm | hm
      . have := hreach m hm
        have := hnested b hb
        omega
      . exact ⟨m, hm, hnumber, hname⟩
    refine ⟨?_, ?_, ?_⟩
    . intro l hmem hl
      rcases h.sourced l (hsub hmem) hl with ⟨b, hb, hnumber, hkind, hown⟩
      rw [List.mem_cons] at hb
      rcases hb with rfl | hb
      -- Around the layer that the end tag closes for its element, nothing inline is left of the element.
      . rcases hown with ⟨m, hm, -, hmname⟩
        rcases exists_mem_reach ⟨m, hm, hmname⟩ with ⟨f, hf, hfname⟩
        have hlight := hstacked.isLight_of_mem_reach hf hr hrinline
        have hinline : b.tag.isInline := by
          rcases Option.isSome_iff_exists.mp hkind with ⟨k, hk⟩
          simpa [TagName.isInline, TagName.isLight, hk] using hlight
        have hsince := h.since_of_mem_reach hwithin hnested hinline f hf hfname
        have houtside := h.outside b (by simp)
        rw [← hshells, List.pairwise_append] at houtside
        have := houtside.2.2 f hf l hmem hsince hfname (hfname ▸ hinline) hl
        omega
      . exact ⟨b, hb, hnumber, hkind, hkept b hb hown⟩
    . intro b hb hlight
      rcases h.standing b (List.mem_cons_of_mem a hb) hlight with hown | hyounger
      . exact .inl (hkept b hb hown)
      . exact .inr fun l hmem hl => hyounger l (hsub hmem) hl
    . intro b hb
      have houtside := h.outside b (List.mem_cons_of_mem a hb)
      rw [← hshells, List.pairwise_append] at houtside
      exact houtside.2.1
  . apply owned_of_not_isInline
    intro l hmem
    rw [Bool.eq_false_iff]
    exact fun hl => hleft ⟨l, hmem, hl⟩

end Leave

end Outline

end NoteMarkup
