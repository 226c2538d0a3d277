import NoteMarkup.Proofs.Repetition
import NoteMarkup.Proofs.WellFormed

/-!
This module contains documents in which no inline element stands in another one of its kind, and what becomes of a
document if inline elements that are open already are passed through: no inline element of it is repeated, and the
tags of all other elements stay as they were.
-/

namespace NoteMarkup

def Event.Unrepeated (events : List Event) : Prop :=
  ∀ before kind attributes behind, events = before ++ .startTag kind attributes :: behind → kind.isInline →
    ∃ opened, before.foldlM nest? [] = some opened ∧ kind ∉ opened

namespace Content

def Unrepeated (around : List ElementKind) : Content → Prop
  | nil => True
  | element before kind _ held =>
    before.Unrepeated around ∧ (kind.isInline → kind ∉ around) ∧ held.Unrepeated (kind :: around)
  | standalone before _ _ => before.Unrepeated around
  | text before _ => before.Unrepeated around

variable {around outer : List ElementKind}

theorem unrepeated_append {a b : Content} :
    (a ++ b).Unrepeated around ↔ a.Unrepeated around ∧ b.Unrepeated around := by
  induction b with
  | nil => simp [Unrepeated]
  | element before kind attributes held ih => simp [Unrepeated, ih, and_assoc]
  | standalone before kind attributes ih => simp [Unrepeated, ih]
  | text before content ih => simp [Unrepeated, ih]

theorem Unrepeated.mono {content : Content} (h : content.Unrepeated around) (hsub : outer ⊆ around) :
    content.Unrepeated outer := by
  induction content generalizing around outer with
  | nil => trivial
  | element before kind attributes held ihbefore ihheld =>
    rcases h with ⟨hbefore, hkind, hheld⟩
    exact ⟨ihbefore hbefore hsub, fun hinline hmem => hkind hinline (hsub hmem),
      ihheld hheld (List.cons_subset_cons kind hsub)⟩
  | standalone before kind attributes ih => exact ih h hsub
  | text before content ih => exact ih h hsub

theorem exists_of_concat_eq {events before behind : List Event} {last first : Event} (hne : last ≠ first)
    (h : events ++ [last] = before ++ first :: behind) : ∃ rest, events = before ++ first :: rest := by
  rcases List.eq_nil_or_concat behind with rfl | ⟨rest, e, rfl⟩
  . rw [List.append_inj_right' h rfl |> List.singleton_inj.mp] at hne
    exact absurd rfl hne
  . refine ⟨rest, ?_⟩
    rw [List.concat_eq_append, ← List.cons_append, ← List.append_assoc] at h
    exact List.append_inj_left' h rfl

theorem Unrepeated.exists_opened {content : Content} (h : content.Unrepeated around) {before behind : List Event}
    {kind : ElementKind} {attributes : List Attribute}
    (hsplit : content.events = before ++ .startTag kind attributes :: behind) (hinline : kind.isInline) :
    ∃ opened, before.foldlM Event.nest? around = some opened ∧ kind ∉ opened := by
  induction content generalizing around before behind with
  | nil => simp [events] at hsplit
  | element first k as held ihfirst ihheld =>
    rcases h with ⟨hfirst, hk, hheld⟩
    have hown (hkind : k = kind) : ∃ opened, first.events.foldlM Event.nest? around = some opened ∧ kind ∉ opened :=
      ⟨around, foldlM_nest? first around, hkind ▸ hk (hkind ▸ hinline)⟩
    rw [Content.events, List.append_eq_append_iff] at hsplit
    rcases hsplit with ⟨rest, rfl, hsplit⟩ | ⟨rest, hfirstSplit, hsplit⟩
    -- The start tag is that of the element itself, or of one that it holds.
    . rcases rest with _ | ⟨e, rest⟩
      . rw [List.append_nil]
        exact hown (by simp_all)
      . rw [List.cons_append, List.cons.injEq] at hsplit
        rcases hsplit with ⟨rfl, hsplit⟩
        rcases exists_of_concat_eq (by simp) hsplit with ⟨behind, hbehind⟩
        rcases ihheld hheld hbehind with ⟨opened, hopened, hnot⟩
        refine ⟨opened, ?_, hnot⟩
        rw [List.foldlM_append, foldlM_nest?]
        simpa [Event.nest?] using hopened
    -- The start tag is that of the element itself, or of one before it.
    . rcases rest with _ | ⟨e, rest⟩
      . rw [List.append_nil] at hfirstSplit
        rw [← hfirstSplit]
        exact hown (by simp_all)
      . rw [List.cons_append, List.cons.injEq] at hsplit
        rcases hsplit with ⟨rfl, -⟩
        exact ihfirst hfirst hfirstSplit
  | standalone first k as ih =>
    rcases exists_of_concat_eq (by simp) hsplit with ⟨rest, hrest⟩
    exact ih h hrest
  | text first content ih =>
    rcases exists_of_concat_eq (by simp) hsplit with ⟨rest, hrest⟩
    exact ih h hrest

theorem Unrepeated.events {content : Content} (h : content.Unrepeated []) : Event.Unrepeated content.events :=
  fun _ _ _ _ hsplit hinline => h.exists_opened hsplit hinline

end Content

namespace Outline

def kindsOf (ls : List (Layer .standard)) : List ElementKind :=
  ls.filterMap (·.name.kind?)

end Outline

def Layer.Unrepeated (around : List ElementKind) : Layer .standard → Prop
  | .silent .. => True
  | .written tag _ _ => tag.entry.kind.isInline → tag.entry.kind ∉ around

namespace Outline

def LayersUnrepeated (ground : Content) : List (Layer .standard) → Prop
  | [] => ground.Unrepeated []
  | l :: ls => l.held.Unrepeated (kindsOf (l :: ls)) ∧ l.Unrepeated (kindsOf ls) ∧ LayersUnrepeated ground ls

def Unrepeated (z : Outline .standard) : Prop :=
  LayersUnrepeated z.ground z.layers

variable {z : Outline .standard} {o : CleaningOptions} {k : ElementKind} {now : Nat}

theorem kindsOf_emptied (ls : List (Layer .standard)) : kindsOf (ls.map Layer.emptied) = kindsOf ls := by
  simp [kindsOf, List.filterMap_map]

theorem kindsOf_append (ls ms : List (Layer .standard)) : kindsOf (ls ++ ms) = kindsOf ls ++ kindsOf ms := by
  simp [kindsOf]

theorem not_mem_kindsOf (h : z.hasOpen k = false) : k ∉ kindsOf z.layers := by
  rw [← kindsOf_emptied]
  intro hmem
  rcases List.mem_filterMap.mp hmem with ⟨l, hl, hkind⟩
  have hname : l.name = .known k := by
    cases hname : l.name <;> simp_all [TagName.kind?]
  have hopen : z.hasOpen k := List.any_eq_true.mpr ⟨l, hl, by simp [hname]⟩
  rw [h] at hopen
  cases hopen

namespace Unrepeated

theorem hold (h : z.Unrepeated) {more : Content} (hmore : more.Unrepeated (kindsOf z.layers)) :
    (z.hold more).Unrepeated := by
  unfold Unrepeated Outline.hold at *
  split
  . next hnil =>
    rw [hnil] at h hmore
    simp only [hnil]
    exact Content.unrepeated_append.mpr ⟨h, hmore⟩
  . next l ls hcons =>
    rw [hcons] at h hmore
    rcases h with ⟨hheld, hl, hrest⟩
    have hkinds : kindsOf (l.hold more :: ls) = kindsOf (l :: ls) := by cases l <;> rfl
    refine ⟨?_, ?_, hrest⟩
    . rw [hkinds, Layer.hold_held]
      exact Content.unrepeated_append.mpr ⟨hheld, hmore⟩
    . cases l <;> exact hl

theorem closeInnermost (h : z.Unrepeated) : z.closeInnermost.Unrepeated := by
  rcases z with ⟨ground, _ | ⟨l, ls⟩⟩
  . exact h
  . rcases h with ⟨hheld, hl, hrest⟩
    have hinner : Unrepeated { ground := ground, layers := ls } := hrest
    apply hinner.hold
    cases l with
    | silent name since held =>
      apply Content.Unrepeated.mono hheld
      exact (List.sublist_cons_self _ ls).filterMap _ |>.subset
    | written tag since held =>
      simp only [Layer.settled]
      split
      . split <;> trivial
      . exact ⟨trivial, hl, hheld⟩

theorem close (h : z.Unrepeated) (n : Nat) : (z.close n).Unrepeated := by
  induction n generalizing z with
  | zero => exact h
  | succ n ih => exact ih h.closeInnermost

theorem place (h : z.Unrepeated) (hk : k.isInline → z.hasOpen k = false) (attributes : List Attribute) (now : Nat) :
    (z.place k attributes now).Unrepeated := by
  refine ⟨trivial, ?_, h⟩
  intro hinline
  rw [tagOf_kind] at hinline ⊢
  exact not_mem_kindsOf (hk hinline)

theorem openSilently (h : z.Unrepeated) (name : TagName) (now : Nat) : (z.openSilently name now).Unrepeated :=
  ⟨trivial, trivial, h⟩

theorem putUp_line (h : z.Unrepeated) {y : Outline .standard} (hy : y.Unrepeated) (n : Nat)
    (hkinds : ∀ k ∈ kindsOf y.layers, k.isInline → k ∈ kindsOf (z.layers.drop n)) :
    (y.putUp (z.line n)).Unrepeated := by
  have hlayers : (y.putUp (z.line n)).layers = (z.layers.take n).map Layer.emptied ++ y.layers := by
    simp [putUp, line]
  have hground : (y.putUp (z.line n)).ground = y.ground := rfl
  unfold Unrepeated at h ⊢
  rw [hlayers, hground]
  rw [← List.take_append_drop n z.layers] at h
  generalize z.layers.take n = above at h ⊢
  induction above with
  | nil => exact hy
  | cons l above ih =>
    refine ⟨?_, ?_, ih h.2.2⟩
    . cases l <;> trivial
    . have hl := h.2.1
      cases l with
      | silent name since held => trivial
      | written tag since held =>
        intro hinline
        have hlower : tag.entry.kind ∉ kindsOf (above ++ z.layers.drop n) := hl hinline
        rw [kindsOf_append, List.mem_append] at hlower
        change tag.entry.kind ∉ kindsOf (above.map Layer.emptied ++ y.layers)
        rw [kindsOf_append, kindsOf_emptied, List.mem_append]
        exact fun hmem => hlower (hmem.imp_right fun hmem => hkinds _ hmem hinline)

theorem kindsOf_close (n : Nat) (z : Outline .standard) : kindsOf (z.close n).layers = kindsOf (z.layers.drop n) := by
  rw [← kindsOf_emptied, ← kindsOf_emptied (z.layers.drop n), List.map_drop]
  exact congrArg kindsOf (close_shells n z)

theorem endLine (h : z.Unrepeated) (now : Nat) : (z.endLine now).Unrepeated := by
  rcases endLine_eq now z with ⟨-, hends⟩ | hends | ⟨n, hends⟩ | ⟨inside, k, -, -, hends⟩
  . rw [hends]
    exact h.hold trivial
  . rw [hends]
    exact h
  . rw [hends]
    apply h.putUp_line (h.close n)
    intro k hmem _
    rwa [kindsOf_close] at hmem
  . rw [hends]
    apply h.putUp_line ((h.close inside).place (by simp [ElementKind.isInline]) [] now)
    intro k hmem hinline
    have hplain : kindsOf ((z.close inside).place .p [] now).layers = .p :: kindsOf (z.close inside).layers := by
      simp [kindsOf, Outline.place, openWritten, Layer.name, TagName.kind?, tagOf]
    rw [hplain, List.mem_cons, kindsOf_close] at hmem
    rcases hmem with rfl | hmem
    . cases hinline
    . exact hmem

theorem foldl_place (h : z.Unrepeated) {ks : List ElementKind} (hks : ∀ k ∈ ks, k.isInline = false) (now : Nat) :
    (ks.foldl (fun z k => z.place k [] now) z).Unrepeated := by
  induction ks generalizing z with
  | nil => exact h
  | cons k ks ih =>
    rw [List.forall_mem_cons] at hks
    have hplaced : (z.place k [] now).Unrepeated := h.place (fun hinline => absurd hinline (by simp [hks.1])) [] now
    exact ih hplaced hks.2

theorem prepare (h : z.Unrepeated) (k : ElementKind) (now : Nat) : (z.prepare k now).Unrepeated := by
  have hclear : (z.clear k).Unrepeated := h.close _
  rw [prepare_eq]
  split
  . exact hclear
  . exact hclear.foldl_place (fun _ => not_isInline_of_mem_missingAround) now

theorem openCounterpart (h : z.Unrepeated) (ho : o.dedupeInline) (now : Nat) (s : Style.Counterpart) :
    (z.openCounterpart o now s).Unrepeated := by
  unfold Outline.openCounterpart
  rw [ho, Bool.true_and]
  split
  . split
    . exact h.openSilently _ now
    . next hopen => exact h.place (fun _ => by simpa using hopen) _ now
  . exact h

theorem openHere (h : z.Unrepeated) (ho : o.dedupeInline) (k : ElementKind) (source : List Attribute) (now : Nat) :
    (z.openHere o k source now).Unrepeated := by
  unfold Outline.openHere
  rw [ho, Bool.true_and]
  dsimp only
  split
  . exact h.hold trivial
  . split
    . exact h.openSilently _ now
    . next hopen =>
      have hplace : (z.place k (k.entry.keptAttributes source z.nearest) now).Unrepeated := by
        apply h.place
        intro hinline
        simpa [hinline] using hopen
      generalize z.place k (k.entry.keptAttributes source z.nearest) now = y at hplace
      generalize k.entry.counterparts source = styles
      induction styles generalizing y with
      | nil => exact hplace
      | cons s styles ih => exact ih _ (hplace.openCounterpart ho now s)

theorem step (h : z.Unrepeated) (ho : o.dedupeInline) (now : Nat) (e : SourceEvent) :
    (z.step o now e).Unrepeated := by
  cases e with
  | enter name source =>
    simp only [Outline.step]
    unfold Outline.enter
    split
    . exact h.openSilently _ now
    . next k _ =>
      split
      . exact h
      . split
        . exact h.endLine now
        . split
          . exact h
          . exact (h.prepare k now).openHere ho k source now
  | leave name =>
    simp only [Outline.step]
    unfold leave
    split
    . exact h.close _
    . exact h
  | text content =>
    simp only [Outline.step]
    split
    . unfold text
      split
      . split
        . exact h.hold trivial
        . exact h
      . exact (h.place (by simp [ElementKind.isInline]) [] now).hold trivial
    . exact h

theorem run (h : z.Unrepeated) (ho : o.dedupeInline) (now : Nat) (events : List SourceEvent) :
    (z.run o now events).Unrepeated := by
  induction events generalizing now z with
  | nil => exact h
  | cons e events ih => exact ih (h.step ho now e) (now + 1)

end Unrepeated

theorem cleaned_unrepeated (ho : o.dedupeInline) (events : List SourceEvent) :
    (cleaned o events).Unrepeated [] := by
  have hempty : Unrepeated {} := trivial
  have hclosed := ((hempty.run ho 0 events).close (run o 0 {} events).layers.length)
  unfold Unrepeated at hclosed
  rw [close_length_layers] at hclosed
  exact hclosed

end Outline

namespace Cleaner

/-- Whether inline elements that are open already are passed through or written again, cleaning a source comes to
the same list of events without the tags of inline elements, as long as every link of the source has a usable target
and no element has a style that stands for an element of its own kind. If they are passed through, no inline element
stands in another one of its kind, whatever the source is. -/
theorem dedupe_touches_only_inline (o : CleaningOptions) (name : String) (attributes : List Attribute)
    (children : List Node) :
    ∃ kept deduped,
      clean ⟨.standard, { o with dedupeInline := false }⟩ (.element name attributes children) = .ok kept
        ∧ clean ⟨.standard, { o with dedupeInline := true }⟩ (.element name attributes children) = .ok deduped
        ∧ Event.Unrepeated deduped
        ∧ ((∀ e ∈ SourceEvent.ofNodes children, e.linksUsably ∧ e.stylesOthers) →
            kept.filter (!·.isInlineTag) = deduped.filter (!·.isInlineTag)) := by
  refine ⟨_, _, Outline.clean_eq _ name attributes children, Outline.clean_eq _ name attributes children,
    (Outline.cleaned_unrepeated rfl _).events, ?_⟩
  intro h
  rw [← Content.stripped_events, ← Content.stripped_events]
  congr 1
  refine Outline.stripped_cleaned ?_ ?_ (SourceEvent.matched_ofNodes children) (fun e he => (h e he).1)
    fun e he => (h e he).2
  . rfl
  . rfl

def repeatedEmphasis : List Node :=
  [.element "p" [] [.element "em" [] [.text "a", .element "EM" [⟨"style", "font-weight: bold"⟩] [.text "b"]]]]

def keptEmphasis : List Event :=
  [.startTag .p [], .startTag .em [], .text "a", .startTag .em [], .startTag .strong [], .text "b", .endTag .strong,
    .endTag .em, .endTag .em, .endTag .p]

def dedupedEmphasis : List Event :=
  [.startTag .p [], .startTag .em [], .text "a", .text "b", .endTag .em, .endTag .p]

theorem repeatedEmphasis_deduped :
    (∀ e ∈ SourceEvent.ofNodes repeatedEmphasis, e.linksUsably ∧ e.stylesOthers)
      ∧ clean ⟨.standard, { dedupeInline := false }⟩ (Node.fragment repeatedEmphasis) = .ok keptEmphasis
      ∧ clean ⟨.standard, { dedupeInline := true }⟩ (Node.fragment repeatedEmphasis) = .ok dedupedEmphasis
      ∧ Event.Unrepeated dedupedEmphasis
      ∧ keptEmphasis.filter (!·.isInlineTag) = dedupedEmphasis.filter (!·.isInlineTag) := by
  have hevents : ∀ e ∈ SourceEvent.ofNodes repeatedEmphasis, e.linksUsably ∧ e.stylesOthers := by
    rw [SourceEvent.ofNodes_eq]
    decide +kernel
  have hkept : clean ⟨.standard, { dedupeInline := false }⟩ (Node.fragment repeatedEmphasis) = .ok keptEmphasis := by
    unfold Node.fragment
    rw [Outline.clean_eq, SourceEvent.ofNodes_eq, Except.ok.injEq]
    decide +kernel
  have hdeduped : clean ⟨.standard, { dedupeInline := true }⟩ (Node.fragment repeatedEmphasis)
      = .ok dedupedEmphasis := by
    unfold Node.fragment
    rw [Outline.clean_eq, SourceEvent.ofNodes_eq, Except.ok.injEq]
    decide +kernel
  refine ⟨hevents, hkept, hdeduped, ?_⟩
  rcases dedupe_touches_only_inline {} _ [] repeatedEmphasis with ⟨kept, deduped, hk, hd, hunrepeated, hsame⟩
  cases hkept.symm.trans hk
  cases hdeduped.symm.trans hd
  exact ⟨hunrepeated, hsame hevents⟩

def emphasisedAgain : List Node :=
  [.element "ul" []
    [.element "li" []
      [.element "em" [] [.element "em" [⟨"style", "font-style:italic"⟩] []], .element "p" [] [.text "x"]]]]

/-- The end tag of an element finds what its style stands for, if both are of one kind, and the element stays open;
a paragraph behind it is then not the first thing in the list item. With the element passed through its style stands
for nothing, and the paragraph is the first thing, which the item drops. -/
theorem emphasisedAgain_not_only_inline :
    (∀ e ∈ SourceEvent.ofNodes emphasisedAgain, e.linksUsably)
      ∧ ∃ kept deduped,
        clean ⟨.standard, { dedupeInline := false }⟩ (Node.fragment emphasisedAgain) = .ok kept
          ∧ clean ⟨.standard, { dedupeInline := true }⟩ (Node.fragment emphasisedAgain) = .ok deduped
          ∧ kept.filter (!·.isInlineTag) ≠ deduped.filter (!·.isInlineTag) := by
  unfold Node.fragment
  simp only [Outline.clean_eq, SourceEvent.ofNodes_eq]
  refine ⟨by decide +kernel, _, _, rfl, rfl, ?_⟩
  decide +kernel

end Cleaner

end NoteMarkup
