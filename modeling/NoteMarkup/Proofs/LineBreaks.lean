import NoteMarkup.Proofs.Phrasing

/-!
This module contains what a line break is for the block it stands in: the document is the same as that of two blocks,
one up to the line break and one behind it, with copies of the elements around it. What is open is begun anew in the
way in which it was opened, as long as nothing that has ended before is still open.
-/

namespace NoteMarkup

structure Cut where
  left : List Node
  right : List Node
  ended : List Node
  around : List String

/-- How content is cut at one of its line breaks. Elements around it are copied with their attributes, and what the
line break itself holds comes behind it. -/
inductive CutAt : List Node → Cut → Prop
  | here (before after held : List Node) (name : String) (source : List Attribute)
    (hname : Grammar.standard.canonicalName (.ofName name) = .known .br) :
    CutAt (before ++ .element name source held :: after) ⟨before, held ++ after, before, []⟩
  | inside (before after : List Node) (name : String) (source : List Attribute) {held : List Node} {cut : Cut}
    (hcut : CutAt held cut) :
    CutAt (before ++ .element name source held :: after)
      ⟨before ++ [.element name source cut.left], .element name source cut.right :: after, before ++ cut.ended,
        name :: cut.around⟩

theorem CutAt.mem_of_mem_left {content : List Node} {cut : Cut} (h : CutAt content cut) :
    ∀ e ∈ Node.sourceEventsAll cut.left, e ∈ Node.sourceEventsAll content := by
  induction h with
  | here before after held name source hname =>
    intro e he
    simp [he]
  | inside before after name source hcut ih =>
    intro e he
    simp only [Node.sourceEventsAll_append, Node.sourceEventsAll, Node.sourceEvents, List.mem_append, List.mem_cons,
      List.append_nil] at he ⊢
    rcases he with he | he | he | he
    . exact .inl he
    . exact .inr (.inl (.inl he))
    . exact .inr (.inl (.inr (.inl (ih e he))))
    . exact .inr (.inl (.inr (.inr he)))

namespace Outline

variable {o : CleaningOptions} {k : ElementKind} {z : Outline .standard}

section Balanced

mutual

theorem play_shells (hk : k.isHost) {z : Outline .standard} (h : Hosted k z.shells) :
    ∀ n : Node, (∀ e ∈ n.sourceEvents, e.isPhrasing ∧ e.stylesOthers) → (play o z n.sourceEvents).shells = z.shells
  | .text content, _ => by
    simp only [Node.sourceEvents, play_cons, play_nil, step]
    split
    . rw [text_of_hosted h hk, hold_shells]
    . rfl
  | .element name source children, hevents => by
    rw [play_element]
    simp only [Node.sourceEvents, List.forall_mem_cons, List.forall_mem_append] at hevents
    rcases hevents with ⟨⟨henter, hstyles⟩, hchildren, -⟩
    have hentered := h.enter (o := o) hk henter 0
    have hheld := playAll_shells hk hentered children hchildren
    rcases SourceEvent.isPhrasing_enter henter with ⟨raw, hraw⟩ | ⟨w, hw, hinline, hlink⟩ | hbr
    . rw [leave_shells_eq, hheld, hraw, enter_unknown_of_canonicalName hraw]
      simp [around?_cons, Layer.name]
    . rw [leave_shells_eq, hheld, hw, enter_of_hosted h hk hw hinline hlink]
      rcases openHere_shells_of_isInline (o := o) hinline source 0 z with ⟨styled, own, hshells, hown, hstyled⟩
      rw [hshells, around?_append_of_ne hown, Option.getD_some]
      intro l hmem
      rcases (hstyled l hmem).2 with ⟨s, hs, hlname⟩
      rw [hlname]
      simpa using SourceEvent.ne_of_stylesOthers hstyles hw s hs
    . rw [hbr, leave_br_of_hosted _ hk, hheld, enter_br_of_hosted h hk hbr, lineAfter_shells]
      rwa [hheld]

theorem playAll_shells (hk : k.isHost) {z : Outline .standard} (h : Hosted k z.shells) :
    ∀ ns : List Node, (∀ e ∈ Node.sourceEventsAll ns, e.isPhrasing ∧ e.stylesOthers) →
      (play o z (Node.sourceEventsAll ns)).shells = z.shells
  | [], _ => rfl
  | n :: ns, hevents => by
    simp only [Node.sourceEventsAll, List.forall_mem_append] at hevents
    have hfirst := play_shells hk h n hevents.1
    rw [Node.sourceEventsAll, play_append, playAll_shells hk (by rwa [hfirst]) ns hevents.2, hfirst]

end

end Balanced

section Anew

theorem openCounterpart_lineAfter (now : Nat) (ground : Content) (s : Style.Counterpart) (z : Outline .standard) :
    (z.lineAfter ground).openCounterpart o now s = (z.openCounterpart o now s).lineAfter ground := by
  unfold openCounterpart nearest hasOpen
  rw [lineAfter_shells]
  split
  . split <;> rfl
  . rfl

theorem openHere_lineAfter {w : ElementKind} (hhr : w ≠ .hr) (source : List Attribute) (now : Nat)
    (ground : Content) (z : Outline .standard) :
    (z.lineAfter ground).openHere o w source now = (z.openHere o w source now).lineAfter ground := by
  have hfoldl (styles : List Style.Counterpart) (y : Outline .standard) :
      styles.foldl (openCounterpart o now) (y.lineAfter ground)
        =
      (styles.foldl (openCounterpart o now) y).lineAfter ground := by
    induction styles generalizing y with
    | nil => rfl
    | cons s styles ih => rw [List.foldl_cons, List.foldl_cons, openCounterpart_lineAfter, ih]
  unfold openHere nearest hasOpen
  rw [lineAfter_shells]
  dsimp only
  rw [if_neg hhr, if_neg hhr]
  split
  . rfl
  . rw [← hfoldl]
    rfl

theorem settled_of_hosted {ls : List (Layer .standard)} (h : Hosted k ls) (hcollapses : k.entry.collapses = false)
    (hempty : ls.map Layer.emptied = ls) (ground : Content) : settled ⟨ground, ls⟩ = ground := by
  induction h with
  | host tag since held htag =>
    cases hempty
    have hentry : tag.entry.collapses = false := by rwa [← tag_entry, htag]
    simp [settled, close, closeInnermost, Layer.settled, hentry]
  | @inside l ls hl hrest ih =>
    rw [List.map_cons, List.cons.injEq] at hempty
    have hsettled : l.settled = .nil := by
      cases l with
      | silent name since held =>
        cases hempty.1
        rfl
      | written tag since held =>
        cases hempty.1
        have hentry : tag.entry.collapses = false := by
          rw [← tag_entry]
          exact ElementKind.collapses_of_isInline hl
        simp [Layer.settled, hentry]
    rw [← settled_closeInnermost, closeInnermost]
    dsimp only
    rw [hsettled, hold_nil, ih hempty.2]

theorem settled_lineAfter (h : Hosted k z.shells) (hcollapses : k.entry.collapses = false) (ground : Content) :
    (z.lineAfter ground).settled = ground :=
  settled_of_hosted h hcollapses (by simp [shells]) ground

theorem enter_lineAfter (h : Hosted k z.shells) (hk : k.isHost) {name : String} {source : List Attribute}
    {now : Nat} (he : (SourceEvent.enter name source).isPhrasing)
    (hbreak : Grammar.standard.canonicalName (.ofName name) = .known .br → k.entry.collapses = false)
    (ground : Content) :
    (z.lineAfter ground).enter o now (.ofName name) source
      =
    (z.enter o now (.ofName name) source).lineAfter ground := by
  have hanew : Hosted k (z.lineAfter ground).shells := by rwa [lineAfter_shells]
  rcases SourceEvent.isPhrasing_enter he with ⟨raw, hraw⟩ | ⟨w, hw, hinline, hlink⟩ | hbr
  . rw [enter_unknown_of_canonicalName hraw, enter_unknown_of_canonicalName hraw]
    rfl
  . rw [enter_of_hosted h hk hw hinline hlink, enter_of_hosted hanew hk hw hinline hlink]
    exact openHere_lineAfter (ElementKind.ne_of_isInline hinline rfl) source now ground z
  . rw [enter_br_of_hosted h hk hbr, enter_br_of_hosted hanew hk hbr, settled_lineAfter h (hbreak hbr)]
    apply lineAfter_congr
    simp

end Anew

theorem play_cut {content : List Node} {cut : Cut} (hcut : CutAt content cut) (hk : k.isHost)
    (h : Hosted k z.shells) (hphrasing : ∀ e ∈ Node.sourceEventsAll content, e.isPhrasing)
    (hended : ∀ e ∈ Node.sourceEventsAll cut.ended, e.stylesOthers)
    (hbreaks : k.entry.collapses →
      ∀ name ∈ cut.around, Grammar.standard.canonicalName (.ofName name) ≠ .known .br) :
    play o z (Node.sourceEventsAll content)
      =
    play o (z.lineAfter (play o z (Node.sourceEventsAll cut.left)).settled) (Node.sourceEventsAll cut.right) := by
  induction hcut generalizing z with
  | here before after held name source hname =>
    simp only [Node.sourceEventsAll_append, Node.sourceEventsAll, List.forall_mem_append] at hphrasing
    rcases hphrasing with ⟨hbefore, hbr, -⟩
    have hshells : (play o z (Node.sourceEventsAll before)).shells = z.shells :=
      playAll_shells hk h before fun e he => ⟨hbefore e he, hended e he⟩
    have hhosted : Hosted k (play o z (Node.sourceEventsAll before)).shells := by rwa [hshells]
    have hheld : ∀ e ∈ Node.sourceEventsAll held, e.isPhrasing := by
      intro e he
      exact hbr e (by simp [Node.sourceEvents, he])
    simp only [Node.sourceEventsAll_append, Node.sourceEventsAll, play_append, play_element, hname]
    rw [enter_br_of_hosted hhosted hk hname, leave_br_of_hosted _ hk, lineAfter_congr hshells]
    apply Hosted.play _ hk hheld
    rwa [lineAfter_shells, hshells]
  | @inside before after name source held cut hcut ih =>
    simp only [Node.sourceEventsAll_append, Node.sourceEventsAll, Node.sourceEvents, List.forall_mem_append,
      List.forall_mem_cons] at hphrasing hended
    rcases hphrasing with ⟨hbefore, ⟨henter, hheld, -⟩, -⟩
    have hshells : (play o z (Node.sourceEventsAll before)).shells = z.shells :=
      playAll_shells hk h before fun e he => ⟨hbefore e he, hended.1 e he⟩
    have hhosted : Hosted k (play o z (Node.sourceEventsAll before)).shells := by rwa [hshells]
    have hbreak : Grammar.standard.canonicalName (.ofName name) = .known .br → k.entry.collapses = false := by
      intro hbr
      rw [Bool.eq_false_iff]
      exact fun hcollapses => hbreaks hcollapses name (by simp) hbr
    have hrest := ih (hhosted.enter (o := o) hk henter 0) hheld hended.2 fun hcollapses name hmem =>
      hbreaks hcollapses name (List.mem_cons_of_mem _ hmem)
    simp only [Node.sourceEventsAll_append, Node.sourceEventsAll, play_append, play_element, List.append_nil,
      settled_leave]
    rw [hrest, lineAfter_congr hshells.symm, enter_lineAfter hhosted hk henter hbreak]

section Host

theorem enter_host (hk : k.isHost) {host : String} (hhost : Grammar.standard.canonicalName (.ofName host) = .known k)
    (source : List Attribute) (hlayers : z.layers = []) :
    z.enter o 0 (.ofName host) source = z.openHere o k source 0 := by
  have hnearest : z.nearest = none := by simp [nearest, shells, hlayers, nearestOf]
  have hprepare : z.prepare k 0 = z := by
    apply prepare_of_standsIn
    rw [hnearest]
    exact (Bool.and_eq_true_iff.mp hk).1
  have hbr := (ElementKind.splits_of_isHost hk).2.2.1
  unfold enter
  simp [hhost, ElementKind.keeps_of_isHost hk source, hbr, Cleaner.drops_of_nearest_eq_none hnearest, hprepare]

theorem hosted_openHere (hk : k.isHost) (source : List Attribute) (hlayers : z.layers = []) :
    Hosted k (z.openHere o k source 0).shells := by
  have hhr := (ElementKind.splits_of_isHost hk).2.2.2
  have hopened : z.openHere o k source 0
      = (k.entry.counterparts source).foldl (openCounterpart o 0)
          (z.place k (k.entry.keptAttributes source z.nearest) 0) := by
    simp [openHere, hhr, ElementKind.isInline_of_isHost hk]
  rw [hopened]
  generalize k.entry.keptAttributes source z.nearest = attributes
  have hplace : (z.place k attributes 0).shells = [.written (tagOf k attributes) 0 .nil] := by
    rw [place, openWritten_shells, shells, hlayers, List.map_nil]
  rcases foldl_openCounterpart_shells (o := o) 0 (k.entry.counterparts source) (z.place k attributes 0) with
    ⟨styled, hshells, hstyled⟩
  rw [hshells, hplace]
  apply Hosted.append
  . exact .host _ _ _ (by simp [tagOf])
  . intro l hmem
    rcases (hstyled l hmem).2 with ⟨s, hs, hname⟩
    rw [hname]
    exact (Entry.counterparts_proper hs).isInline

theorem Hosted.around?_host {ls : List (Layer .standard)} (h : Hosted k ls) (hk : k.isHost) :
    Outline.around? (.known k) ls = some [] := by
  induction h with
  | host tag since held htag => simp [around?_cons, Layer.name, htag]
  | @inside l ls hl hrest ih =>
    have hne : l.name ≠ .known k := by
      intro hname
      rw [hname] at hl
      have hinline : k.isInline := hl
      rw [ElementKind.isInline_of_isHost hk] at hinline
      cases hinline
    rw [around?_cons, if_neg hne, ih]

theorem leave_host (h : Hosted k z.shells) (hk : k.isHost) : z.leave (.known k) = ⟨z.settled, []⟩ := by
  have hshells := leave_shells_eq (.known k) z
  rw [h.around?_host hk, Option.getD_some] at hshells
  have hlayers : (z.leave (.known k)).layers = [] := by simpa [shells] using hshells
  rw [eq_of_layers_eq_nil hlayers, settled_leave]

def paragraph : Outline .standard :=
  place .p [] 0 {}

theorem hosted_paragraph : Hosted .p paragraph.shells :=
  .host _ _ _ rfl

theorem settled_play_paragraph (content : List Node) :
    (play o {} (Node.sourceEventsAll [.element "p" [] content])).settled
      =
    (play o paragraph (Node.sourceEventsAll content)).settled := by
  have hname : Grammar.standard.canonicalName (.ofName "p") = .known .p := rfl
  have hentered : ({} : Outline .standard).enter o 0 (.ofName "p") [] = paragraph := by
    rw [enter_host rfl hname [] rfl, Cleaner.openHere_bare 0 (by decide), paragraph]
  rw [Node.sourceEventsAll, Node.sourceEventsAll, List.append_nil, play_element, settled_leave, hentered]

end Host

end Outline

namespace Cleaner

/-- A line break in a block of inline content splits the block: the document is the same as that of the two halves
of the block. What ends before the line break must leave nothing open, so that no style of it stands for an element
of its own kind; and the line break must not stand in another one, unless the block leaves nothing behind when it is
empty. -/
theorem line_break_splits_block (o : CleaningOptions) {host : String} {k : ElementKind}
    (hhost : Grammar.standard.canonicalName (.ofName host) = .known k) (hk : k.isHost) (source : List Attribute)
    {content : List Node} {cut : Cut} (hcut : CutAt content cut)
    (hphrasing : ∀ e ∈ SourceEvent.ofNodes content, e.isPhrasing)
    (hended : ∀ e ∈ SourceEvent.ofNodes cut.ended, e.stylesOthers)
    (hbreaks : k.entry.collapses →
      ∀ name ∈ cut.around, Grammar.standard.canonicalName (.ofName name) ≠ .known .br) :
    ∃ cleaned,
      clean ⟨.standard, o⟩ (Node.fragment [.element host source content]) = .ok cleaned
        ∧ clean ⟨.standard, o⟩ (Node.fragment [.element host source cut.left, .element host source cut.right])
          = .ok cleaned := by
  rw [SourceEvent.ofNodes_eq] at hphrasing hended
  refine ⟨_, Outline.clean_eq_play o _ _ _, ?_⟩
  unfold Node.fragment
  rw [Outline.clean_eq_play, Except.ok.injEq]
  congr 1
  have hempty : ({} : Outline .standard).layers = [] := rfl
  have hhosted := Outline.hosted_openHere (o := o) hk source hempty
  have hleft : ∀ e ∈ Node.sourceEventsAll cut.left, e.isPhrasing :=
    fun e he => hphrasing e (hcut.mem_of_mem_left e he)
  -- The first half leaves nothing open, and the second one opens what is begun anew behind the line break.
  simp only [Node.sourceEventsAll, Outline.play_append, Outline.play_nil, Outline.play_element, hhost]
  rw [Outline.enter_host hk hhost source hempty, Outline.leave_host (hhosted.play hk hleft) hk,
    Outline.enter_host hk hhost source rfl, Outline.settled_leave, Outline.settled_leave,
    Outline.play_cut hcut hk hhosted hphrasing hended hbreaks,
    ← Outline.openHere_lineAfter (ElementKind.splits_of_isHost hk).2.2.2]
  rfl

example : ∀ host ∈ ["p", "div", "pre", "h1", "h2", "h3", "h4", "h5", "h6", "text", "blockquote", "quote"],
    (Grammar.standard.canonicalName (.ofName host)).kind?.any (·.isHost) := by
  decide +kernel

def brokenLink : List Node :=
  [.element "em" [⟨"style", "color: red"⟩] [.text "a"],
    .element "a" [⟨"href", "/"⟩]
      [.text "b", .element "x-y" [] [.element "b" [] [.element "br" [] [], .text "c"]], .text "d"],
    .text "e"]

def brokenLinkCut : Cut where
  left :=
    [.element "em" [⟨"style", "color: red"⟩] [.text "a"],
      .element "a" [⟨"href", "/"⟩] [.text "b", .element "x-y" [] [.element "b" [] []]]]
  right :=
    [.element "a" [⟨"href", "/"⟩] [.element "x-y" [] [.element "b" [] [.text "c"]], .text "d"], .text "e"]
  ended := [.element "em" [⟨"style", "color: red"⟩] [.text "a"], .text "b"]
  around := ["a", "x-y", "b"]

theorem brokenLink_splits :
    CutAt brokenLink brokenLinkCut
      ∧ ∃ cleaned,
        clean ⟨.standard, { dedupeInline := true }⟩
            (Node.fragment [.element "p" [⟨"style", "font-weight: bold"⟩] brokenLink]) = .ok cleaned
          ∧ clean ⟨.standard, { dedupeInline := true }⟩
              (Node.fragment [.element "p" [⟨"style", "font-weight: bold"⟩] brokenLinkCut.left,
                .element "p" [⟨"style", "font-weight: bold"⟩] brokenLinkCut.right])
            = .ok cleaned := by
  have hcut : CutAt brokenLink brokenLinkCut :=
    .inside [.element "em" [⟨"style", "color: red"⟩] [.text "a"]] [.text "e"] "a" [⟨"href", "/"⟩]
      (.inside [.text "b"] [.text "d"] "x-y" [] (.inside [] [] "b" [] (.here [] [.text "c"] [] "br" [] rfl)))
  refine ⟨hcut, @line_break_splits_block { dedupeInline := true } "p" .p rfl rfl _ _ _ hcut ?_ ?_ ?_⟩
  . rw [SourceEvent.ofNodes_eq]
    decide +kernel
  . rw [SourceEvent.ofNodes_eq]
    decide +kernel
  . decide +kernel

def italicEmphasis : Node :=
  .element "em" [⟨"style", "font-style:italic"⟩] [.text "x"]

/-- The end tag of an element finds what its style stands for, if both are of one kind; the element stays open and
goes on behind the line break. A line break in another one is copied with it, and ends a line more. -/
theorem open_style_and_nested_break_not_split :
    CutAt [italicEmphasis, .text "y", .element "br" [] [], .text "z"]
        ⟨[italicEmphasis, .text "y"], [.text "z"], [italicEmphasis, .text "y"], []⟩
      ∧ (∀ e ∈ SourceEvent.ofNodes [italicEmphasis, .text "y", .element "br" [] [], .text "z"], e.isPhrasing)
      ∧ clean ⟨.standard, {}⟩
          (Node.fragment [.element "p" [] [italicEmphasis, .text "y", .element "br" [] [], .text "z"]])
        ≠ clean ⟨.standard, {}⟩
            (Node.fragment [.element "p" [] [italicEmphasis, .text "y"], .element "p" [] [.text "z"]])
      ∧ CutAt [.element "br" [] [.text "x", .element "br" [] [], .text "y"]]
          ⟨[.element "br" [] [.text "x"]], [.element "br" [] [.text "y"]], [.text "x"], ["br"]⟩
      ∧ (∀ e ∈ SourceEvent.ofNodes [.element "br" [] [.text "x", .element "br" [] [], .text "y"]], e.isPhrasing)
      ∧ clean ⟨.standard, {}⟩
          (Node.fragment [.element "p" [] [.element "br" [] [.text "x", .element "br" [] [], .text "y"]]])
        ≠ clean ⟨.standard, {}⟩
            (Node.fragment [.element "p" [] [.element "br" [] [.text "x"]],
              .element "p" [] [.element "br" [] [.text "y"]]]) := by
  unfold Node.fragment
  simp only [Outline.clean_eq_play, SourceEvent.ofNodes_eq, ne_eq, Except.ok.injEq]
  refine ⟨.here [italicEmphasis, .text "y"] [.text "z"] [] "br" [] rfl, by decide +kernel, by decide +kernel,
    .inside [] [] "br" [] (.here [.text "x"] [.text "y"] [] "br" [] rfl), by decide +kernel, by decide +kernel⟩

end Cleaner

end NoteMarkup
