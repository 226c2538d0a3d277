import NoteMarkup.Proofs.Consistency
import NoteMarkup.Proofs.WellFormed

/-!
This module contains that drafts are always consistent, in between the steps of a source event as well as behind it.
For that every access is checked: a start tag is read, and an element is closed, only if its start tag is where the
element says. Cleaning comes to the same with checked access as without, so that no access is ever refused.
-/

namespace NoteMarkup

namespace Draft

/-- Closes the innermost open element. It is refused if there is none, if the start tag of the element is not where it
should be, so that another event could be taken back, or if the element is a block but not the last one listed. -/
def closeChecked? (c : Cleaner) (d : Draft) : Option Draft :=
  match d.opened with
  | [] => none
  | o :: opened =>
    if d.hasTag o && (!isOpenBlock c o || d.blocks.head? == some opened.length) then some (d.closeInnermost c)
    else none

def closesChecked? (c : Cleaner) : Nat → Draft → Option Draft
  | 0, d => some d
  | n + 1, d => (d.closeChecked? c).bind (closesChecked? c n)

def lineChecked? (n : Nat) (d : Draft) : Option (List (OpenElement × Option Event)) :=
  if n ≤ d.opened.length && (d.opened.take n).all d.hasTag then some (d.line n) else none

theorem Consistent.head?_blocks {c : Cleaner} {d : Draft} (h : d.Consistent c) {o : OpenElement}
    {opened : List OpenElement} (hopened : d.opened = o :: opened) (hblock : isOpenBlock c o) :
    d.blocks.head? = some opened.length := by
  have hblocks := h.blocks
  rw [hopened, List.length_cons, List.range_succ, List.filter_append] at hblocks
  -- The innermost element has the last of the places, and its place passes the filter.
  have hown : (o :: opened).reverse[opened.length]?.any (isOpenBlock c) := by simpa using hblock
  simp only [List.filter_cons, hown, ↓reduceIte, List.filter_nil] at hblocks
  rw [← List.getLast?_reverse, hblocks, List.getLast?_concat]

theorem Consistent.closeChecked? {c : Cleaner} {d : Draft} (h : d.Consistent c) (hopened : 0 < d.opened.length) :
    d.closeChecked? c = some (d.closeInnermost c) := by
  unfold Draft.closeChecked?
  split
  . next hnil => simp [hnil] at hopened
  . next o opened hcons =>
    have htag : d.hasTag o := h.tags o (by simp [hcons])
    rw [if_pos]
    cases hblock : isOpenBlock c o with
    | false => simp [htag]
    | true => simp [htag, h.head?_blocks hcons hblock]

theorem Consistent.lineChecked? {c : Cleaner} {d : Draft} (h : d.Consistent c) {n : Nat} (hn : n ≤ d.opened.length) :
    d.lineChecked? n = some (d.line n) := by
  have htags : (d.opened.take n).all d.hasTag :=
    List.all_eq_true.mpr fun o ho => h.tags o (List.mem_of_mem_take ho)
  rw [Draft.lineChecked?, if_pos]
  simp [hn, htags]

end Draft

namespace Outline

variable {g : Grammar} (o : CleaningOptions)

theorem closesChecked?_draft (z : Outline g) {n : Nat} (hn : n ≤ z.layers.length) :
    z.draft.closesChecked? ⟨g, o⟩ n = some (z.close n).draft := by
  induction n generalizing z with
  | zero => rfl
  | succ n ih =>
    have hopened : 0 < z.draft.opened.length := by
      rw [draft_opened_length]
      omega
    have hinner : n ≤ z.closeInnermost.layers.length := by
      have hlength := congrArg List.length (closeInnermost_shells z)
      simp only [shells_length, List.length_tail] at hlength
      omega
    rw [Draft.closesChecked?, (consistent_draft o z).closeChecked? hopened, Option.bind_some,
      ← closeInnermost_draft (o := o), ih z.closeInnermost hinner]
    rfl

end Outline

namespace Cleaner

namespace Access

def checked (c : Cleaner) : Access where
  line? := Draft.lineChecked?
  close? := Draft.closesChecked? c

theorem checked_grants (g : Grammar) (o : CleaningOptions) :
    (checked ⟨g, o⟩).Grants ⟨g, o⟩ (Draft.Outlined fun _ : Outline g => True) where
  line := by
    rintro _ ⟨z, -, rfl⟩ n hn
    exact (Outline.consistent_draft o z).lineChecked? hn
  close := by
    rintro _ ⟨z, -, rfl⟩ n hn
    rw [Outline.draft_opened_length] at hn
    rw [← Outline.close_draft]
    exact Outline.closesChecked?_draft o z hn

end Access

theorem reached_draft_consistent {c : Cleaner} {events : List SourceEvent} {d : Draft}
    (hrun : ({} : Draft).run? c events = some d) :
    d.Consistent c
      ∧ (∃ depth, (Access.checked c).run? c depth {} events = some d)
      ∧ (Access.checked c).close? d.opened.length d = some (d.closeAll c) := by
  have hkeeps := (keepsOutline_true c.grammar c.options).keeps
  have hgrants := Access.checked_grants c.grammar c.options
  have hempty : Draft.Outlined (fun _ : Outline c.grammar => True) {} := ⟨{}, trivial, rfl⟩
  have houtlined := Draft.run?_keeps hkeeps hempty hrun
  rcases Draft.run?_grants hkeeps hgrants hempty hrun with ⟨depth, hdepth⟩
  refine ⟨?_, ⟨depth, hdepth depth (Nat.le_refl depth)⟩, hgrants.close houtlined (Nat.le_refl _)⟩
  rcases houtlined with ⟨z, -, rfl⟩
  exact Outline.consistent_draft c.options z

def brokenItem : Draft where
  output := #[.startTag .ul [], .startTag .li [], .startTag .b [], .text "a", .endTag .b, .endTag .li,
    .startTag .li [], .startTag .p []]
  opened := [⟨.known .p, some 7⟩, ⟨.unknown "x", none⟩, ⟨.known .li, some 6⟩, ⟨.known .ul, some 0⟩]
  blocks := [3, 0]

theorem brokenItem_consistent :
    ({} : Draft).run? ⟨.assemble itemDeclarations, {}⟩ [.leave "ul", .enter "li" [], .enter "x" [], .enter "b" [],
        .text "a", .enter "BR" [], .enter "p" []] = some brokenItem
      ∧ brokenItem.Consistent ⟨.assemble itemDeclarations, {}⟩
      ∧ (Access.checked ⟨.assemble itemDeclarations, {}⟩).close? 4 brokenItem
        = some (brokenItem.closeAll ⟨.assemble itemDeclarations, {}⟩) := by
  have hrun : ({} : Draft).run? ⟨.assemble itemDeclarations, {}⟩ [.leave "ul", .enter "li" [], .enter "x" [],
      .enter "b" [], .text "a", .enter "BR" [], .enter "p" []] = some brokenItem := by
    cbv
  rcases reached_draft_consistent hrun with ⟨hconsistent, -, hclosed⟩
  exact ⟨hrun, hconsistent, hclosed⟩

end Cleaner

end NoteMarkup
