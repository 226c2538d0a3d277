import NoteMarkup.Document.Log

/-!
This module contains the reports of a walk that goes into everything by recursion on the tree, and the inline elements
they can be about.
-/

namespace NoteMarkup

mutual

def Node.reportsInLine : Node → List Report
  | .text content => if content.isEmpty then [] else [.text content]
  | .element name attributes children =>
    match InlineKind.ofName? name with
    | some kind =>
      .inlineStart ⟨kind, attributes⟩ :: (reportsOfLine children ++ [.inlineEnd ⟨kind, attributes⟩])
    | none => reportsOfLine children

def Node.reportsOfLine : List Node → List Report
  | [] => []
  | n :: ns => n.reportsInLine ++ reportsOfLine ns

end

mutual

def Node.reportsAsBlock : Node → List Report
  | .text _ => []
  | .element name attributes children =>
    match BlockKind.ofName? name with
    | some kind =>
      .blockStart ⟨kind, attributes⟩ :: (reportsOfContent children ++ [.blockEnd ⟨kind, attributes⟩])
    | none => reportsOfBlocks children

def Node.reportsOfBlocks : List Node → List Report
  | [] => []
  | n :: ns => n.reportsAsBlock ++ reportsOfBlocks ns

def Node.reportsOfContent : List Node → List Report
  | [] => []
  | n :: ns =>
    if n.isNoBlock then n.reportsInLine ++ reportsOfContent ns else n.reportsAsBlock ++ reportsOfBlocks ns

end

mutual

def Node.inlines : Node → List Inline
  | .element name attributes children =>
    ((InlineKind.ofName? name).map fun kind => ⟨kind, attributes⟩).toList ++ inlinesAll children
  | .text _ => []

def Node.inlinesAll : List Node → List Inline
  | [] => []
  | n :: ns => n.inlines ++ inlinesAll ns

end

section

variable {element : Inline}

mutual

theorem Node.mem_inlines_of_reportsInLine :
    ∀ n : Node, .inlineStart element ∈ n.reportsInLine → element ∈ n.inlines
  | .text content, h => by
    unfold reportsInLine at h
    split at h <;> simp at h
  | .element name attributes children, h => by
    have hchildren := mem_inlinesAll_of_reportsOfLine children
    unfold reportsInLine at h
    unfold inlines
    cases hkind : InlineKind.ofName? name with
    | some kind =>
      simp only [hkind, List.mem_cons, Report.inlineStart.injEq, List.mem_append, reduceCtorEq, List.not_mem_nil,
        or_false] at h
      rcases h with rfl | h
      . simp
      . simp [hchildren h]
    | none =>
      simp only [hkind] at h
      simp [hchildren h]

theorem Node.mem_inlinesAll_of_reportsOfLine :
    ∀ ns : List Node, .inlineStart element ∈ reportsOfLine ns → element ∈ inlinesAll ns
  | [], h => by cases h
  | n :: ns, h => by
    simp only [reportsOfLine, List.mem_append] at h
    rcases h with h | h
    . simp [inlinesAll, mem_inlines_of_reportsInLine n h]
    . simp [inlinesAll, mem_inlinesAll_of_reportsOfLine ns h]

end

mutual

theorem Node.mem_inlines_of_reportsAsBlock :
    ∀ n : Node, .inlineStart element ∈ n.reportsAsBlock → element ∈ n.inlines
  | .text content, h => by cases h
  | .element name attributes children, h => by
    have hcontent := mem_inlinesAll_of_reportsOfContent children
    have hblocks := mem_inlinesAll_of_reportsOfBlocks children
    unfold reportsAsBlock at h
    unfold inlines
    rw [List.mem_append]
    right
    cases hkind : BlockKind.ofName? name with
    | some kind =>
      simp only [hkind, List.mem_cons, List.mem_append, reduceCtorEq, List.not_mem_nil, or_false, false_or] at h
      exact hcontent h
    | none =>
      simp only [hkind] at h
      exact hblocks h

theorem Node.mem_inlinesAll_of_reportsOfBlocks :
    ∀ ns : List Node, .inlineStart element ∈ reportsOfBlocks ns → element ∈ inlinesAll ns
  | [], h => by cases h
  | n :: ns, h => by
    simp only [reportsOfBlocks, List.mem_append] at h
    rcases h with h | h
    . simp [inlinesAll, mem_inlines_of_reportsAsBlock n h]
    . simp [inlinesAll, mem_inlinesAll_of_reportsOfBlocks ns h]

theorem Node.mem_inlinesAll_of_reportsOfContent :
    ∀ ns : List Node, .inlineStart element ∈ reportsOfContent ns → element ∈ inlinesAll ns
  | [], h => by cases h
  | n :: ns, h => by
    unfold reportsOfContent at h
    split at h
    . rw [List.mem_append] at h
      rcases h with h | h
      . simp [inlinesAll, mem_inlines_of_reportsInLine n h]
      . simp [inlinesAll, mem_inlinesAll_of_reportsOfContent ns h]
    . rw [List.mem_append] at h
      rcases h with h | h
      . simp [inlinesAll, mem_inlines_of_reportsAsBlock n h]
      . simp [inlinesAll, mem_inlinesAll_of_reportsOfBlocks ns h]

end

end

end NoteMarkup
