import NoteMarkup.Proofs.Reports

/-!
This module contains the shape of what is reported in a walk: blocks one behind the other, each of them a line and
then blocks. In particular everything that is started ends, and does so before what it is in.
-/

namespace NoteMarkup

namespace Report

def ending? : Report → Option Report
  | .blockStart block => some (.blockEnd block)
  | .inlineStart element => some (.inlineEnd element)
  | .blockEnd _ | .inlineEnd _ | .text _ => none

inductive Nested : List Report → Prop
  | nil : Nested []
  | text (content : String) {behind : List Report} (hbehind : Nested behind) : Nested (.text content :: behind)
  | element {start ending : Report} {inside behind : List Report} (h : start.ending? = some ending)
      (hinside : Nested inside) (hbehind : Nested behind) : Nested (start :: (inside ++ ending :: behind))

inductive Line : List Report → Prop
  | nil : Line []
  | text (content : String) {behind : List Report} (hbehind : Line behind) : Line (.text content :: behind)
  | element (element : Inline) {inside behind : List Report} (hinside : Line inside) (hbehind : Line behind) :
      Line (.inlineStart element :: (inside ++ .inlineEnd element :: behind))

inductive Blocks : List Report → Prop
  | nil : Blocks []
  | block (block : Block) {line blocks behind : List Report} (hline : Line line) (hblocks : Blocks blocks)
      (hbehind : Blocks behind) : Blocks (.blockStart block :: (line ++ (blocks ++ .blockEnd block :: behind)))

theorem Nested.append {first second : List Report} (hfirst : Nested first) (hsecond : Nested second) :
    Nested (first ++ second) := by
  induction hfirst with
  | nil => exact hsecond
  | text content hbehind ih => exact .text content ih
  | element h hinside hbehind ihinside ihbehind =>
    rw [List.cons_append, List.append_assoc, List.cons_append]
    exact .element h hinside ihbehind

theorem Line.append {first second : List Report} (hfirst : Line first) (hsecond : Line second) :
    Line (first ++ second) := by
  induction hfirst with
  | nil => exact hsecond
  | text content hbehind ih => exact .text content ih
  | element element hinside hbehind ihinside ihbehind =>
    rw [List.cons_append, List.append_assoc, List.cons_append]
    exact .element element hinside ihbehind

theorem Blocks.append {first second : List Report} (hfirst : Blocks first) (hsecond : Blocks second) :
    Blocks (first ++ second) := by
  induction hfirst with
  | nil => exact hsecond
  | block block hline hblocks hbehind ihblocks ihbehind =>
    rw [List.cons_append, List.append_assoc, List.append_assoc, List.cons_append]
    exact .block block hline hblocks ihbehind

theorem Line.nested {line : List Report} (h : Line line) : Nested line := by
  induction h with
  | nil => exact .nil
  | text content hbehind ih => exact .text content ih
  | element element hinside hbehind ihinside ihbehind => exact .element rfl ihinside ihbehind

theorem Blocks.nested {blocks : List Report} (h : Blocks blocks) : Nested blocks := by
  induction h with
  | nil => exact .nil
  | block block hline hblocks hbehind ihblocks ihbehind =>
    rw [← List.append_assoc]
    exact .element rfl (hline.nested.append ihblocks) ihbehind

end Report

namespace Node

open Report

mutual

theorem line_reportsInLine : ∀ n : Node, Line n.reportsInLine
  | .text content => by
    unfold reportsInLine
    split
    . exact .nil
    . exact .text content .nil
  | .element name attributes children => by
    have hchildren := line_reportsOfLine children
    unfold reportsInLine
    split
    . exact .element _ hchildren .nil
    . exact hchildren

theorem line_reportsOfLine : ∀ ns : List Node, Line (reportsOfLine ns)
  | [] => .nil
  | n :: ns => (line_reportsInLine n).append (line_reportsOfLine ns)

end

mutual

theorem blocks_reportsAsBlock : ∀ n : Node, Blocks n.reportsAsBlock
  | .text _ => .nil
  | .element name attributes children => by
    unfold reportsAsBlock
    split
    . rcases exists_reportsOfContent_eq children with ⟨line, blocks, hcontent, hline, hblocks⟩
      rw [hcontent, List.append_assoc]
      exact .block _ hline hblocks .nil
    . exact blocks_reportsOfBlocks children

theorem blocks_reportsOfBlocks : ∀ ns : List Node, Blocks (reportsOfBlocks ns)
  | [] => .nil
  | n :: ns => (blocks_reportsAsBlock n).append (blocks_reportsOfBlocks ns)

theorem exists_reportsOfContent_eq :
    ∀ ns : List Node, ∃ line blocks, reportsOfContent ns = line ++ blocks ∧ Line line ∧ Blocks blocks
  | [] => ⟨[], [], rfl, .nil, .nil⟩
  | n :: ns => by
    unfold reportsOfContent
    split
    . rcases exists_reportsOfContent_eq ns with ⟨line, blocks, hcontent, hline, hblocks⟩
      refine ⟨n.reportsInLine ++ line, blocks, ?_, (line_reportsInLine n).append hline, hblocks⟩
      rw [hcontent, List.append_assoc]
    . exact ⟨[], _, rfl, .nil, (blocks_reportsAsBlock n).append (blocks_reportsOfBlocks ns)⟩

end

theorem nested_reportsOfContent (ns : List Node) : Nested (reportsOfContent ns) := by
  rcases exists_reportsOfContent_eq ns with ⟨line, blocks, hcontent, hline, hblocks⟩
  rw [hcontent]
  exact hline.nested.append hblocks.nested

end Node

end NoteMarkup
