import NoteMarkup.Document.Element

/-!
This module contains the walk over a canonical tree, which tells blocks from inline content and reports
both to a visitor. Inside a block, the children are inline content up to the first one that is a block;
that one and all behind it are blocks. What is left to do is kept in a list, so that the depth of a tree
does not matter.
-/

namespace NoteMarkup

/-- Whether a walk goes into the element it has just reported. An element that is skipped is not reported
at its end either. -/
inductive Answer where
  | enter
  | skip
  deriving DecidableEq, Repr

structure Visitor (σ : Type) where
  blockStart : Block → σ → Answer × σ
  blockEnd : Block → σ → σ
  inlineStart : Inline → σ → Answer × σ
  inlineEnd : Inline → σ → σ
  text : String → σ → σ

inductive Errand where
  /-- Siblings between blocks: text has no meaning there, and elements that are no blocks are looked
  through. -/
  | blocks (nodes : List Node)
  | content (nodes : List Node)
  /-- Siblings in a line: elements that are not inline are looked through. -/
  | inline (nodes : List Node)
  | endBlock (block : Block)
  | endInline (element : Inline)

def Errand.weight : Errand → Nat
  | .blocks nodes => Node.weightAll nodes + 1
  | .content nodes => Node.weightAll nodes + 3
  | .inline nodes => Node.weightAll nodes + 1
  | .endBlock _ => 1
  | .endInline _ => 1

def Errand.weightAll : List Errand → Nat
  | [] => 0
  | t :: ts => t.weight + weightAll ts

theorem Node.weightAll_takeWhile_add_dropWhile (f : Node → Bool) (ns : List Node) :
    weightAll (ns.takeWhile f) + weightAll (ns.dropWhile f) = weightAll ns := by
  rw [← weightAll_append, List.takeWhile_append_dropWhile]

namespace Visitor

variable {σ : Type}

def run (v : Visitor σ) : List Errand → σ → σ
  | [], s => s
  | .blocks [] :: errands, s => v.run errands s
  | .blocks (.text _ :: rest) :: errands, s => v.run (.blocks rest :: errands) s
  | .blocks (.element name attributes children :: rest) :: errands, s =>
    match BlockKind.ofName? name with
    | some kind =>
      match v.blockStart ⟨kind, attributes⟩ s with
      | (.skip, s) => v.run (.blocks rest :: errands) s
      | (.enter, s) =>
        v.run (.content children :: .endBlock ⟨kind, attributes⟩ :: .blocks rest :: errands) s
    | none => v.run (.blocks children :: .blocks rest :: errands) s
  | .content children :: errands, s =>
    v.run
      (.inline (children.takeWhile Node.isNoBlock) :: .blocks (children.dropWhile Node.isNoBlock) :: errands)
      s
  | .inline [] :: errands, s => v.run errands s
  | .inline (.text content :: rest) :: errands, s =>
    v.run (.inline rest :: errands) (if content.isEmpty then s else v.text content s)
  | .inline (.element name attributes children :: rest) :: errands, s =>
    match InlineKind.ofName? name with
    | some kind =>
      match v.inlineStart ⟨kind, attributes⟩ s with
      | (.skip, s) => v.run (.inline rest :: errands) s
      | (.enter, s) =>
        v.run (.inline children :: .endInline ⟨kind, attributes⟩ :: .inline rest :: errands) s
    | none => v.run (.inline children :: .inline rest :: errands) s
  | .endBlock block :: errands, s => v.run errands (v.blockEnd block s)
  | .endInline element :: errands, s => v.run errands (v.inlineEnd element s)
termination_by errands => Errand.weightAll errands
decreasing_by
  case _ => simp [Errand.weightAll, Errand.weight]
  all_goals simp [Errand.weightAll, Errand.weight, Node.weightAll, Node.weight]
  all_goals have := Node.weightAll_takeWhile_add_dropWhile Node.isNoBlock children
  all_goals omega

def visitBlocks (v : Visitor σ) (nodes : List Node) (s : σ) : σ :=
  v.run [.blocks nodes] s

def visitContent (v : Visitor σ) (children : List Node) (s : σ) : σ :=
  v.run [.content children] s

def visitInline (v : Visitor σ) (n : Node) (s : σ) : σ :=
  v.run [.inline [n]] s

def visitDocument (v : Visitor σ) (root : Node) (s : σ) : Except NodeError σ :=
  root.elementChildren.map fun nodes => v.visitBlocks nodes s

end Visitor

end NoteMarkup
