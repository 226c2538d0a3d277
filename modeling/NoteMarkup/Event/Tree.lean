import NoteMarkup.Grammar.Basic
import NoteMarkup.Node.Basic

/-!
This module contains the tree that a list of events stands for. Only kinds with an output name become
elements; the content of all others lands in the nearest element that did.
-/

namespace NoteMarkup

structure TreeBuilder where
  current : Node
  around : List Node

namespace TreeBuilder

def empty : TreeBuilder :=
  ⟨.fragment [], []⟩

def close (b : TreeBuilder) : TreeBuilder :=
  match b.around with
  | [] => b
  | parent :: around => ⟨parent.addChild b.current, around⟩

def add (g : Grammar) (b : TreeBuilder) : Event → TreeBuilder
  | .startTag kind attributes =>
    match g.writtenName? kind with
    | some name => ⟨.element name attributes [], b.current :: b.around⟩
    | none => b
  | .endTag kind => if (g.writtenName? kind).isSome then b.close else b
  | .standaloneTag kind attributes =>
    match g.writtenName? kind with
    | some name => { b with current := b.current.addChild (.element name attributes []) }
    | none => b
  | .text content => { b with current := b.current.addText content }

def finish (b : TreeBuilder) : Node :=
  b.around.foldl (fun child parent => parent.addChild child) b.current

end TreeBuilder

namespace Event

/-- The tree of a list of events, balanced or not: what is left open ends with the list, and what closes
nothing has no effect. -/
def treeOf (g : Grammar) (events : List Event) : Node :=
  (events.foldl (TreeBuilder.add g) .empty).finish

end Event

end NoteMarkup
