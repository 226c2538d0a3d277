import NoteMarkup.Node.Basic

/-!
This module contains source trees as the events of a walk in document order. The walk keeps what is left
of each open level in a list, so that the depth of a tree does not matter.
-/

namespace NoteMarkup

inductive SourceEvent where
  | enter (name : String) (attributes : List Attribute)
  | leave (name : String)
  | text (content : String)
  deriving DecidableEq, Repr, Inhabited

namespace SourceEvent

structure Level where
  name : String
  rest : List Node

def Level.weightAll : List Level → Nat
  | [] => 0
  | l :: ls => 1 + Node.weightAll l.rest + weightAll ls

def collect (events : Array SourceEvent) : List Node → List Level → Array SourceEvent
  | .text content :: here, levels => collect (events.push (.text content)) here levels
  | .element name attributes children :: here, levels =>
    collect (events.push (.enter name attributes)) children (⟨name, here⟩ :: levels)
  | [], ⟨name, rest⟩ :: levels => collect (events.push (.leave name)) rest levels
  | [], [] => events
termination_by here levels => Node.weightAll here + Level.weightAll levels
decreasing_by
  all_goals simp [Node.weightAll, Node.weight, Level.weightAll]
  all_goals omega

def ofNodes (nodes : List Node) : List SourceEvent :=
  (collect #[] nodes []).toList

def ofRoot (root : Node) : Except NodeError (List SourceEvent) :=
  (root.elementChildren).map ofNodes

end SourceEvent

end NoteMarkup
