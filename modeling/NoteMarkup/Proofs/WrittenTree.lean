import NoteMarkup.Event.Tree
import NoteMarkup.Proofs.Content
import NoteMarkup.Proofs.Siblings

/-!
This module contains the tree of balanced events by recursion on what they hold: an element of a kind that is
written becomes a node, of any other only its content is written, behind what stands before it.
-/

namespace NoteMarkup

def Content.writtenBehind (g : Grammar) (ns : List Node) : Content → List Node
  | nil => ns
  | element before kind attributes held =>
    match g.writtenName? kind with
    | some name => before.writtenBehind g ns ++ [.element name attributes (held.writtenBehind g [])]
    | none => held.writtenBehind g (before.writtenBehind g ns)
  | standalone before kind attributes =>
    match g.writtenName? kind with
    | some name => before.writtenBehind g ns ++ [.element name attributes []]
    | none => before.writtenBehind g ns
  | text before content => Node.appendText content (before.writtenBehind g ns)

theorem Content.writtenBehind_append (g : Grammar) (a b : Content) (ns : List Node) :
    (a ++ b).writtenBehind g ns = b.writtenBehind g (a.writtenBehind g ns) := by
  induction b with
  | nil => rfl
  | element before kind attributes held ihbefore ihheld => simp only [append_element, writtenBehind, ihbefore]
  | standalone before kind attributes ihbefore => simp only [append_standalone, writtenBehind, ihbefore]
  | text before content ihbefore => simp only [append_text, writtenBehind, ihbefore]

namespace TreeBuilder

theorem foldl_add_content (g : Grammar) (content : Content) (name : String) (attributes : List Attribute)
    (ns around : List Node) :
    content.events.foldl (add g) ⟨.element name attributes ns, around⟩
      =
    ⟨.element name attributes (content.writtenBehind g ns), around⟩ := by
  induction content generalizing name attributes ns around with
  | nil => rfl
  | element before kind inner held ihbefore ihheld =>
    simp only [Content.events, Content.writtenBehind, List.foldl_append, List.foldl_cons, List.foldl_nil, ihbefore]
    cases hname : g.writtenName? kind with
    | none => simp [add, hname, ihheld]
    | some written => simp [add, hname, ihheld, close, Node.addChild, Node.addChildren]
  | standalone before kind inner ihbefore =>
    simp only [Content.events, Content.writtenBehind, List.foldl_append, List.foldl_cons, List.foldl_nil, ihbefore]
    cases hname : g.writtenName? kind with
    | none => simp [add, hname]
    | some written => simp [add, hname, Node.addChild, Node.addChildren]
  | text before content ihbefore =>
    simp only [Content.events, Content.writtenBehind, List.foldl_append, List.foldl_cons, List.foldl_nil, ihbefore]
    rfl

end TreeBuilder

theorem Event.treeOf_events (g : Grammar) (content : Content) :
    treeOf g content.events = Node.fragment (content.writtenBehind g []) := by
  unfold treeOf TreeBuilder.empty Node.fragment
  rw [TreeBuilder.foldl_add_content]
  rfl

end NoteMarkup
