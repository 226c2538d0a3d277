import NoteMarkup.Node.Attribute
import NoteMarkup.Text.Quoted

/-!
This module contains markup trees: a node is a run of text or an element with a name, attributes and
children. Operations that only make sense for elements leave text as it is.
-/

namespace NoteMarkup

inductive Node where
  | element (name : String) (attributes : List Attribute) (children : List Node)
  | text (content : String)
  deriving Inhabited

inductive NodeError where
  /-- A text node; `start` is the beginning of its content. -/
  | notAnElement (start : String)
  deriving DecidableEq, Repr

def NodeError.message : NodeError → String
  | .notAnElement start => "Expected an element node, found text " ++ Text.quoted start

namespace Node

def fragmentTag : String :=
  "#document-fragment"

def fragment (children : List Node) : Node :=
  .element fragmentTag [] children

def isElement : Node → Bool
  | .element .. => true
  | .text _ => false

def name? : Node → Option String
  | .element name _ _ => some name
  | .text _ => none

def isFragment (n : Node) : Bool :=
  n.name? == some fragmentTag

def attributes : Node → List Attribute
  | .element _ attributes _ => attributes
  | .text _ => []

def children : Node → List Node
  | .element _ _ children => children
  | .text _ => []

def attribute? (n : Node) (name : String) : Option String :=
  Attribute.lookup? n.attributes name

def addAttributes (n : Node) (more : List Attribute) : Node :=
  match n with
  | .element name attributes children => .element name (attributes ++ more) children
  | .text content => .text content

def addChildren (n : Node) (more : List Node) : Node :=
  match n with
  | .element name attributes children => .element name attributes (children ++ more)
  | .text content => .text content

def addChild (n child : Node) : Node :=
  n.addChildren [child]

def appendText (content : String) : List Node → List Node
  | [] => [.text content]
  | [.text before] => [.text (before ++ content)]
  | n :: ns => n :: appendText content ns

def addText (n : Node) (content : String) : Node :=
  match n with
  | .element name attributes children => .element name attributes (appendText content children)
  | .text before => .text before

def shownLength : Nat := 32

def elementChildren : Node → Except NodeError (List Node)
  | .element _ _ children => .ok children
  | .text content => .error (.notAnElement (String.ofList (content.toList.take shownLength)))

end Node

mutual

/-- Number of nodes in a tree, elements counted five times. It bounds the work of every walk over the
tree, whatever the walk puts aside for an element while it is below it. -/
def Node.weight : Node → Nat
  | .element _ _ children => 5 + Node.weightAll children
  | .text _ => 1

def Node.weightAll : List Node → Nat
  | [] => 0
  | n :: ns => n.weight + Node.weightAll ns

end

mutual

def Node.beq : Node → Node → Bool
  | .element n as cs, .element m bs ds => n == m && as == bs && Node.beqAll cs ds
  | .text s, .text t => s == t
  | _, _ => false

def Node.beqAll : List Node → List Node → Bool
  | [], [] => true
  | n :: ns, m :: ms => n.beq m && Node.beqAll ns ms
  | _, _ => false

end

instance : BEq Node := ⟨Node.beq⟩

theorem Node.weightAll_append (ns ms : List Node) :
    weightAll (ns ++ ms) = weightAll ns + weightAll ms := by
  induction ns with
  | nil => simp [weightAll]
  | cons n ns ih => simp [weightAll, ih]; omega

/-- The texts of a list of pending nodes, in document order. The nodes still to visit are kept in a list,
so the depth of the tree does not matter. -/
def Node.gatherText (gathered : String) : List Node → String
  | [] => gathered
  | .text content :: pending => gatherText (gathered ++ content) pending
  | .element _ _ children :: pending => gatherText gathered (children ++ pending)
termination_by pending => Node.weightAll pending
decreasing_by
  all_goals simp [Node.weightAll_append, Node.weightAll, Node.weight]

def Node.textContent (n : Node) : String :=
  Node.gatherText "" [n]

end NoteMarkup
