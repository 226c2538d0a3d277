import NoteMarkup.Html.Name
import NoteMarkup.Node.Basic

/-!
This module contains the tree of an HTML text while it is being built. Nodes are numbered in the order in
which they are made, and can be put at any place and moved from there, with everything in them.
-/

namespace NoteMarkup.Html

abbrev NodeId := Nat

inductive Content where
  /-- The document itself, or the hidden content of a template. -/
  | root
  | element (name : ElementName) (attributes : List Attribute)
  | text (content : String)
  | comment
  deriving DecidableEq, Repr

structure PageNode where
  content : Content
  parent : Option NodeId := none
  children : Array NodeId := #[]
  /-- What nodes go to that are put into a template. It is no child of the template, and is never shown. -/
  hidden : Option NodeId := none

structure Page where
  nodes : Array PageNode := #[{ content := .root }]

inductive Spot where
  | lastIn (parent : NodeId)
  | before (sibling : NodeId)
  deriving DecidableEq, Repr

namespace Page

def rootId : NodeId := 0

def content? (p : Page) (id : NodeId) : Option Content :=
  p.nodes[id]?.map (·.content)

def parent? (p : Page) (id : NodeId) : Option NodeId :=
  p.nodes[id]?.bind (·.parent)

def children (p : Page) (id : NodeId) : Array NodeId :=
  (p.nodes[id]?.map (·.children)).getD #[]

def holder (p : Page) (id : NodeId) : NodeId :=
  (p.nodes[id]?.bind (·.hidden)).getD id

def update (p : Page) (id : NodeId) (f : PageNode → PageNode) : Page :=
  { p with nodes := p.nodes.modify id f }

def nextId (p : Page) : NodeId :=
  p.nodes.size

def add (p : Page) (content : Content) : Page :=
  { p with nodes := p.nodes.push { content } }

def addElement (p : Page) (name : ElementName) (attributes : List Attribute) : Page :=
  let id := p.nextId
  let p := p.add (.element name attributes)
  if name.isTag "template" then (p.update id fun n => { n with hidden := some (id + 1) }).add .root else p

def append (p : Page) (parent child : NodeId) : Page :=
  (p.update parent fun n => { n with children := n.children.push child }).update child fun n =>
    { n with parent := some parent }

def detach (p : Page) (child : NodeId) : Page :=
  match p.parent? child with
  | none => p
  | some parent =>
    (p.update parent fun n => { n with children := n.children.erase child }).update child fun n =>
      { n with parent := none }

def insert (p : Page) (spot : Spot) (child : NodeId) : Page :=
  match spot with
  | .lastIn parent => p.append parent child
  | .before sibling =>
    match p.parent? sibling with
    | none => p
    | some parent =>
      (p.update parent fun n =>
        { n with children := n.children.insertIdxIfInBounds (n.children.idxOf sibling) child }).update child
        fun n => { n with parent := some parent }

def neighbor? (p : Page) : Spot → Option NodeId
  | .lastIn parent => (p.children parent).back?
  | .before sibling => do
    let children := p.children (← p.parent? sibling)
    let i := children.idxOf sibling
    if 0 < i then children[i - 1]? else none

def isText (p : Page) (id : NodeId) : Bool :=
  match p.content? id with
  | some (.text _) => true
  | _ => false

def insertText (p : Page) (spot : Spot) (more : String) : Page :=
  match p.neighbor? spot with
  | some id =>
    if p.isText id then
      p.update id fun
        | ⟨.text before, parent, children, hidden⟩ => ⟨.text (before ++ more), parent, children, hidden⟩
        | n => n
    else
      let added := p.nextId
      (p.add (.text more)).insert spot added
  | none =>
    let added := p.nextId
    (p.add (.text more)).insert spot added

def moveChildren (p : Page) (source target : NodeId) : Page :=
  let moved := p.children source
  let p := moved.foldl (fun p child => p.update child fun n => { n with parent := some target }) p
  (p.update source fun n => { n with children := #[] }).update target fun n =>
    { n with children := n.children ++ moved }

def addMissing (p : Page) (id : NodeId) (more : List Attribute) : Page :=
  p.update id fun
    | ⟨.element name attributes, parent, children, hidden⟩ =>
      let missing := more.filter fun a => !(attributes.any (·.name == a.name))
      ⟨.element name (attributes ++ missing), parent, children, hidden⟩
    | n => n

structure Copying where
  name : String
  attributes : List Attribute
  copied : List Node
  pending : List NodeId

/-- Copies what is pending, and then the elements around it. Every node is taken up once and left once at
most. -/
def copy (p : Page) : Nat → Copying → List Copying → List Node
  | 0, c, _ => c.copied.reverse
  | fuel + 1, c, around =>
    match c.pending, around with
    | [], [] => c.copied.reverse
    | [], outer :: around =>
      let node := Node.element c.name c.attributes c.copied.reverse
      copy p fuel { outer with copied := node :: outer.copied } around
    | id :: pending, around =>
      let rest := { c with pending }
      match p.content? id with
      | some (.element name attributes) =>
        copy p fuel ⟨name.tag, attributes, [], (p.children id).toList⟩ (rest :: around)
      | some (.text content) => copy p fuel { rest with copied := .text content :: c.copied } around
      | _ => copy p fuel rest around

def contentOf (p : Page) (id : NodeId) : List Node :=
  p.copy (2 * p.nodes.size + 1) ⟨"", [], [], (p.children id).toList⟩ []

def firstNamed? (p : Page) (tag : String) : Nat → List NodeId → Option NodeId
  | 0, _ => none
  | _, [] => none
  | fuel + 1, id :: pending =>
    match p.content? id with
    | some (.element name _) =>
      if name.tag == tag then some id else firstNamed? p tag fuel ((p.children id).toList ++ pending)
    | some .root => firstNamed? p tag fuel ((p.children id).toList ++ pending)
    | _ => firstNamed? p tag fuel pending

/-- What the body of the document holds. A document without one is kept whole. -/
def shown (p : Page) : List Node :=
  p.contentOf ((p.firstNamed? "body" (p.nodes.size + 1) [rootId]).getD rootId)

end Page

end NoteMarkup.Html
