import NoteMarkup.Proofs.Schema
import NoteMarkup.Proofs.Texts

/-!
This module contains what the tree of any list of events is like, whether the events are balanced or not. All nodes
under construction are elements, so that nothing put into them is lost: every text and every element of the events is
in the tree, in the same order, and text never stands beside text.
-/

namespace NoteMarkup

def Event.writtenElement? (g : Grammar) : Event → Option (String × List Attribute)
  | startTag kind attributes | standaloneTag kind attributes => (g.writtenName? kind).map (·, attributes)
  | endTag _ | text _ => none

def SourceEvent.entered? : SourceEvent → Option (String × List Attribute)
  | enter name attributes => some (name, attributes)
  | leave _ | text _ => none

namespace Node

def elements (n : Node) : List (String × List Attribute) :=
  n.sourceEvents.filterMap SourceEvent.entered?

def elementsAll (ns : List Node) : List (String × List Attribute) :=
  (sourceEventsAll ns).filterMap SourceEvent.entered?

@[simp]
theorem elements_element (name : String) (attributes : List Attribute) (children : List Node) :
    (element name attributes children).elements = (name, attributes) :: elementsAll children := by
  simp [elements, elementsAll, sourceEvents, SourceEvent.entered?]

@[simp]
theorem elementsAll_nil : elementsAll [] = [] := rfl

theorem elementsAll_snoc (ns : List Node) (n : Node) : elementsAll (ns ++ [n]) = elementsAll ns ++ n.elements := by
  simp [elementsAll, elements, sourceEventsAll]

theorem elementsAll_appendText (content : String) (ns : List Node) :
    elementsAll (appendText content ns) = elementsAll ns := by
  have htext (s : String) : (text s).elements = [] := rfl
  rcases endsInText_cases ns with ⟨init, before, rfl⟩ | hends
  . simp [appendText_snoc, elementsAll_snoc, htext]
  . simp [appendText_of_not_endsInText hends, elementsAll_snoc, htext]

theorem join_textsAll_appendText (content : String) (ns : List Node) :
    String.join (textsAll (appendText content ns)) = String.join (textsAll ns) ++ content := by
  rcases endsInText_cases ns with ⟨init, before, rfl⟩ | hends
  . simp [appendText_snoc, textsAll_append, textsAll, texts, String.append_assoc]
  . simp [appendText_of_not_endsInText hends, textsAll_append, textsAll, texts]

theorem textContent_addChild {parent : Node} (child : Node) (h : parent.isElement) :
    (parent.addChild child).textContent = parent.textContent ++ child.textContent := by
  cases parent with
  | element name attributes children =>
    simp [textContent_eq, addChild, addChildren, texts, textsAll_append, textsAll]
  | text content => cases h

theorem textContent_addText {n : Node} (content : String) (h : n.isElement) :
    (n.addText content).textContent = n.textContent ++ content := by
  cases n with
  | element name attributes children => simp [textContent_eq, addText, texts, join_textsAll_appendText]
  | text before => cases h

theorem textContent_childless (name : String) (attributes : List Attribute) :
    (element name attributes []).textContent = "" := by
  simp [textContent_eq, texts, textsAll]

end Node

mutual

def Node.TextsApart : Node → Prop
  | .element _ _ children => Schema.TextsApart children ∧ Node.AllTextsApart children
  | .text _ => True

def Node.AllTextsApart : List Node → Prop
  | [] => True
  | n :: ns => n.TextsApart ∧ Node.AllTextsApart ns

end

namespace Node

theorem allTextsApart_snoc {ns : List Node} {n : Node} :
    AllTextsApart (ns ++ [n]) ↔ AllTextsApart ns ∧ n.TextsApart := by
  induction ns with
  | nil => simp [AllTextsApart]
  | cons m ns ih => simp [AllTextsApart, ih, and_assoc]

structure Tidy (n : Node) : Prop where
  isElement : n.isElement
  textsApart : n.TextsApart

theorem tidy_childless (name : String) (attributes : List Attribute) : (element name attributes []).Tidy :=
  ⟨rfl, .nil, trivial⟩

theorem Tidy.addChild {parent child : Node} (h : parent.Tidy) (hchild : child.Tidy) : (parent.addChild child).Tidy := by
  cases parent with
  | element name attributes children =>
    have happart := Schema.textsApart_snoc h.textsApart.1 (.inl hchild.isElement)
    exact ⟨rfl, happart, allTextsApart_snoc.mpr ⟨h.textsApart.2, hchild.textsApart⟩⟩
  | text content => exact h

theorem Tidy.addText {n : Node} (h : n.Tidy) (content : String) : (n.addText content).Tidy := by
  cases n with
  | text before => exact h
  | element name attributes children =>
    rcases h.textsApart with ⟨hchildren, hall⟩
    refine ⟨rfl, ?_⟩
    rw [Node.addText, TextsApart]
    rcases endsInText_cases children with ⟨init, before, rfl⟩ | hends
    . -- The longer text stands where the text stood.
      rw [appendText_snoc]
      refine ⟨?_, allTextsApart_snoc.mpr ⟨(allTextsApart_snoc.mp hall).1, trivial⟩⟩
      unfold Schema.TextsApart at hchildren ⊢
      rw [List.isChain_append] at hchildren ⊢
      refine ⟨hchildren.1, List.isChain_singleton _, ?_⟩
      intro last hlast m hm
      cases hm
      exact hchildren.2.2 last hlast (.text before) rfl
    . rw [appendText_of_not_endsInText hends]
      exact ⟨Schema.textsApart_snoc hchildren (.inr hends), allTextsApart_snoc.mpr ⟨hall, trivial⟩⟩

end Node

namespace TreeBuilder

variable {g : Grammar} {b : TreeBuilder}

def Tidy (b : TreeBuilder) : Prop :=
  ∀ n ∈ b.current :: b.around, n.Tidy

namespace Tidy

theorem empty : TreeBuilder.empty.Tidy := by
  intro n hn
  cases List.mem_singleton.mp hn
  exact Node.tidy_childless _ _

theorem withCurrent (h : b.Tidy) {n : Node} (hn : n.Tidy) : Tidy { b with current := n } :=
  List.forall_mem_cons.mpr ⟨hn, (List.forall_mem_cons.mp h).2⟩

theorem close (h : b.Tidy) : b.close.Tidy := by
  rcases b with ⟨current, _ | ⟨parent, around⟩⟩
  . exact h
  . rcases List.forall_mem_cons.mp h with ⟨hcurrent, haround⟩
    rcases List.forall_mem_cons.mp haround with ⟨hparent, houter⟩
    exact List.forall_mem_cons.mpr ⟨hparent.addChild hcurrent, houter⟩

theorem add (h : b.Tidy) (e : Event) : (b.add g e).Tidy := by
  have hcurrent : b.current.Tidy := h b.current (by simp)
  cases e with
  | startTag kind attributes =>
    unfold TreeBuilder.add
    dsimp only
    split
    . next name _ => exact List.forall_mem_cons.mpr ⟨Node.tidy_childless name attributes, h⟩
    . exact h
  | endTag kind =>
    unfold TreeBuilder.add
    dsimp only
    split
    . exact h.close
    . exact h
  | standaloneTag kind attributes =>
    unfold TreeBuilder.add
    dsimp only
    split
    . next name _ => exact h.withCurrent (hcurrent.addChild (Node.tidy_childless name attributes))
    . exact h
  | text content => exact h.withCurrent (hcurrent.addText content)

theorem foldl_add (h : b.Tidy) (events : List Event) : (events.foldl (TreeBuilder.add g) b).Tidy := by
  induction events generalizing b with
  | nil => exact h
  | cons e events ih => exact ih (h.add e)

theorem finish (h : b.Tidy) : b.finish.Tidy := by
  rcases b with ⟨current, around⟩
  induction around generalizing current with
  | nil => exact h current (by simp)
  | cons parent around ih => exact ih (parent.addChild current) h.close

end Tidy

variable {α : Type} {ofNode : Node → List α} {ofEvent : Event → List α}

/-- Whether what is gathered from a tree of events can be gathered from the events: what a node adds to it comes
behind what is there, wherever the node is put. -/
structure Gathers (g : Grammar) (ofNode : Node → List α) (ofEvent : Event → List α) : Prop where
  addChild : ∀ {parent} child, parent.isElement → ofNode (parent.addChild child) = ofNode parent ++ ofNode child
  addText : ∀ {n} content, n.isElement → ofNode (n.addText content) = ofNode n ++ ofEvent (.text content)
  startTag : ∀ kind attributes, ofEvent (.startTag kind attributes)
    = ((g.writtenName? kind).map fun name => ofNode (.element name attributes [])).getD []
  standaloneTag : ∀ kind attributes, ofEvent (.standaloneTag kind attributes) = ofEvent (.startTag kind attributes)
  endTag : ∀ kind, ofEvent (.endTag kind) = []

def gathered (ofNode : Node → List α) (b : TreeBuilder) : List α :=
  b.around.reverse.flatMap ofNode ++ ofNode b.current

namespace Gathers

variable (hgathers : Gathers g ofNode ofEvent)

include hgathers

theorem close (h : b.Tidy) : b.close.gathered ofNode = b.gathered ofNode := by
  rcases b with ⟨current, _ | ⟨parent, around⟩⟩
  . rfl
  . have hparent : parent.Tidy := h parent (by simp)
    simp [gathered, TreeBuilder.close, hgathers.addChild current hparent.isElement]

theorem add (h : b.Tidy) (e : Event) : (b.add g e).gathered ofNode = b.gathered ofNode ++ ofEvent e := by
  have hcurrent : b.current.Tidy := h b.current (by simp)
  cases e with
  | startTag kind attributes =>
    rw [hgathers.startTag]
    cases hname : g.writtenName? kind with
    | none => simp [TreeBuilder.add, hname]
    | some name => simp [TreeBuilder.add, hname, gathered]
  | endTag kind =>
    rw [hgathers.endTag, List.append_nil]
    unfold TreeBuilder.add
    dsimp only
    split
    . exact hgathers.close h
    . rfl
  | standaloneTag kind attributes =>
    rw [hgathers.standaloneTag, hgathers.startTag]
    cases hname : g.writtenName? kind with
    | none => simp [TreeBuilder.add, hname]
    | some name => simp [TreeBuilder.add, hname, gathered, hgathers.addChild _ hcurrent.isElement]
  | text content => simp [TreeBuilder.add, gathered, hgathers.addText content hcurrent.isElement]

theorem foldl_add (h : b.Tidy) (events : List Event) :
    (events.foldl (TreeBuilder.add g) b).gathered ofNode = b.gathered ofNode ++ events.flatMap ofEvent := by
  induction events generalizing b with
  | nil => simp
  | cons e events ih => rw [List.foldl_cons, ih (h.add e), hgathers.add h, List.flatMap_cons, List.append_assoc]

theorem finish (h : b.Tidy) : ofNode b.finish = b.gathered ofNode := by
  rcases b with ⟨current, around⟩
  induction around generalizing current with
  | nil => rfl
  | cons parent around ih => exact (ih (parent.addChild current) h.close).trans (hgathers.close h)

theorem treeOf (events : List Event) :
    ofNode (Event.treeOf g events) = ofNode (.fragment []) ++ events.flatMap ofEvent := by
  unfold Event.treeOf
  rw [hgathers.finish (Tidy.empty.foldl_add events), hgathers.foldl_add Tidy.empty]
  rfl

end Gathers

theorem gathers_elements : Gathers g Node.elements fun e => (e.writtenElement? g).toList where
  addChild := by
    intro parent child h
    cases parent with
    | element name attributes children => simp [Node.addChild, Node.addChildren, Node.elementsAll_snoc]
    | text content => cases h
  addText := by
    intro n content h
    cases n with
    | element name attributes children =>
      simp [Node.addText, Node.elementsAll_appendText, Event.writtenElement?]
    | text before => cases h
  startTag := by
    intro kind attributes
    cases hname : g.writtenName? kind <;> simp [Event.writtenElement?, hname]
  standaloneTag := fun _ _ => rfl
  endTag := fun _ => rfl

theorem gathers_text : Gathers g (·.textContent.toList) fun e => (e.text?.getD "").toList where
  addChild := by
    intro parent child h
    rw [Node.textContent_addChild child h, String.toList_append]
  addText := by
    intro n content h
    rw [Node.textContent_addText content h, String.toList_append]
    rfl
  startTag := by
    intro kind attributes
    cases g.writtenName? kind <;> simp [Event.text?, Node.textContent_childless]
  standaloneTag := fun _ _ => rfl
  endTag := fun _ => rfl

end TreeBuilder

theorem Event.join_texts (events : List Event) :
    (String.join (texts events)).toList = events.flatMap fun e => (e.text?.getD "").toList := by
  induction events with
  | nil => rfl
  | cons e events ih => cases h : e.text? <;> simp [h, ih]

theorem Event.tree_keeps_texts_and_elements (g : Grammar) (events : List Event) :
    ∃ children,
      treeOf g events = .fragment children
        ∧ (treeOf g events).textContent = String.join (texts events)
        ∧ (treeOf g events).TextsApart
        ∧ Node.elementsAll children = events.filterMap (writtenElement? g) := by
  have htidy : (treeOf g events).Tidy := (TreeBuilder.Tidy.empty.foldl_add events).finish
  have helements := TreeBuilder.gathers_elements.treeOf (g := g) events
  have htext := TreeBuilder.gathers_text.treeOf (g := g) events
  rw [Node.fragment, Node.textContent_childless, ← join_texts] at htext
  cases htree : treeOf g events with
  | text content =>
    rw [htree] at htidy
    cases htidy.isElement
  | element name attributes children =>
    rw [htree] at htidy helements htext
    -- The first of the elements is the root itself.
    rw [Node.fragment, Node.elements_element, Node.elements_element] at helements
    simp only [Node.elementsAll_nil, List.cons_append, List.nil_append, List.cons.injEq, Prod.mk.injEq] at helements
    rcases helements with ⟨⟨rfl, rfl⟩, hchildren⟩
    refine ⟨children, rfl, String.toList_inj.mp (by simpa using htext), htidy.textsApart, ?_⟩
    rw [hchildren, List.filterMap_eq_flatMap_toList]

-- A paragraph is closed that was never opened, and two elements are left open, of which `ul` is not written.
example :
    Event.treeOf .standard [.endTag .p, .text "a", .startTag .h1 [], .startTag .ul [], .text "b", .text "c"]
      =
    .fragment [.text "a", .element "h1" [] [.text "bc"]] := by
  rfl

end NoteMarkup
