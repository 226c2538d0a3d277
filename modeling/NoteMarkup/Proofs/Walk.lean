import NoteMarkup.SourceEvent

/-!
This module contains the events of a source tree by recursion on the tree, and that the walk, which keeps the
levels around a node in a list, comes to the same. The elements that are entered and the texts are those of the tree.
-/

namespace NoteMarkup

mutual

def Node.sourceEvents : Node → List SourceEvent
  | .element name attributes children => .enter name attributes :: (Node.sourceEventsAll children ++ [.leave name])
  | .text content => [.text content]

def Node.sourceEventsAll : List Node → List SourceEvent
  | [] => []
  | n :: ns => n.sourceEvents ++ Node.sourceEventsAll ns

end

@[simp]
theorem Node.sourceEventsAll_append (ns ms : List Node) :
    sourceEventsAll (ns ++ ms) = sourceEventsAll ns ++ sourceEventsAll ms := by
  induction ns with
  | nil => rfl
  | cons n ns ih => simp [sourceEventsAll, ih]

namespace SourceEvent

theorem collect_toList (events : Array SourceEvent) (here : List Node) (levels : List Level) :
    (collect events here levels).toList
      =
    events.toList ++ Node.sourceEventsAll here
      ++ levels.flatMap fun l => .leave l.name :: Node.sourceEventsAll l.rest := by
  fun_induction collect events here levels with
  | case1 events content here levels ih =>
    rw [ih]
    simp [Node.sourceEventsAll, Node.sourceEvents]
  | case2 events name attributes children here levels ih =>
    rw [ih]
    simp [Node.sourceEventsAll, Node.sourceEvents]
  | case3 events name rest levels ih =>
    rw [ih]
    simp [Node.sourceEventsAll]
  | case4 events => simp [Node.sourceEventsAll]

theorem ofNodes_eq (nodes : List Node) : ofNodes nodes = Node.sourceEventsAll nodes := by
  unfold ofNodes
  rw [collect_toList]
  simp

end SourceEvent

mutual

def Node.elementNames : Node → List String
  | .element name _ children => name :: Node.elementNamesAll children
  | .text _ => []

def Node.elementNamesAll : List Node → List String
  | [] => []
  | n :: ns => n.elementNames ++ Node.elementNamesAll ns

end

mutual

theorem Node.mem_elementNames {name : String} {source : List Attribute} :
    ∀ n : Node, .enter name source ∈ n.sourceEvents → name ∈ n.elementNames
  | .element _ _ children, h => by
    simp only [sourceEvents, List.mem_cons, SourceEvent.enter.injEq, List.mem_append, List.not_mem_nil, or_false,
      reduceCtorEq] at h
    rcases h with ⟨rfl, -⟩ | h
    . simp [elementNames]
    . simp [elementNames, mem_elementNamesAll children h]
  | .text _, h => by simp [sourceEvents] at h

theorem Node.mem_elementNamesAll {name : String} {source : List Attribute} :
    ∀ ns : List Node, .enter name source ∈ sourceEventsAll ns → name ∈ elementNamesAll ns
  | [], h => by simp [sourceEventsAll] at h
  | n :: ns, h => by
    simp only [sourceEventsAll, List.mem_append] at h
    rcases h with h | h
    . simp [elementNamesAll, mem_elementNames n h]
    . simp [elementNamesAll, mem_elementNamesAll ns h]

end

mutual

def Node.texts : Node → List String
  | .element _ _ children => Node.textsAll children
  | .text content => [content]

def Node.textsAll : List Node → List String
  | [] => []
  | n :: ns => n.texts ++ Node.textsAll ns

end

theorem Node.textsAll_append (ns ms : List Node) : textsAll (ns ++ ms) = textsAll ns ++ textsAll ms := by
  induction ns with
  | nil => rfl
  | cons n ns ih => simp [textsAll, ih]

theorem Node.gatherText_eq (gathered : String) (ns : List Node) :
    gatherText gathered ns = gathered ++ String.join (textsAll ns) := by
  fun_induction gatherText gathered ns with
  | case1 gathered => simp [textsAll]
  | case2 gathered content pending ih =>
    rw [ih]
    simp [textsAll, texts, String.append_assoc]
  | case3 gathered name attributes children pending ih =>
    rw [ih]
    simp [textsAll, texts, textsAll_append]

theorem Node.textContent_eq (n : Node) : n.textContent = String.join n.texts := by
  unfold textContent
  rw [gatherText_eq]
  simp [textsAll]

def SourceEvent.text? : SourceEvent → Option String
  | text content => some content
  | enter .. | leave _ => none

mutual

theorem Node.filterMap_text?_sourceEvents : ∀ n : Node, n.sourceEvents.filterMap SourceEvent.text? = n.texts
  | .element _ _ children => by
    have hchildren := filterMap_text?_sourceEventsAll children
    simp [sourceEvents, texts, List.filterMap_cons, SourceEvent.text?, hchildren]
  | .text _ => rfl

theorem Node.filterMap_text?_sourceEventsAll :
    ∀ ns : List Node, (sourceEventsAll ns).filterMap SourceEvent.text? = textsAll ns
  | [] => rfl
  | n :: ns => by
    simp [sourceEventsAll, textsAll, filterMap_text?_sourceEvents n, filterMap_text?_sourceEventsAll ns]

end

theorem SourceEvent.walk_in_document_order (name : String) (attributes : List Attribute) (children : List Node) :
    ∃ events,
      ofRoot (.element name attributes children) = .ok events
        ∧ events = Node.sourceEventsAll children
        ∧ String.join (events.filterMap text?) = (Node.element name attributes children).textContent := by
  refine ⟨ofNodes children, rfl, ofNodes_eq children, ?_⟩
  rw [ofNodes_eq, Node.filterMap_text?_sourceEventsAll, Node.textContent_eq]
  rfl

end NoteMarkup
