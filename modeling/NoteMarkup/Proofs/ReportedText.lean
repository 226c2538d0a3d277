import Mathlib.Data.List.Flatten
import NoteMarkup.Proofs.MarkupRoundTrip
import NoteMarkup.Proofs.Schema
import NoteMarkup.Proofs.Texts
import NoteMarkup.Proofs.XmlRoundTrip

/-!
This module contains which texts of a cleaned document are reported in a walk over it, and so which are exported. A
walk reports no text between blocks. In a cleaned document nothing but blocks may stand outside of any element, but
inside of a block a line may come again behind blocks, and this line is lost.
-/

namespace NoteMarkup

def Token.text? : Token → Option String
  | .text content => some content
  | .start .. | .single .. | .ending _ => none

theorem Token.join_before (t : Token) (ts : List Token) :
    String.join ((t.before ts).filterMap text?) = String.join (t.text?.toList ++ ts.filterMap text?) := by
  cases t with
  | text content =>
    rcases ts with _ | ⟨t, ts⟩
    . rfl
    . cases t <;> simp [before, List.filterMap_cons, text?, String.append_assoc]
  | _ => simp [before, List.filterMap_cons, text?]

theorem Token.join_joined (ts : List Token) :
    String.join ((joined ts).filterMap text?) = String.join (ts.filterMap text?) := by
  induction ts with
  | nil => rfl
  | cons t ts ih =>
    show String.join ((t.before (joined ts)).filterMap text?) = _
    rw [join_before, String.join_append, ih]
    cases h : t.text? <;> simp [h]

def Report.text? : Report → Option String
  | .text content => some content
  | .blockStart _ | .blockEnd _ | .inlineStart _ | .inlineEnd _ => none

def Report.texts (reports : List Report) : List String :=
  reports.filterMap text?

theorem Report.texts_token (reports : List Report) :
    (reports.map token).filterMap Token.text? = texts reports := by
  have htext : Token.text? ∘ token = text? := by
    funext r
    cases r <;> rfl
  rw [List.filterMap_map, htext]
  rfl

@[simp]
theorem Report.texts_nil : texts [] = [] := rfl

@[simp]
theorem Report.texts_cons (r : Report) (reports : List Report) :
    texts (r :: reports) = r.text?.toList ++ texts reports := by
  cases h : r.text? <;> simp [texts, h]

@[simp]
theorem Report.texts_append (first second : List Report) : texts (first ++ second) = texts first ++ texts second := by
  simp [texts]

namespace Node

mutual

/-- The tree without what stands behind blocks and is no block itself. -/
def pruned : Node → Node
  | .text content => .text content
  | .element name attributes children => .element name attributes (prunedContent children)

def prunedContent : List Node → List Node
  | [] => []
  | n :: ns => if n.isNoBlock then n.pruned :: prunedContent ns else n.pruned :: prunedBlocks ns

def prunedBlocks : List Node → List Node
  | [] => []
  | n :: ns => if n.isNoBlock then prunedBlocks ns else n.pruned :: prunedBlocks ns

end

mutual

def BlocksLast : Node → Prop
  | .text _ => True
  | .element _ _ children => LineThenBlocks children

def LineThenBlocks : List Node → Prop
  | [] => True
  | n :: ns => n.BlocksLast ∧ if n.isNoBlock then LineThenBlocks ns else OnlyBlocks ns

def OnlyBlocks : List Node → Prop
  | [] => True
  | n :: ns => n.isNoBlock = false ∧ n.BlocksLast ∧ OnlyBlocks ns

end

mutual

/-- Whether there is no empty text in the tree, and in elements that are no blocks there is something, but no
block. -/
def Regular : Node → Prop
  | .text content => content ≠ ""
  | .element name _ children =>
    (BlockKind.ofName? name = none → children ≠ [] ∧ children.all isNoBlock) ∧ RegularAll children

def RegularAll : List Node → Prop
  | [] => True
  | n :: ns => n.Regular ∧ RegularAll ns

end

section

open Report

mutual

theorem texts_reportsInLine : ∀ n : Node, n.Regular → Report.texts n.reportsInLine = n.texts
  | .text content, h => by
    have hne : content.isEmpty = false := by simpa [Regular] using h
    simp [reportsInLine, hne, text?, Node.texts]
  | .element name attributes children, h => by
    have hchildren := texts_reportsOfLine children h.2
    unfold reportsInLine
    split <;> simp [hchildren, text?, Node.texts]

theorem texts_reportsOfLine : ∀ ns : List Node, RegularAll ns → Report.texts (reportsOfLine ns) = textsAll ns
  | [], _ => rfl
  | n :: ns, h => by simp [reportsOfLine, textsAll, texts_reportsInLine n h.1, texts_reportsOfLine ns h.2]

end

mutual

theorem texts_reportsAsBlock_of_isNoBlock :
    ∀ n : Node, n.Regular → n.isNoBlock → Report.texts n.reportsAsBlock = []
  | .text content, _, _ => rfl
  | .element name attributes children, h, hn => by
    have hnone : BlockKind.ofName? name = none := by simpa [isNoBlock, blockKind?, name?] using hn
    unfold reportsAsBlock
    rw [hnone]
    exact texts_reportsOfBlocks_of_isNoBlock children h.2 (h.1 hnone).2

theorem texts_reportsOfBlocks_of_isNoBlock :
    ∀ ns : List Node, RegularAll ns → ns.all isNoBlock → Report.texts (reportsOfBlocks ns) = []
  | [], _, _ => rfl
  | n :: ns, h, hns => by
    rw [List.all_cons, Bool.and_eq_true] at hns
    simp [reportsOfBlocks, texts_reportsAsBlock_of_isNoBlock n h.1 hns.1,
      texts_reportsOfBlocks_of_isNoBlock ns h.2 hns.2]

end

mutual

theorem pruned_of_isNoBlock : ∀ n : Node, n.Regular → n.isNoBlock → n.pruned = n
  | .text content, _, _ => rfl
  | .element name attributes children, h, hn => by
    have hnone : BlockKind.ofName? name = none := by simpa [isNoBlock, blockKind?, name?] using hn
    rw [pruned, prunedContent_of_isNoBlock children h.2 (h.1 hnone).2]

theorem prunedContent_of_isNoBlock : ∀ ns : List Node, RegularAll ns → ns.all isNoBlock → prunedContent ns = ns
  | [], _, _ => rfl
  | n :: ns, h, hns => by
    rw [List.all_cons, Bool.and_eq_true] at hns
    rw [prunedContent, if_pos hns.1, pruned_of_isNoBlock n h.1 hns.1, prunedContent_of_isNoBlock ns h.2 hns.2]

end

mutual

theorem texts_reportsAsBlock : ∀ n : Node, n.Regular → n.isNoBlock = false →
    Report.texts n.reportsAsBlock = n.pruned.texts
  | .text content, _, hn => by cases hn
  | .element name attributes children, h, hn => by
    have hsome : (BlockKind.ofName? name).isSome := by
      simpa [isNoBlock, blockKind?, name?, Option.isSome_iff_ne_none] using hn
    rw [Option.isSome_iff_exists] at hsome
    rcases hsome with ⟨kind, hkind⟩
    simp [reportsAsBlock, hkind, pruned, Node.texts, text?, texts_reportsOfContent children h.2]

theorem texts_reportsOfContent : ∀ ns : List Node, RegularAll ns →
    Report.texts (reportsOfContent ns) = textsAll (prunedContent ns)
  | [], _ => rfl
  | n :: ns, h => by
    unfold reportsOfContent prunedContent
    split
    . next hn =>
      rw [pruned_of_isNoBlock n h.1 hn]
      simp [textsAll, texts_reportsInLine n h.1, texts_reportsOfContent ns h.2]
    . next hn =>
      simp [textsAll, texts_reportsAsBlock n h.1 (by simpa using hn), texts_reportsOfBlocks ns h.2]

theorem texts_reportsOfBlocks : ∀ ns : List Node, RegularAll ns →
    Report.texts (reportsOfBlocks ns) = textsAll (prunedBlocks ns)
  | [], _ => rfl
  | n :: ns, h => by
    unfold reportsOfBlocks prunedBlocks
    split
    . next hn => simp [texts_reportsAsBlock_of_isNoBlock n h.1 hn, texts_reportsOfBlocks ns h.2]
    . next hn => simp [textsAll, texts_reportsAsBlock n h.1 (by simpa using hn), texts_reportsOfBlocks ns h.2]

end

end

mutual

theorem texts_ne_nil_of_isNoBlock : ∀ n : Node, n.Regular → n.isNoBlock → n.texts ≠ []
  | .text content, _, _ => by simp [Node.texts]
  | .element name attributes children, h, hn => by
    have hnone : BlockKind.ofName? name = none := by simpa [isNoBlock, blockKind?, name?] using hn
    have hchildren := h.1 hnone
    exact textsAll_ne_nil_of_isNoBlock children h.2 hchildren.2 hchildren.1

theorem textsAll_ne_nil_of_isNoBlock :
    ∀ ns : List Node, RegularAll ns → ns.all isNoBlock → ns ≠ [] → textsAll ns ≠ []
  | [], _, _, hne => absurd rfl hne
  | n :: ns, h, hns, _ => by
    rw [List.all_cons, Bool.and_eq_true] at hns
    simp [textsAll, texts_ne_nil_of_isNoBlock n h.1 hns.1]

end

mutual

theorem texts_pruned_sublist : ∀ n : Node, n.pruned.texts.Sublist n.texts
  | .text _ => .refl _
  | .element _ _ children => textsAll_prunedContent_sublist children

theorem textsAll_prunedContent_sublist : ∀ ns : List Node, (textsAll (prunedContent ns)).Sublist (textsAll ns)
  | [] => .refl _
  | n :: ns => by
    unfold prunedContent
    split
    . exact (texts_pruned_sublist n).append (textsAll_prunedContent_sublist ns)
    . exact (texts_pruned_sublist n).append (textsAll_prunedBlocks_sublist ns)

theorem textsAll_prunedBlocks_sublist : ∀ ns : List Node, (textsAll (prunedBlocks ns)).Sublist (textsAll ns)
  | [] => .refl _
  | n :: ns => by
    unfold prunedBlocks
    split
    . exact (textsAll_prunedBlocks_sublist ns).trans (List.sublist_append_right _ _)
    . exact (texts_pruned_sublist n).append (textsAll_prunedBlocks_sublist ns)

end

mutual

theorem blocksLast_of_length : ∀ n : Node, n.Regular → n.pruned.texts.length = n.texts.length → n.BlocksLast
  | .text _, _, _ => trivial
  | .element _ _ children, h, hlength => lineThenBlocks_of_length children h.2 hlength

theorem lineThenBlocks_of_length : ∀ ns : List Node, RegularAll ns →
    (textsAll (prunedContent ns)).length = (textsAll ns).length → LineThenBlocks ns
  | [], _, _ => trivial
  | n :: ns, h, hlength => by
    have hfirst := (texts_pruned_sublist n).length_le
    unfold prunedContent at hlength
    unfold LineThenBlocks
    split at hlength
    . next hn =>
      have hrest := (textsAll_prunedContent_sublist ns).length_le
      simp only [textsAll, List.length_append] at hlength
      rw [if_pos hn]
      exact ⟨blocksLast_of_length n h.1 (by omega), lineThenBlocks_of_length ns h.2 (by omega)⟩
    . next hn =>
      have hrest := (textsAll_prunedBlocks_sublist ns).length_le
      simp only [textsAll, List.length_append] at hlength
      rw [if_neg hn]
      exact ⟨blocksLast_of_length n h.1 (by omega), onlyBlocks_of_length ns h.2 (by omega)⟩

theorem onlyBlocks_of_length : ∀ ns : List Node, RegularAll ns →
    (textsAll (prunedBlocks ns)).length = (textsAll ns).length → OnlyBlocks ns
  | [], _, _ => trivial
  | n :: ns, h, hlength => by
    have hrest := (textsAll_prunedBlocks_sublist ns).length_le
    unfold prunedBlocks at hlength
    split at hlength
    . next hn =>
      -- What is lost here cannot be made up for later.
      have hne := List.length_pos_of_ne_nil (texts_ne_nil_of_isNoBlock n h.1 hn)
      simp only [textsAll, List.length_append] at hlength
      omega
    . next hn =>
      have hfirst := (texts_pruned_sublist n).length_le
      simp only [textsAll, List.length_append] at hlength
      exact ⟨by simpa using hn, blocksLast_of_length n h.1 (by omega), onlyBlocks_of_length ns h.2 (by omega)⟩

end

mutual

theorem pruned_of_blocksLast : ∀ n : Node, n.BlocksLast → n.pruned = n
  | .text _, _ => rfl
  | .element _ _ children, h => by rw [pruned, prunedContent_of_lineThenBlocks children h]

theorem prunedContent_of_lineThenBlocks : ∀ ns : List Node, LineThenBlocks ns → prunedContent ns = ns
  | [], _ => rfl
  | n :: ns, h => by
    have hfirst := pruned_of_blocksLast n h.1
    unfold LineThenBlocks at h
    unfold prunedContent
    split
    . next hn =>
      rw [if_pos hn] at h
      rw [hfirst, prunedContent_of_lineThenBlocks ns h.2]
    . next hn =>
      rw [if_neg hn] at h
      rw [hfirst, prunedBlocks_of_onlyBlocks ns h.2]

theorem prunedBlocks_of_onlyBlocks : ∀ ns : List Node, OnlyBlocks ns → prunedBlocks ns = ns
  | [], _ => rfl
  | n :: ns, h => by
    rw [prunedBlocks, if_neg (by simp [h.1]), pruned_of_blocksLast n h.2.1, prunedBlocks_of_onlyBlocks ns h.2.2]

end

mutual

theorem ne_empty_of_mem_texts {content : String} : ∀ n : Node, n.Regular → content ∈ n.texts → content ≠ ""
  | .text _, h, hmem => by
    rw [Node.texts, List.mem_singleton] at hmem
    rw [hmem]
    exact h
  | .element _ _ children, h, hmem => ne_empty_of_mem_textsAll children h.2 hmem

theorem ne_empty_of_mem_textsAll {content : String} :
    ∀ ns : List Node, RegularAll ns → content ∈ textsAll ns → content ≠ ""
  | [], _, hmem => by cases hmem
  | n :: ns, h, hmem => by
    rw [textsAll, List.mem_append] at hmem
    rcases hmem with hmem | hmem
    . exact ne_empty_of_mem_texts n h.1 hmem
    . exact ne_empty_of_mem_textsAll ns h.2 hmem

end

theorem eq_of_join_eq {first second : List String} (h : first.Sublist second) (hne : ∀ s ∈ second, s ≠ "")
    (hjoin : String.join first = String.join second) : first = second := by
  induction h with
  | slnil => rfl
  | @cons first second s h ih =>
    -- What is left out is something, and what is not is no longer than all the others.
    have hchars := congrArg (fun t => t.toList.length) hjoin
    have hlength := (h.flatMap String.toList).length_le
    have hs : 0 < s.toList.length := by
      apply List.length_pos_of_ne_nil
      simpa using hne s (by simp)
    simp only [String.join_cons, String.toList_append, String.toList_join, List.length_append] at hchars
    omega
  | cons_cons s h ih =>
    rw [List.forall_mem_cons] at hne
    rw [String.join_cons, String.join_cons, String.append_right_inj] at hjoin
    rw [ih hne.2 hjoin]

theorem join_prunedContent_iff {ns : List Node} (h : RegularAll ns) :
    String.join (textsAll (prunedContent ns)) = String.join (textsAll ns) ↔ LineThenBlocks ns := by
  constructor
  . intro hjoin
    have htexts := eq_of_join_eq (textsAll_prunedContent_sublist ns) (fun _ => ne_empty_of_mem_textsAll ns h) hjoin
    exact lineThenBlocks_of_length ns h (by rw [htexts])
  . intro hlast
    rw [prunedContent_of_lineThenBlocks ns hlast]

theorem regular_rules {name : String} {r : Schema.Rule} (h : Schema.rule? name = some r)
    (hname : BlockKind.ofName? name = none) :
    r.mayBeEmpty = false ∧ ∀ below ∈ r.elements, BlockKind.ofName? below = none := by
  have hrules : ∀ p ∈ Schema.rules, BlockKind.ofName? p.1 = none →
      p.2.mayBeEmpty = false ∧ ∀ below ∈ p.2.elements, BlockKind.ofName? below = none := by
    decide +kernel
  unfold Schema.rule? at h
  rw [List.lookup_eq_some_iff] at h
  rcases h with ⟨front, behind, hsplit, -⟩
  exact hrules (name, r) (by simp [hsplit]) hname

theorem isNoBlock_of_allObeyIn {r : Schema.Rule} (hr : ∀ below ∈ r.elements, BlockKind.ofName? below = none)
    {ns : List Node} (h : AllObeyIn r ns) : ns.all isNoBlock := by
  induction ns with
  | nil => rfl
  | cons n ns ih =>
    rw [List.all_cons, ih h.2, Bool.and_true]
    cases n with
    | text content => rfl
    | element name attributes children => simp [isNoBlock, blockKind?, name?, hr name h.1.1]

mutual

theorem regular_of_obeysIn {r : Schema.Rule} : ∀ n : Node, n.ObeysIn r → n.Regular
  | .text _, h => h.2
  | .element name attributes children, ⟨_, inner, hrule, hempty, _, hchildren⟩ => by
    refine ⟨?_, regularAll_of_allObeyIn children hchildren⟩
    intro hname
    rcases regular_rules hrule hname with ⟨hmayBeEmpty, helements⟩
    refine ⟨?_, isNoBlock_of_allObeyIn helements hchildren⟩
    intro hnil
    rw [hempty hnil] at hmayBeEmpty
    cases hmayBeEmpty

theorem regularAll_of_allObeyIn {r : Schema.Rule} : ∀ ns : List Node, AllObeyIn r ns → RegularAll ns
  | [], _ => trivial
  | n :: ns, h => ⟨regular_of_obeysIn n h.1, regularAll_of_allObeyIn ns h.2⟩

end

theorem prunedContent_of_obeysTop {ns : List Node} (h : AllObeyIn Schema.top ns) :
    prunedContent ns = prunedBlocks ns := by
  cases ns with
  | nil => rfl
  | cons n ns =>
    have hn : n.isNoBlock = false := by
      have hnames : ∀ name ∈ Schema.blockNames, (BlockKind.ofName? name).isNone = false := by decide
      cases n with
      | text content => exact absurd h.1.1 (by decide)
      | element name attributes children => exact hnames name h.1.1
    simp [prunedContent, prunedBlocks, hn]

theorem inlinesAll_append (ns ms : List Node) : inlinesAll (ns ++ ms) = inlinesAll ns ++ inlinesAll ms := by
  induction ns with
  | nil => rfl
  | cons n ns ih => simp [inlinesAll, ih]

theorem Canonical.isAttributeName {o : CleaningOptions} {bare : Prop} {place : Option ContentModel} {ns : List Node}
    (h : Canonical o bare place ns) :
    ∀ element ∈ inlinesAll ns, ∀ a ∈ element.attributes, XmlReader.IsAttributeName a.name := by
  induction h with
  | nil place => simp [inlinesAll]
  | text before happart hplace hcontent ih => simpa [inlinesAll_append, inlinesAll, inlines] using ih
  | element before hread hwritten hplace hattributes hempty held ihbefore ihheld =>
    intro element helement
    simp only [inlinesAll_append, inlinesAll, inlines, List.append_nil, List.mem_append, Option.mem_toList,
      Option.map_eq_some_iff] at helement
    rcases helement with helement | ⟨kind, -, rfl⟩ | helement
    . exact ihbefore element helement
    . intro a ha
      exact XmlReader.isAttributeName_of_isName (ElementKind.isName_of_mayHave hattributes a ha)
    . exact ihheld element helement

end Node

namespace Cleaner

theorem reported_text (o : CleaningOptions) (name : String) (attributes : List Attribute) (children : List Node) :
    ∃ cleaned log,
      clean ⟨.standard, o⟩ (.element name attributes children) = .ok cleaned
        ∧ (Visitor.logging (fun _ => false) (fun _ => false)).visitDocument (Event.treeOf .standard cleaned) #[]
          = .ok log
        ∧ String.join (Report.texts log.toList) = (Event.treeOf .standard cleaned).pruned.textContent
        ∧ (String.join (Report.texts log.toList) = (Event.treeOf .standard cleaned).textContent
            ↔ (Event.treeOf .standard cleaned).BlocksLast)
        ∧ ∀ pretty, ∃ xml ts,
            (Event.treeOf .standard cleaned).toXml pretty = .ok xml
              ∧ XmlReader.readDocument? xml = some ts
              ∧ String.join (ts.filterMap Token.text?) = String.join (Report.texts log.toList) := by
  have hlawful : (Outline.cleaned o (SourceEvent.ofNodes children)).Lawful o True none :=
    Outline.cleaned_lawful o _ fun _ _ _ => trivial
  have hcanonical := Node.Canonical.writtenBehind hlawful rfl (.nil none)
  have hobeys := (Schema.allObeyIn_of_canonical hcanonical).2 Schema.top Schema.top_covers
  have hregular := Node.regularAll_of_allObeyIn _ hobeys
  have htree := Event.treeOf_events .standard (Outline.cleaned o (SourceEvent.ofNodes children))
  generalize (Outline.cleaned o (SourceEvent.ofNodes children)).writtenBehind .standard [] = ns
    at hcanonical hobeys hregular htree
  have htexts : Report.texts (Node.reportsOfBlocks ns) = Node.textsAll (Node.prunedContent ns) := by
    rw [Node.texts_reportsOfBlocks ns hregular, Node.prunedContent_of_obeysTop hobeys]
  refine ⟨_, (Node.reportsOfBlocks ns).toArray, Outline.clean_eq o name attributes children, ?_⟩
  rw [htree]
  refine ⟨Visitor.log_eq _ _ ns, ?_, ?_, ?_⟩
  . rw [Node.textContent_eq, htexts]
    rfl
  . rw [Node.textContent_eq, htexts]
    exact Node.join_prunedContent_iff hregular
  . intro pretty
    rcases Node.exists_toXml pretty Node.fragmentTag [] hcanonical.isAttributeName with ⟨xml, hxml, hread⟩
    refine ⟨xml, _, hxml, hread, ?_⟩
    rw [Token.join_joined, Report.texts_token]

/-- Where a quote goes on behind a paragraph in it, its text is in the tree but not in the log of the walk. -/
theorem line_behind_block_lost :
    let cleaned : List Event :=
      [.startTag .blockquote [], .text "a", .startTag .p [], .text "b", .endTag .p, .text "c", .endTag .blockquote]
    clean ⟨.standard, {}⟩
        (Node.fragment [.element "blockquote" [] [.text "a", .element "p" [] [.text "b"], .text "c"]]) = .ok cleaned
      ∧ (Event.treeOf .standard cleaned).textContent = "abc"
      ∧ ∃ log,
          (Visitor.logging (fun _ => false) (fun _ => false)).visitDocument (Event.treeOf .standard cleaned) #[]
            = .ok log
          ∧ String.join (Report.texts log.toList) = "ab" := by
  intro cleaned
  have htree : Event.treeOf .standard cleaned
      = Node.fragment [.element "quote" [] [.text "a", .element "text" [] [.text "b"], .text "c"]] := by
    rfl
  refine ⟨?_, ?_, ?_⟩
  . unfold Node.fragment
    rw [Outline.clean_eq, SourceEvent.ofNodes_eq, Except.ok.injEq]
    decide +kernel
  . rw [htree, Node.textContent_eq]
    decide +kernel
  . rw [htree]
    refine ⟨_, Visitor.log_eq _ _ _, ?_⟩
    decide +kernel

end Cleaner

end NoteMarkup
