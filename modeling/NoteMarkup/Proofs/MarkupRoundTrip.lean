import NoteMarkup.Proofs.Conformance
import NoteMarkup.Proofs.Siblings
import NoteMarkup.Proofs.Stretches
import NoteMarkup.Proofs.Walk

/-!
This module contains what a reader gets out of the markup of a cleaned document. It gets the tree of the
document, with the references in attribute values replaced, exactly if no terminator is cut where one text
event ends and the next begins.
-/

namespace NoteMarkup

namespace Node

theorem decodedAll_append (ns ms : List Node) : decodedAll (ns ++ ms) = decodedAll ns ++ decodedAll ms := by
  induction ns with
  | nil => rfl
  | cons n ns ih => simp [decodedAll, ih]

@[simp]
theorem decoded_name? (n : Node) : n.decoded.name? = n.name? := by
  cases n <;> simp [decoded, name?]

theorem decoded_addChild (n child : Node) : (n.addChild child).decoded = n.decoded.addChild child.decoded := by
  cases n with
  | text content => simp [addChild, addChildren, decoded]
  | element name attributes children => simp [addChild, addChildren, decoded, decodedAll_append, decodedAll]

theorem endsInText_decodedAll (ns : List Node) : endsInText (decodedAll ns) = endsInText ns := by
  rcases List.eq_nil_or_concat ns with rfl | ⟨init, last, rfl⟩
  . rfl
  . rw [List.concat_eq_append, decodedAll_append]
    cases last <;> simp [decodedAll, decoded, endsInText, isElement]

theorem decodedAll_appendText (content : String) (ns : List Node) :
    decodedAll (appendText content ns) = appendText content (decodedAll ns) := by
  rcases endsInText_cases ns with ⟨init, before, rfl⟩ | hends
  . rw [appendText_snoc, decodedAll_append, decodedAll_append]
    simp [decodedAll, decoded, appendText_snoc]
  . rw [appendText_of_not_endsInText hends, appendText_of_not_endsInText (by rwa [endsInText_decodedAll]),
      decodedAll_append]
    simp [decodedAll, decoded]

theorem decoded_addText (n : Node) (content : String) :
    (n.addText content).decoded = n.decoded.addText content := by
  cases n with
  | text before => simp [addText, decoded]
  | element name attributes children => simp [addText, decoded, decodedAll_appendText]

end Node

namespace TreeBuilder

def decoded (b : TreeBuilder) : TreeBuilder :=
  ⟨b.current.decoded, b.around.map Node.decoded⟩

def Matches (opened : List ElementKind) (b : TreeBuilder) : Prop :=
  (b.current :: b.around).map Node.name?
    =
  (opened.filterMap Grammar.standard.writtenName?).map some ++ [some Node.fragmentTag]

theorem foldlM_read?_behind (content : List Char) (ss : List Stretch) (b : TreeBuilder) :
    ((Stretch.behind content ss).map Stretch.token).foldlM read? b
      =
    (ss.map Stretch.token).foldlM read? { b with current := b.current.addText (String.ofList content) } := by
  rcases ss with _ | ⟨_ | _ | _ | _, ss⟩ <;>
    simp [Stretch.behind, Stretch.token, read?, Node.addText_append]

variable {opened opened' : List ElementKind} {b : TreeBuilder}

theorem Matches.add {event : Event} (h : Matches opened b)
    (hplace : Event.place? .standard opened event = some opened') : Matches opened' (b.add .standard event) := by
  unfold Matches at h ⊢
  cases event with
  | startTag kind attributes =>
    simp only [Event.place?, Option.ite_none_right_eq_some, Option.some.injEq] at hplace
    rcases hplace with ⟨-, rfl⟩
    simp only [add]
    cases hname : Grammar.standard.writtenName? kind with
    | none => simpa [hname] using h
    | some name => simpa [hname, Node.name?] using h
  | standaloneTag kind attributes =>
    simp only [Event.place?, Option.ite_none_right_eq_some, Option.some.injEq] at hplace
    rcases hplace with ⟨-, rfl⟩
    simp only [add]
    cases hname : Grammar.standard.writtenName? kind with
    | none => simpa [hname] using h
    | some name => simpa [hname] using h
  | endTag kind =>
    cases opened with
    | nil => cases hplace
    | cons frame outer =>
      simp only [Event.place?, Option.ite_none_right_eq_some, Option.some.injEq] at hplace
      rcases hplace with ⟨rfl, rfl⟩
      simp only [add]
      cases hname : Grammar.standard.writtenName? frame with
      | none => simpa [hname] using h
      | some name =>
        rcases b with ⟨current, around⟩
        simp only [List.filterMap_cons, hname, List.map_cons, List.cons_append, List.cons.injEq] at h
        cases around with
        | nil => simp at h
        | cons parent around => simpa [close] using h.2
  | text content =>
    cases opened with
    | nil => cases hplace
    | cons frame outer =>
      simp only [Event.place?, Option.ite_none_right_eq_some, Option.some.injEq] at hplace
      rcases hplace with ⟨-, rfl⟩
      simpa [add] using h

theorem foldlM_read?_stretches (events : List Event) (h : Matches opened b)
    (hconforms : events.foldlM (Event.place? .standard) opened = some opened') :
    ((Event.stretches .standard events).map Stretch.token).foldlM read? b.decoded
        = some (events.foldl (add .standard) b).decoded
      ∧ Matches opened' (events.foldl (add .standard) b) := by
  induction events generalizing opened b with
  | nil =>
    cases hconforms
    exact ⟨rfl, h⟩
  | cons event events ih =>
    rw [List.foldlM_cons, Option.bind_eq_bind, Option.bind_eq_some_iff] at hconforms
    rcases hconforms with ⟨between, hplace, hrest⟩
    have htail := ih (h.add hplace) hrest
    refine ⟨?_, htail.2⟩
    rw [List.foldl_cons, ← htail.1]
    cases event with
    | startTag kind attributes =>
      simp only [Event.stretches, add]
      cases Grammar.standard.writtenName? kind with
      | none => rfl
      | some name => simp [Stretch.token, read?, decoded, Node.decoded, Node.decodedAll]
    | standaloneTag kind attributes =>
      simp only [Event.stretches, add]
      cases Grammar.standard.writtenName? kind with
      | none => rfl
      | some name =>
        simp [Stretch.token, read?, decoded, Node.decoded, Node.decodedAll, Node.decoded_addChild]
    | endTag kind =>
      simp only [Event.stretches, add]
      cases hname : Grammar.standard.writtenName? kind with
      | none => rfl
      | some name =>
        cases opened with
        | nil => cases hplace
        | cons frame outer =>
          simp only [Event.place?, Option.ite_none_right_eq_some, Option.some.injEq] at hplace
          rcases hplace with ⟨rfl, rfl⟩
          -- The element that is open is the one that the end tag is for.
          rcases b with ⟨current, around⟩
          unfold Matches at h
          simp only [List.filterMap_cons, hname, List.map_cons, List.cons_append, List.cons.injEq] at h
          cases around with
          | nil => simp at h
          | cons parent around =>
            simp [Stretch.token, read?, decoded, h.1, close, Node.decoded_addChild]
    | text content =>
      simp only [Event.stretches, add]
      rw [foldlM_read?_behind]
      simp [decoded, Node.decoded_addText]

end TreeBuilder

mutual

def Node.tokens : Node → List Token
  | .element name attributes children => .start name attributes :: (Node.tokensAll children ++ [.ending name])
  | .text content => [.text content]

def Node.tokensAll : List Node → List Token
  | [] => []
  | n :: ns => n.tokens ++ Node.tokensAll ns

end

def Node.openTokens : Node → List Token
  | .element name attributes children => .start name attributes :: Node.tokensAll children
  | .text content => [.text content]

theorem Node.tokensAll_append (ns ms : List Node) : tokensAll (ns ++ ms) = tokensAll ns ++ tokensAll ms := by
  induction ns with
  | nil => rfl
  | cons n ns ih => simp [tokensAll, ih]

namespace Token

def expand : Token → List Token
  | single name attributes => [start name attributes, ending name]
  | t => [t]

def Apart : List Token → Prop
  | [] => True
  | t :: ts => (t.isText → ∀ t' ∈ ts.head?, t'.isText = false) ∧ Apart ts

end Token

namespace TreeBuilder

def tokens (b : TreeBuilder) : List Token :=
  (b.current :: b.around).reverse.flatMap Node.openTokens

def OnlyElements (b : TreeBuilder) : Prop :=
  ∀ n ∈ b.current :: b.around, n.isElement

variable {b b' : TreeBuilder}

theorem onlyElements_read? {t : Token} (hread : b.read? t = some b') (h : b.OnlyElements) : b'.OnlyElements := by
  rcases b with ⟨current, around⟩
  have hcurrent : current.isElement := h current (by simp)
  have haround : ∀ n ∈ around, n.isElement := fun n hn => h n (by simp [hn])
  unfold OnlyElements
  cases t with
  | start name attributes =>
    cases hread
    have hopened : (Node.element name attributes []).isElement := rfl
    simpa [hcurrent, hopened] using haround
  | single name attributes =>
    cases hread
    simpa [hcurrent] using haround
  | text content =>
    cases hread
    simpa [hcurrent] using haround
  | ending name =>
    simp only [read?, Option.some.injEq, Option.ite_none_right_eq_some] at hread
    rcases hread with ⟨⟨-, hne⟩, rfl⟩
    cases around with
    | nil => exact absurd rfl hne
    | cons parent around => simpa [close] using haround

theorem read?_tokens {t : Token} (hread : b.read? t = some b') (h : b.OnlyElements)
    (hapart : t.isText → Node.endsInText b.current.children = false) :
    b'.tokens = b.tokens ++ t.expand ∧ (t.isText = false → Node.endsInText b'.current.children = false) := by
  rcases b with ⟨current, around⟩
  have hcurrent : current.isElement := h current (by simp)
  cases current with
  | text content => cases hcurrent
  | element name attributes children =>
    cases t with
    | start name' attributes' =>
      cases hread
      exact ⟨by simp [tokens, Node.openTokens, Node.tokensAll, Token.expand], fun _ => rfl⟩
    | single name' attributes' =>
      cases hread
      constructor
      . simp [tokens, Node.openTokens, Token.expand, Node.addChild, Node.addChildren, Node.tokensAll_append,
          Node.tokensAll, Node.tokens]
      . simp [Node.addChild, Node.addChildren, Node.children, Node.endsInText, Node.isElement]
    | ending name' =>
      simp only [read?, Node.name?, Option.some.injEq, Option.ite_none_right_eq_some] at hread
      rcases hread with ⟨⟨rfl, hne⟩, rfl⟩
      rcases around with _ | ⟨parent, around⟩
      . exact absurd rfl hne
      . have hparent : parent.isElement := h parent (by simp)
        cases parent with
        | text content => cases hparent
        | element parentName parentAttributes siblings =>
          constructor
          . simp [tokens, close, Node.openTokens, Token.expand, Node.addChild, Node.addChildren,
              Node.tokensAll_append, Node.tokensAll, Node.tokens]
          . simp [close, Node.addChild, Node.addChildren, Node.children, Node.endsInText, Node.isElement]
    | text content =>
      cases hread
      have hends : Node.endsInText children = false := hapart rfl
      refine ⟨?_, fun htext => by cases htext⟩
      simp [tokens, Node.openTokens, Token.expand, Node.addText, Node.appendText_of_not_endsInText hends,
        Node.tokensAll_append, Node.tokensAll, Node.tokens]

theorem foldlM_read?_tokens {ts : List Token} (hread : ts.foldlM read? b = some b') (h : b.OnlyElements)
    (hapart : Token.Apart ts)
    (hfirst : ∀ t ∈ ts.head?, t.isText → Node.endsInText b.current.children = false) :
    b'.tokens = b.tokens ++ ts.flatMap Token.expand := by
  induction ts generalizing b with
  | nil =>
    cases hread
    simp
  | cons t ts ih =>
    rw [List.foldlM_cons, Option.bind_eq_bind, Option.bind_eq_some_iff] at hread
    rcases hread with ⟨between, hstep, hrest⟩
    rcases read?_tokens hstep h (hfirst t rfl) with ⟨htokens, hends⟩
    rw [ih hrest (onlyElements_read? hstep h) hapart.2, htokens, List.flatMap_cons, List.append_assoc]
    -- A text does not join another one, as no two of the tokens are texts in a row.
    intro t' ht' htext
    apply hends
    cases htextbefore : t.isText with
    | false => rfl
    | true =>
      have := hapart.1 htextbefore t' ht'
      rw [htext] at this
      cases this

end TreeBuilder

namespace MarkupReader

open Text

theorem not_sectionStart_of_readText? {cs text rest : List Char} (h : readText? cs = some (text, rest)) :
    ¬ sectionStart <+: rest := by
  fun_induction readText? cs generalizing text with
  | case1 => cases h
  | case2 c cs hend hstart ih => exact ih h
  | case3 c cs hend hstart =>
    cases h
    exact hstart
  | case4 c cs hend ih =>
    rw [Option.map_eq_some_iff] at h
    rcases h with ⟨⟨inner, rest'⟩, hinner, heq⟩
    cases heq
    exact ih hinner

theorem isText_of_read? {cs rest : List Char} {t : Token} (h : read? cs = some (t, rest)) :
    (¬ sectionStart <+: cs → t.isText = false) ∧ (t.isText → ¬ sectionStart <+: rest) := by
  unfold read? at h
  split at h
  . next behindStart hstart =>
    rw [Option.map_eq_some_iff] at h
    rcases h with ⟨⟨text, rest'⟩, htext, heq⟩
    cases heq
    constructor
    . intro hnot
      exact absurd ⟨behindStart, (eq_of_dropStart? hstart).symm⟩ hnot
    . intro _
      exact not_sectionStart_of_readText? htext
  . rw [Option.bind_eq_some_iff] at h
    rcases h with ⟨behindBracket, hbracket, htag⟩
    have htext := isText_of_readTag? htag
    constructor
    . intro _
      exact htext
    . rw [htext]
      intro hfalse
      cases hfalse

theorem apart_of_readAll? {cs : List Char} {ts : List Token} (h : readAll? cs = some ts) :
    Token.Apart ts ∧ (¬ sectionStart <+: cs → ∀ t ∈ ts.head?, t.isText = false) := by
  fun_induction readAll? cs generalizing ts with
  | case1 =>
    cases h
    exact ⟨trivial, by simp⟩
  | case2 cs hne t rest hread hlength ih =>
    rw [Option.map_eq_some_iff] at h
    rcases h with ⟨ts', hrest, rfl⟩
    have htext := isText_of_read? hread
    have htail := ih hrest
    constructor
    . refine ⟨?_, htail.1⟩
      intro hbefore
      exact htail.2 (htext.2 hbefore)
    . intro hnot t' ht'
      cases ht'
      exact htext.1 hnot
  | case3 cs hne hread => cases h

end MarkupReader

namespace Stretch

theorem apart_behind (content : List Char) {ss : List Stretch} (h : Token.Apart (ss.map token)) :
    Token.Apart ((behind content ss).map token) := by
  rcases ss with _ | ⟨_ | _ | _ | _, ss⟩
  case nil => exact ⟨by simp, trivial⟩
  case cons.run pieces => exact h
  all_goals exact ⟨by simp [token, Token.isText], h⟩

theorem isText_of_tagStretch? {g : Grammar} {event : Event} {s : Stretch} (h : event.tagStretch? g = some s) :
    s.token.isText = false := by
  cases event with
  | text content => cases h
  | startTag kind attributes | standaloneTag kind attributes | endTag kind =>
    rcases Option.map_eq_some_iff.mp h with ⟨name, -, rfl⟩
    rfl

theorem apart_stretches (g : Grammar) (events : List Event) :
    Token.Apart ((Event.stretches g events).map token) := by
  induction events with
  | nil => trivial
  | cons event events ih =>
    rcases Event.stretches_cons_cases g event events with ⟨content, hstretches⟩ | hstretches
    . rw [hstretches]
      exact apart_behind content.toList ih
    . rw [hstretches]
      cases htag : event.tagStretch? g with
      | none => exact ih
      | some s => exact ⟨by simp [isText_of_tagStretch? htag], ih⟩

end Stretch

namespace MarkupReader

open Text

variable {ss : List Stretch}

theorem not_sectionStart_flatMap (hnamed : ∀ s ∈ ss, s.Named)
    (hfirst : ∀ t ∈ (ss.map Stretch.token).head?, t.isText = false) :
    ¬ sectionStart <+: ss.flatMap Stretch.chars := by
  cases ss with
  | nil => simp [sectionStart_eq]
  | cons s ss =>
    rw [List.flatMap_cons]
    apply not_sectionStart_chars (hnamed s (by simp))
    intro pieces hs
    have := hfirst s.token rfl
    rw [hs] at this
    cases this

theorem readAll?_flatMap (hnamed : ∀ s ∈ ss, s.Named) (hapart : Token.Apart (ss.map Stretch.token))
    (huncut : ∀ pieces, .run pieces ∈ ss → Uncut pieces) :
    readAll? (ss.flatMap Stretch.chars) = some (ss.map Stretch.token) := by
  induction ss with
  | nil => simp [readAll?]
  | cons s ss ih =>
    have htail := ih (fun s' hmem => hnamed s' (by simp [hmem])) hapart.2
      (fun pieces hmem => huncut pieces (by simp [hmem]))
    rw [List.flatMap_cons]
    have hread : read? (s.chars ++ ss.flatMap Stretch.chars) = some (s.token, ss.flatMap Stretch.chars) := by
      by_cases hrun : ∃ pieces, s = .run pieces
      . rcases hrun with ⟨pieces, rfl⟩
        have hbehind := not_sectionStart_flatMap (fun s' hmem => hnamed s' (by simp [hmem])) (hapart.1 rfl)
        rw [read?_run, (readText?_flatten_iff hbehind pieces).2 (huncut pieces (by simp))]
        rfl
      . apply read?_chars (hnamed s (by simp))
        intro pieces hs
        exact hrun ⟨pieces, hs⟩
    rw [readAll?_of_read? hread, htail]
    rfl

theorem readAll?_run {pieces : List (List Char)} {behind : List Char} {ts : List Token}
    (hread : readAll? ((Stretch.run pieces).chars ++ behind) = some ts) :
    ∃ text rest ts', readText? ((pieces.map encodeCDataChars).flatten ++ (sectionEnd ++ behind)) = some (text, rest)
      ∧ readAll? rest = some ts' ∧ ts = .text (String.ofList text) :: ts' := by
  cases htext : readText? ((pieces.map encodeCDataChars).flatten ++ (sectionEnd ++ behind)) with
  | none =>
    have hnone : read? ((Stretch.run pieces).chars ++ behind) = none := by
      rw [read?_run, htext]
      rfl
    rw [readAll?_of_read?_eq_none (by simp [Stretch.chars, sectionStart_eq]) hnone] at hread
    cases hread
  | some found =>
    rcases found with ⟨text, rest⟩
    have hfound : read? ((Stretch.run pieces).chars ++ behind) = some (.text (String.ofList text), rest) := by
      rw [read?_run, htext]
      rfl
    rw [readAll?_of_read? hfound, Option.map_eq_some_iff] at hread
    rcases hread with ⟨ts', hrest, rfl⟩
    exact ⟨text, rest, ts', rfl, hrest, rfl⟩

theorem uncut_of_readAll? (hnamed : ∀ s ∈ ss, s.Named) (hapart : Token.Apart (ss.map Stretch.token))
    {ts : List Token} (hread : readAll? (ss.flatMap Stretch.chars) = some ts)
    (hsame : ts.flatMap Token.expand = (ss.map Stretch.token).flatMap Token.expand) :
    ∀ pieces, .run pieces ∈ ss → Uncut pieces := by
  induction ss generalizing ts with
  | nil => simp
  | cons s ss ih =>
    have hnamed' : ∀ s' ∈ ss, s'.Named := fun s' hmem => hnamed s' (by simp [hmem])
    rw [List.flatMap_cons] at hread
    rw [List.map_cons, List.flatMap_cons] at hsame
    by_cases hrun : ∃ pieces, s = .run pieces
    -- The text that is read is that of the run, which can only be if no terminator of it is cut.
    . rcases hrun with ⟨pieces, rfl⟩
      rcases readAll?_run hread with ⟨text, rest, ts', htext, hrest, rfl⟩
      simp only [List.flatMap_cons, Stretch.token, Token.expand, List.cons_append, List.nil_append,
        List.cons.injEq, Token.text.injEq, String.ofList_inj] at hsame
      rcases hsame with ⟨rfl, hsame⟩
      have hiff := readText?_flatten_iff (not_sectionStart_flatMap hnamed' (hapart.1 rfl)) pieces
      have huncut : Uncut pieces := hiff.1.mp ⟨rest, htext⟩
      rw [hiff.2 huncut] at htext
      cases htext
      intro pieces' hmem
      rw [List.mem_cons, Stretch.run.injEq] at hmem
      rcases hmem with rfl | hmem
      . exact huncut
      . exact ih hnamed' hapart.2 hrest hsame pieces' hmem
    . have hs : ∀ pieces, s ≠ .run pieces := fun pieces hs => hrun ⟨pieces, hs⟩
      rw [readAll?_of_read? (read?_chars (hnamed s (by simp)) hs _), Option.map_eq_some_iff] at hread
      rcases hread with ⟨ts', hrest, rfl⟩
      rw [List.flatMap_cons, List.append_cancel_left_eq] at hsame
      intro pieces hmem
      rw [List.mem_cons] at hmem
      rcases hmem with hmem | hmem
      . exact absurd hmem.symm (hs pieces)
      . exact ih hnamed' hapart.2 hrest hsame pieces hmem

end MarkupReader

theorem Grammar.isName_of_writtenName? {kind : ElementKind} {name : String}
    (h : Grammar.standard.writtenName? kind = some name) : Text.IsName name := by
  revert h
  cases kind <;> intro h <;> cases h <;> decide

theorem ElementKind.isName_of_mayHave {bare : Prop} {kind : ElementKind} {attributes : List Attribute}
    (h : kind.MayHave bare attributes) : ∀ a ∈ attributes, Text.IsName a.name := by
  rcases eq_singleton_of_mayHave h with rfl | ⟨name, hname, value, rfl⟩
  . simp
  . have hisName : Text.IsName name := by
      simp only [List.mem_cons, List.not_mem_nil, or_false] at hname
      rcases hname with rfl | rfl | rfl <;> decide
    simpa using hisName

theorem Stretch.mem_behind {content : List Char} {s : Stretch} {ss : List Stretch} (h : s ∈ behind content ss) :
    (∃ pieces, s = .run pieces) ∨ s ∈ ss := by
  rcases ss with _ | ⟨_ | _ | _ | _, ss⟩
  case nil =>
    left
    exact ⟨[content], by simpa [behind] using h⟩
  case cons.run pieces =>
    simp only [behind, List.mem_cons] at h
    rcases h with h | h
    . exact .inl ⟨_, h⟩
    . exact .inr (by simp [h])
  all_goals
    simp only [behind, List.mem_cons] at h
    rcases h with h | h
    . exact .inl ⟨_, h⟩
    . exact .inr (by simpa using h)

theorem Stretch.named_of_tagStretch? {event : Event} {s : Stretch} (h : event.tagStretch? .standard = some s)
    (hattributes : ∀ kind attributes, event = .startTag kind attributes ∨ event = .standaloneTag kind attributes →
      kind.MayHave True attributes) : s.Named := by
  cases event with
  | text content => cases h
  | endTag kind =>
    rcases Option.map_eq_some_iff.mp h with ⟨name, hname, rfl⟩
    exact Grammar.isName_of_writtenName? hname
  | startTag kind attributes | standaloneTag kind attributes =>
    rcases Option.map_eq_some_iff.mp h with ⟨name, hname, rfl⟩
    exact ⟨Grammar.isName_of_writtenName? hname, ElementKind.isName_of_mayHave (hattributes kind attributes (by simp))⟩

theorem Event.exists_tagStretch?_of_mem_stretches {g : Grammar} {events : List Event} {s : Stretch}
    (h : s ∈ stretches g events) : (∃ pieces, s = .run pieces) ∨ ∃ event ∈ events, event.tagStretch? g = some s := by
  induction events with
  | nil => cases h
  | cons event events ih =>
    have hbehind (h : s ∈ stretches g events) :
        (∃ pieces, s = .run pieces) ∨ ∃ e ∈ event :: events, e.tagStretch? g = some s :=
      (ih h).imp_right fun ⟨e, hmem, htag⟩ => ⟨e, by simp [hmem], htag⟩
    rcases stretches_cons_cases g event events with ⟨content, hstretches⟩ | hstretches
    . rw [hstretches] at h
      rcases Stretch.mem_behind h with hrun | h
      . exact .inl hrun
      . exact hbehind h
    . rw [hstretches, List.mem_append, Option.mem_toList] at h
      rcases h with htag | h
      . exact .inr ⟨event, by simp, htag⟩
      . exact hbehind h

theorem Stretch.named_stretches {events : List Event}
    (h : ∀ kind attributes, .startTag kind attributes ∈ events ∨ .standaloneTag kind attributes ∈ events →
      kind.MayHave True attributes) : ∀ s ∈ Event.stretches .standard events, s.Named := by
  intro s hs
  rcases Event.exists_tagStretch?_of_mem_stretches hs with ⟨pieces, rfl⟩ | ⟨event, hmem, htag⟩
  . trivial
  . apply named_of_tagStretch? htag
    intro kind attributes heq
    apply h
    rcases heq with rfl | rfl
    . exact .inl hmem
    . exact .inr hmem

namespace TreeBuilder

theorem Matches.around_eq_nil {b : TreeBuilder} (h : Matches [] b) : b.around = [] := by
  unfold Matches at h
  simp only [List.filterMap_nil, List.map_nil, List.nil_append, List.map_cons, List.cons.injEq,
    List.map_eq_nil_iff] at h
  exact h.2

theorem foldlM_read?_treeOf {events : List Event} (h : Event.Conforms .standard events) :
    ((Event.stretches .standard events).map Stretch.token).foldlM read? .empty
      =
    some ⟨(Event.treeOf .standard events).decoded, []⟩ := by
  have hbuilt := foldlM_read?_stretches events (show Matches [] .empty from rfl) h
  have haround := hbuilt.2.around_eq_nil
  have htree : Event.treeOf .standard events = (events.foldl (add .standard) .empty).current := by
    unfold Event.treeOf finish
    rw [haround]
    rfl
  rw [htree]
  refine hbuilt.1.trans ?_
  unfold decoded
  rw [haround]
  rfl

theorem expand_eq_of_foldlM_read? {ts ts' : List Token} {n : Node} (h : Token.Apart ts) (h' : Token.Apart ts')
    (hread : ts.foldlM read? .empty = some ⟨n, []⟩) (hread' : ts'.foldlM read? .empty = some ⟨n, []⟩) :
    ts.flatMap Token.expand = ts'.flatMap Token.expand := by
  have helements : OnlyElements .empty := by
    intro n hn
    simp only [empty, List.mem_cons, List.not_mem_nil, or_false] at hn
    subst hn
    rfl
  have htokens := foldlM_read?_tokens hread helements h (fun _ _ _ => rfl)
  have htokens' := foldlM_read?_tokens hread' helements h' (fun _ _ _ => rfl)
  rw [htokens] at htokens'
  simpa using htokens'

end TreeBuilder

theorem Node.ofMarkup?_markupOf_iff {events : List Event} (hconforms : Event.Conforms .standard events)
    (hattributes : ∀ kind attributes,
      .startTag kind attributes ∈ events ∨ .standaloneTag kind attributes ∈ events →
        kind.MayHave True attributes) :
    ofMarkup? (Event.markupOf .standard events) = some (Event.treeOf .standard events).decoded
      ↔
    ∀ pieces, .run pieces ∈ Event.stretches .standard events → Text.Uncut pieces := by
  have hnamed := Stretch.named_stretches hattributes
  have hapart := Stretch.apart_stretches .standard events
  have hbuilt := TreeBuilder.foldlM_read?_treeOf hconforms
  unfold ofMarkup?
  rw [MarkupBuilder.markupOf_toList]
  constructor
  . intro hread
    simp only [Option.bind_eq_bind, Option.bind_eq_some_iff, Option.ite_none_right_eq_some,
      List.isEmpty_iff, Option.some.injEq] at hread
    rcases hread with ⟨ts, hts, ⟨current, around⟩, hbuilt', rfl, rfl⟩
    -- Whatever has been read are the tokens of the tree, and so are those of the stretches.
    apply MarkupReader.uncut_of_readAll? hnamed hapart hts
    exact TreeBuilder.expand_eq_of_foldlM_read? (MarkupReader.apart_of_readAll? hts).1 hapart hbuilt' hbuilt
  . intro huncut
    rw [MarkupReader.readAll?_flatMap hnamed hapart huncut]
    simp [hbuilt]

namespace Cleaner

theorem ofMarkup?_cleaned_iff (o : CleaningOptions) (events : List SourceEvent) :
    Node.ofMarkup? (Event.markupOf .standard (Outline.cleaned o events).events)
        = some (Event.treeOf .standard (Outline.cleaned o events).events).decoded
      ↔
    ∀ pieces, .run pieces ∈ Event.stretches .standard (Outline.cleaned o events).events → Text.Uncut pieces := by
  apply Node.ofMarkup?_markupOf_iff (conforms_cleaned o events)
  intro kind attributes hmem
  have hlawful : (Outline.cleaned o events).Lawful o True none :=
    Outline.cleaned_lawful o events fun _ _ _ => trivial
  exact hlawful.mayHave hmem

theorem markup_recovers_tree_iff (o : CleaningOptions) (name : String) (attributes : List Attribute)
    (children : List Node) :
    ∃ cleaned, clean ⟨.standard, o⟩ (.element name attributes children) = .ok cleaned
      ∧ (Node.ofMarkup? (Event.markupOf .standard cleaned) = some (Event.treeOf .standard cleaned).decoded
        ↔ ∀ pieces, .run pieces ∈ Event.stretches .standard cleaned → Text.Uncut pieces) :=
  ⟨_, Outline.clean_eq o name attributes children, ofMarkup?_cleaned_iff o (SourceEvent.ofNodes children)⟩

/-- A terminator that two text nodes share is written as it is, and ends the section in the middle of the
text. -/
theorem shared_terminator_ends_section :
    let cleaned : List Event := [.startTag .p [], .text "]]", .text ">", .endTag .p]
    clean ⟨.standard, {}⟩ (Node.fragment [.element "p" [] [.text "]]", .text ">"]]) = .ok cleaned
      ∧ Event.markupOf .standard cleaned = "<text><![CDATA[]]>]]></text>"
      ∧ (Node.ofMarkup? (Event.markupOf .standard cleaned)).isNone := by
  refine ⟨?_, by decide +kernel, by decide +kernel⟩
  unfold Node.fragment
  rw [Outline.clean_eq, SourceEvent.ofNodes_eq, Except.ok.injEq]
  decide +kernel

end Cleaner

end NoteMarkup
