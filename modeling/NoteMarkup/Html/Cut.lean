import NoteMarkup.Html.Token

/-!
This module contains how an HTML text is cut into tokens, a few of them at a time. What comes next depends on
where it stands: the text of a script ends only at the end tag of the script, for example.
-/

namespace NoteMarkup.Html

inductive Reading where
  | markup
  | raw (kind : RawKind) (name : String)
  | plain
  deriving DecidableEq, Repr

def normalizeNewlines : List Char → List Char
  | '\r' :: '\n' :: cs => '\n' :: normalizeNewlines cs
  | '\r' :: cs => '\n' :: normalizeNewlines cs
  | c :: cs => c :: normalizeNewlines cs
  | [] => []

def dropByteOrderMark (cs : List Char) : List Char :=
  (Text.dropStart? ['\ufeff'] cs).getD cs

abbrev Cut := List Token × List Char

def cutReference (cs : List Char) : Cut :=
  match reference? false cs with
  | none => ([.text false "&"], cs)
  | some r => ((if r.isClosed then [] else [.mistake]) ++ textTokens r.chars, cs.drop r.length)

/-- A tag behind its `<` or `</`. The end of the text takes an unfinished one with it. -/
def cutTag (fuel : Nat) (toToken : Tag → Token) (cs : List Char) : Cut :=
  match tag? fuel cs with
  | some (tag, rest) => ([toToken tag], rest)
  | none => ([], [])

def cutEndTag (fuel : Nat) (cs : List Char) : Cut :=
  cutTag fuel (fun tag => .endTag tag.name) cs

def behindTag (cs : List Char) : List Char :=
  (cs.dropWhile (· != '>')).drop 1

def behindComment : List Char → List Char
  | [] => []
  | '-' :: '-' :: '>' :: cs => cs
  | '-' :: '-' :: '!' :: '>' :: cs => cs
  | _ :: cs => behindComment cs

def literalSection (before : List Char) : List Char → List Char × List Char
  | [] => (before.reverse, [])
  | ']' :: ']' :: '>' :: cs => (before.reverse, cs)
  | c :: cs => literalSection (c :: before) cs

def cutDeclaration (inForeign : Bool) (cs : List Char) : Cut :=
  match cs with
  | '-' :: '-' :: '>' :: cs => ([.comment], cs)
  | '-' :: '-' :: '-' :: '>' :: cs => ([.comment], cs)
  | '-' :: '-' :: cs => ([.comment], behindComment cs)
  | cs =>
    match Doctype.behindKeyword? "doctype" cs, Text.dropStart? "[CDATA[".toList cs with
    | some rest, _ => ([.doctype (Doctype.read (rest.takeWhile (· != '>')))], behindTag rest)
    | none, some rest =>
      if inForeign then
        let (content, rest) := literalSection [] rest
        ([Token.null].intercalate ((Text.pieces (· == '\x00') content).map textTokens), rest)
      else
        ([.comment], behindTag cs)
    | none, none => ([.comment], behindTag cs)

def cutMarkup (fuel : Nat) (inForeign : Bool) (cs : List Char) : Cut :=
  match cs with
  | '!' :: cs => cutDeclaration inForeign cs
  | '?' :: cs => ([.comment], behindTag cs)
  | '/' :: '>' :: cs => ([.mistake], cs)
  | '/' :: c :: cs => if c.isAlpha then cutEndTag fuel (c :: cs) else ([.comment], behindTag (c :: cs))
  | c :: cs => if c.isAlpha then cutTag fuel .startTag (c :: cs) else ([.text false "<"], c :: cs)
  | [] => ([.text false "<"], [])

def startsTag (name : List Char) (cs : List Char) : Bool :=
  (cs.take name.length).map Char.toLower == name && ((cs.drop name.length).head?).any endsTagName

def isEndTagOf (name : String) (cs : List Char) : Bool :=
  startsTag ('<' :: '/' :: name.toList) cs

/-- A part of the text of a script. Comments in it hide end tags that follow start tags. -/
inductive ScriptPart where
  | code
  /-- In a comment; the number counts the dashes that stand right before. -/
  | comment (dashes : Nat)
  | nested (dashes : Nat)
  deriving DecidableEq, Repr

def ScriptPart.behind (continued : Nat → ScriptPart) (dashes : Nat) (c : Char) : ScriptPart :=
  if c = '-' then continued (dashes + 1)
  else if c = '>' && 2 ≤ dashes then .code
  else continued 0

def ScriptPart.next (part : ScriptPart) (c : Char) (cs : List Char) : ScriptPart :=
  match part with
  | .code => if (Text.dropStart? "<!--".toList (c :: cs)).isSome then .comment 0 else .code
  | .comment dashes =>
    if startsTag "<script".toList (c :: cs) then .nested 0 else behind .comment dashes c
  | .nested dashes =>
    if startsTag "</script".toList (c :: cs) then .comment 0 else behind .nested dashes c

def scriptText (part : ScriptPart) (before : List Char) : List Char → List Char × List Char
  | [] => (before.reverse, [])
  | c :: cs =>
    let isNested := match part with
      | .nested _ => true
      | _ => false
    if c = '<' && !isNested && isEndTagOf "script" (c :: cs) then (before.reverse, c :: cs)
    else scriptText (part.next c cs) (visibleChar c :: before) cs

def startsMarkup (c : Char) : Bool :=
  c == '<' || c == '&' || c == '\x00'

def cutText (c : Char) (cs : List Char) : Cut :=
  (textTokens (visibleChar c :: cs.takeWhile (!startsMarkup ·)), cs.dropWhile (!startsMarkup ·))

def cut (fuel : Nat) (reading : Reading) (inForeign : Bool) : List Char → Cut
  | [] => ([], [])
  | c :: cs =>
    match reading with
    | .markup =>
      if c = '<' then cutMarkup fuel inForeign cs
      else if c = '&' then cutReference cs
      else if c = '\x00' then ([.null], cs)
      else cutText c cs
    | .raw .script _ =>
      match scriptText .code [] (c :: cs) with
      | ([], rest) => cutEndTag fuel (rest.drop 2)
      | (text, rest) => (textTokens text, rest)
    | .raw kind name =>
      if isEndTagOf name (c :: cs) then cutEndTag fuel (cs.drop 1)
      else if c = '&' && kind = .escapable then cutReference cs
      else cutText c cs
    | .plain => (textTokens ((c :: cs).map visibleChar), [])

end NoteMarkup.Html
