import NoteMarkup.Grammar.Entry

/-!
This module contains content grammars, how one is built from declarations, and the faults for which
declarations are refused.
-/

namespace NoteMarkup

structure Grammar where
  entries : List Entry
  deriving Repr, Inhabited

inductive GrammarFault where
  | duplicate (kind : ElementKind)
  | missingParent (kind parent : ElementKind)
  | missingDefaultBlock (kind : ElementKind)
  | aliasCycle (kind : ElementKind)
  | styleCycle (kind : ElementKind)
  deriving DecidableEq, Repr

def GrammarFault.message : GrammarFault → String
  | .duplicate kind => "Element " ++ kind.name ++ " is declared more than once"
  | .missingParent kind parent =>
    "Element " ++ kind.name ++ " requires parent " ++ parent.name ++ ", which is not declared"
  | .missingDefaultBlock kind => "Default block " ++ kind.name ++ " is not declared as a block"
  | .aliasCycle kind => "Alias chain starting at " ++ kind.name ++ " never terminates"
  | .styleCycle kind => "Style synthesis starting at " ++ kind.name ++ " leads back to itself"

namespace Grammar

def assemble (declarations : List EntryDeclaration) : Grammar :=
  ⟨declarations.map (·.toEntry declarations)⟩

def entry? (g : Grammar) (kind : ElementKind) : Option Entry :=
  g.entries.find? fun e => e.kind == kind

def aliasOf? (g : Grammar) (kind : ElementKind) : Option ElementKind :=
  (g.entry? kind).bind (·.aliasOf)

def follow (g : Grammar) : Nat → ElementKind → ElementKind
  | 0, kind => kind
  | n + 1, kind =>
    match g.aliasOf? kind with
    | some next => follow g n next
    | none => kind

/-- The kind at the end of the alias links. A chain without a cycle has no more links than there are
entries. -/
def canonical (g : Grammar) (kind : ElementKind) : ElementKind :=
  g.follow g.entries.length kind

def canonicalName (g : Grammar) : TagName → TagName
  | .known kind => .known (g.canonical kind)
  | .unknown name => .unknown name

def writtenName? (g : Grammar) (kind : ElementKind) : Option String :=
  (g.entry? kind).bind (·.output)

def styleKinds (g : Grammar) (kind : ElementKind) : List ElementKind :=
  match g.entry? kind with
  | some e => (e.styleAttributes.flatMap fun (_, property) => property.kinds).map g.canonical
  | none => []

def styleReach (g : Grammar) : Nat → List ElementKind → List ElementKind
  | 0, reached => reached
  | n + 1, reached => styleReach g n (reached ++ reached.flatMap g.styleKinds).eraseDups

/-- The kinds that can be reached from a kind in one or more steps from a kind to its style kinds. Every
round before the last adds a kind, so there are no more rounds than kinds. -/
def styleClosure (g : Grammar) (kind : ElementKind) : List ElementKind :=
  g.styleReach ElementKind.all.length (g.styleKinds kind)

def duplicate? : List EntryDeclaration → List ElementKind → Option ElementKind
  | [], _ => none
  | d :: declarations, before =>
    if before.contains d.kind then some d.kind else duplicate? declarations (d.kind :: before)

def missingParent? (declarations : List EntryDeclaration) : Option (ElementKind × ElementKind) :=
  declarations.findSome? fun d =>
    match d.parentKinds declarations with
    | [] => none
    | parent :: _ => if declarations.any (·.kind == parent) then none else some (d.kind, parent)

def hasPlainBlock (g : Grammar) : Bool :=
  (g.entry? plainBlock).any (·.isBlock)

def aliasCycle? (g : Grammar) : Option ElementKind :=
  (g.entries.find? fun e => (g.aliasOf? (g.canonical e.kind)).isSome).map (·.kind)

def styleCycle? (g : Grammar) : Option ElementKind :=
  (g.entries.find? fun e => (g.styleClosure e.kind).contains e.kind).map (·.kind)

def ofDeclarations (declarations : List EntryDeclaration) : Except GrammarFault Grammar :=
  let g := assemble declarations
  match duplicate? declarations [] with
  | some kind => .error (.duplicate kind)
  | none =>
    match missingParent? declarations with
    | some (kind, parent) => .error (.missingParent kind parent)
    | none =>
      if !g.hasPlainBlock then .error (.missingDefaultBlock plainBlock)
      else
        match g.aliasCycle? with
        | some kind => .error (.aliasCycle kind)
        | none =>
          match g.styleCycle? with
          | some kind => .error (.styleCycle kind)
          | none => .ok g

end Grammar

end NoteMarkup
