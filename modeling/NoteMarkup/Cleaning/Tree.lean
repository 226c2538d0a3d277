import NoteMarkup.Cleaning.Opening
import NoteMarkup.SourceEvent

/-!
This module contains the cleaning of a source tree: the events of the tree act on a draft one by one, from
nothing open to nothing open.
-/

namespace NoteMarkup

inductive CleaningError where
  | invalidArgument (message : String)
  | endlessOpening
  deriving DecidableEq, Repr

def CleaningError.message : CleaningError → String
  | .invalidArgument message => "Invalid argument: " ++ message
  | .endlessOpening => "Required parents never end"

namespace Draft

def step? (c : Cleaner) (d : Draft) : SourceEvent → Option Draft
  | .enter name attributes => d.enter? c (.ofName name) attributes
  | .leave name => some (d.leave c (.ofName name))
  | .text content =>
    match c.options.admitText? content with
    | some content => d.text? c content
    | none => some d

def run? (c : Cleaner) (d : Draft) (events : List SourceEvent) : Option Draft :=
  events.foldlM (step? c) d

end Draft

namespace Cleaner

def cleanEvents? (c : Cleaner) (events : List SourceEvent) : Option (List Event) :=
  (({} : Draft).run? c events).map fun d => (d.closeAll c).output.toList

def clean (c : Cleaner) (root : Node) : Except CleaningError (List Event) :=
  match SourceEvent.ofRoot root with
  | .error e => .error (.invalidArgument e.message)
  | .ok events =>
    match c.cleanEvents? events with
    | some cleaned => .ok cleaned
    | none => .error .endlessOpening

end Cleaner

end NoteMarkup
