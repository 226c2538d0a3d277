import NoteMarkup.Command.Arguments
import NoteMarkup.Command.FileTree
import NoteMarkup.Cleaning.Tree
import NoteMarkup.Document.Xml
import NoteMarkup.Grammar.Standard
import NoteMarkup.Html.Tree
import NoteMarkup.Event.Markup
import NoteMarkup.Event.Tree

/-!
This module contains the settings a run of the command works with, and the output for one HTML text.
-/

namespace NoteMarkup.Command

structure Settings where
  format : OutputForm
  pretty : Bool
  outDir : Option String
  clean : CleaningOptions
  deriving DecidableEq, Repr

def Settings.ofArguments (a : Arguments) (c : Config) : Settings where
  format := a.format.getD c.format
  pretty := a.pretty || c.pretty
  outDir := a.outDir.orElse fun _ => c.outDir
  clean := { c.clean with dedupeInline := a.dedupeInline || c.clean.dedupeInline }

inductive RunError where
  | file (fault : FileError)
  | invalidConfig
  | other (message : String)
  deriving DecidableEq, Repr

def RunError.message : RunError → String
  | .file fault => fault.message
  | .invalidConfig => "The configuration is not valid JSON"
  | .other message => message

def writeJson (pretty : Bool) (v : Json) : String :=
  if pretty then v.pretty else v.compact

def convert (html : String) (s : Settings) : Except RunError String :=
  let cleaner : Cleaner := ⟨.standard, s.clean⟩
  match cleaner.clean (Html.parse html) with
  | .error e => .error (.other e.message)
  | .ok events =>
    match s.format with
    | .markup => .ok (Event.markupOf .standard events)
    | .tree => .ok (writeJson s.pretty (Event.treeOf .standard events).toJson)
    | .events => .ok (writeJson s.pretty (Event.listToJson events))
    | .xml =>
      match Node.toXml (Event.treeOf .standard events) s.pretty with
      | .ok xml => .ok xml
      | .error e => .error (.other e.message)

end NoteMarkup.Command
