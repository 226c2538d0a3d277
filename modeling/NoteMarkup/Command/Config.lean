import NoteMarkup.Json.Forms

/-!
This module contains the configuration of the command: what is written, how, and where to.
-/

namespace NoteMarkup.Command

inductive OutputForm where
  | markup
  | tree
  | events
  | xml
  deriving DecidableEq, Repr, Inhabited

namespace OutputForm

def all : List OutputForm :=
  [markup, tree, events, xml]

def name : OutputForm → String
  | markup => "markup"
  | tree => "tree"
  | events => "events"
  | xml => "xml"

def ofName? (name : String) : Option OutputForm :=
  all.find? fun f => f.name == name

def extension : OutputForm → String
  | markup => "xml"
  | tree => "json"
  | events => "json"
  | xml => "xml"

def ofJson? : Json → Option OutputForm
  | .string name => ofName? name
  | .object [(name, .null)] => ofName? name
  | _ => none

end OutputForm

structure Config where
  format : OutputForm := .markup
  pretty : Bool := false
  outDir : Option String := none
  clean : CleaningOptions := {}
  deriving DecidableEq, Repr, Inhabited

namespace Config

def fileName : String :=
  "notepaste.config.json"

def toJson (c : Config) : Json :=
  .object ([("format", .string c.format.name), ("pretty", .bool c.pretty)] ++
    (c.outDir.toList.map fun dir => ("outDir", .string dir)) ++ [("clean", c.clean.toJson)])

def outDirOfJson? : Json → Option (Option String)
  | .null => some none
  | v => v.string?.map some

def ofJson? (v : Json) : Option Config := do
  match ← v.fields? ["format", "pretty", "outDir", "clean"] with
  | [format, pretty, outDir, clean] =>
    return {
      format := ← Json.orDefault .markup OutputForm.ofJson? format
      pretty := ← Json.orDefault false Json.bool? pretty
      outDir := ← Json.orDefault none outDirOfJson? outDir
      clean := ← Json.orDefault {} CleaningOptions.ofJson? clean }
  | _ => none

def parseJson? (text : String) : Option Config := do
  ofJson? (← Json.parse? text)

end Config

end NoteMarkup.Command
