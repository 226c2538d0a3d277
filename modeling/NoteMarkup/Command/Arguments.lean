import NoteMarkup.Command.Config

/-!
This module contains the arguments of the command and how they are read. The value of an option may be
attached to it or follow as an argument of its own. A value that follows is looked at only when the reader
comes to the next known option, to the path or to the end, so that an argument that is unknown goes first.
-/

namespace NoteMarkup.Command

structure Arguments where
  path : Option String := none
  format : Option OutputForm := none
  pretty : Bool := false
  dedupeInline : Bool := false
  stdout : Bool := false
  outDir : Option String := none
  deriving DecidableEq, Repr, Inhabited

inductive UsageError where
  | unknownArgument
  | invalidValue
  | argumentConflict
  | tooManyValues
  | helpRequested
  deriving DecidableEq, Repr

inductive ValueOption where
  | format
  | outDir
  deriving DecidableEq, Repr

inductive Switch where
  | pretty
  | dedupeInline
  | stdout
  | help
  deriving DecidableEq, Repr

namespace ValueOption

def ofLongName? : String → Option ValueOption
  | "format" => some .format
  | "out-dir" => some .outDir
  | _ => none

def ofLetter? : Char → Option ValueOption
  | 'f' => some .format
  | 'o' => some .outDir
  | _ => none

def set (option : ValueOption) (value : String) (a : Arguments) : Except UsageError Arguments :=
  match option with
  | .format =>
    if a.format.isSome then .error .argumentConflict
    else
      match OutputForm.ofName? value with
      | some chosen => .ok { a with format := some chosen }
      | none => .error .invalidValue
  | .outDir =>
    if a.outDir.isSome then .error .argumentConflict else .ok { a with outDir := some value }

end ValueOption

namespace Switch

def ofLongName? : String → Option Switch
  | "pretty" => some .pretty
  | "dedupe-inline" => some .dedupeInline
  | "stdout" => some .stdout
  | "help" => some .help
  | _ => none

def set (switch : Switch) (a : Arguments) : Except UsageError Arguments :=
  match switch with
  | .pretty => if a.pretty then .error .argumentConflict else .ok { a with pretty := true }
  | .dedupeInline =>
    if a.dedupeInline then .error .argumentConflict else .ok { a with dedupeInline := true }
  | .stdout => if a.stdout then .error .argumentConflict else .ok { a with stdout := true }
  | .help => .error .helpRequested

end Switch

structure ArgumentReader where
  found : Arguments := {}
  pending : Option (ValueOption × Option String) := none
  optionsEnded : Bool := false

namespace ArgumentReader

def settle (r : ArgumentReader) : Except UsageError ArgumentReader :=
  match r.pending with
  | none => .ok r
  | some (_, none) => .error .invalidValue
  | some (option, some value) => do
    return { r with found := ← option.set value r.found, pending := none }

def readOption (r : ArgumentReader) (option : ValueOption) (attached : Option String) :
    Except UsageError ArgumentReader := do
  let r ← r.settle
  match attached with
  | some value => return { r with found := ← option.set value r.found }
  | none => return { r with pending := some (option, none) }

def readSwitch (r : ArgumentReader) (switch : Switch) : Except UsageError ArgumentReader := do
  let r ← r.settle
  return { r with found := ← switch.set r.found }

def readLong (r : ArgumentReader) (body : List Char) : Except UsageError ArgumentReader :=
  let (name, attached) :=
    match Text.splitOnce? '=' body with
    | some (name, value) => (String.ofList name, some (String.ofList value))
    | none => (String.ofList body, none)
  match ValueOption.ofLongName? name, Switch.ofLongName? name with
  | some option, _ => r.readOption option attached
  | none, some switch => if attached.isSome then .error .tooManyValues else r.readSwitch switch
  | none, none => .error .unknownArgument

def readShort (r : ArgumentReader) (letter : Char) (behind : List Char) :
    Except UsageError ArgumentReader :=
  match ValueOption.ofLetter? letter with
  | some option =>
    r.readOption option <|
      match behind with
      | [] => none
      | '=' :: value => some (String.ofList value)
      | value => some (String.ofList value)
  | none => if letter = 'h' then r.readSwitch .help else .error .unknownArgument

def readPlain (r : ArgumentReader) (argument : String) : Except UsageError ArgumentReader :=
  match r.optionsEnded, r.pending with
  | false, some (option, none) => .ok { r with pending := some (option, some argument) }
  | _, _ =>
    if r.found.path.isSome then .error .unknownArgument
    else do
      let r ← r.settle
      return { r with found := { r.found with path := some argument } }

def read (r : ArgumentReader) (argument : String) : Except UsageError ArgumentReader :=
  if r.optionsEnded then r.readPlain argument
  else
    match argument.toList with
    | ['-', '-'] => .ok { r with optionsEnded := true }
    | '-' :: '-' :: body => r.readLong body
    | '-' :: letter :: behind => r.readShort letter behind
    | _ => r.readPlain argument

end ArgumentReader

def Arguments.parse (arguments : List String) : Except UsageError Arguments := do
  let r ← arguments.foldlM ArgumentReader.read {}
  return (← r.settle).found

end NoteMarkup.Command
