import NoteMarkup.Text.Blank

/-!
This module contains trees of files as values, and the names of files in them. A path is written with
slashes, and stands for the list of its parts from the root of the tree.
-/

namespace NoteMarkup.Command

/-- The parts of a path from the root, none of them empty, `.` or `..`. -/
abbrev Path := List String

inductive Contents where
  | text (content : String)
  | bytes
  deriving DecidableEq, Repr

structure FileTree where
  files : List (Path × Contents)
  /-- Directories, besides those that files are in. -/
  directories : List Path := []
  deriving Repr

inductive FileError where
  | notText
  | missing
  | isDirectory
  | notDirectory
  | exists
  deriving DecidableEq, Repr

def FileError.message : FileError → String
  | .notText => "stream did not contain valid UTF-8"
  | .missing => "No such file or directory (os error 2)"
  | .isDirectory => "Is a directory (os error 21)"
  | .notDirectory => "Not a directory (os error 20)"
  | .exists => "File exists (os error 17)"

def writtenParts (path : String) : List String :=
  (Text.pieces (· == '/') path.toList).map String.ofList

def joinPaths (base path : String) : String :=
  if path.startsWith "/" || base.isEmpty then path
  else if base.endsWith "/" then base ++ path
  else base ++ "/" ++ path

/-- The parts in front of the last dot of a name and behind it. A dot in front of everything is a part of
the name. -/
def splitExtension (name : String) : String × Option String :=
  let reversed := name.toList.reverse
  match reversed.dropWhile (· != '.') with
  | _ :: stem@(_ :: _) =>
    if name == ".." then (name, none)
    else (String.ofList stem.reverse, some (String.ofList (reversed.takeWhile (· != '.')).reverse))
  | _ => (name, none)

/-- The name with another extension in place of its own. Where only a dot is in front of an extension, the two
dots that are left without it are no name of a file, and take no extension. -/
def withExtension (extension name : String) : String :=
  match splitExtension name with
  | (".", some _) => ".."
  | (stem, _) => stem ++ "." ++ extension

def fileName? (path : String) : Option String :=
  match (writtenParts path).reverse.dropWhile fun part => part.isEmpty || part == "." with
  | ".." :: _ => none
  | name :: _ => some name
  | [] => none

namespace FileTree

def contents? (t : FileTree) (p : Path) : Option Contents :=
  (t.files.find? fun f => f.1 == p).map (·.2)

def isFile (t : FileTree) (p : Path) : Bool :=
  (t.contents? p).isSome

def isDirectory (t : FileTree) (p : Path) : Bool :=
  p.isEmpty || t.directories.contains p ||
    t.files.any fun f => p.isPrefixOf f.1 && p.length < f.1.length

def enter? (t : FileTree) (p : Path) (part : String) : Option Path :=
  if !t.isDirectory p then none
  else if part.isEmpty || part == "." then some p
  else if part == ".." then some p.dropLast
  else some (p ++ [part])

def resolve? (t : FileTree) (path : String) : Option Path := do
  let p ← (writtenParts path).foldlM t.enter? []
  if t.isFile p || t.isDirectory p then some p else none

def read (t : FileTree) (p : Path) : Except FileError String :=
  match t.contents? p with
  | some (.text content) => .ok content
  | some .bytes => .error .notText
  | none => .error (if t.isDirectory p then .isDirectory else .missing)

def makeAndEnter (t : FileTree) (p : Path) (part : String) : Except FileError (FileTree × Path) :=
  if t.isFile p then .error .notDirectory
  else if part.isEmpty || part == "." then .ok (t, p)
  else if part == ".." then .ok (t, p.dropLast)
  else
    let inner := p ++ [part]
    if t.isFile inner || t.isDirectory inner then .ok (t, inner)
    else .ok ({ t with directories := t.directories ++ [inner] }, inner)

def makeDirectory (t : FileTree) (parts : List String) : Except FileError (FileTree × Path) := do
  let (t, directory) ← parts.foldlM (fun (t, p) part => t.makeAndEnter p part) (t, [])
  if t.isFile directory then .error .exists else .ok (t, directory)

def write (t : FileTree) (path content : String) : Except FileError FileTree := do
  let parts := writtenParts path
  let (t, directory) ← t.makeDirectory parts.dropLast
  match t.enter? directory (parts.getLast?.getD "") with
  | none => .error .notDirectory
  | some p =>
    if t.isDirectory p then .error .isDirectory
    else .ok { t with files := t.files.filter (·.1 != p) ++ [(p, .text content)] }

def precedes : Path → Path → Bool
  | [], _ => true
  | _ :: _, [] => false
  | a :: as, b :: bs => a < b || (a == b && precedes as bs)

def upTo : Path → List Path
  | [] => [[]]
  | part :: rest => [] :: (upTo rest).map (part :: ·)

def below (t : FileTree) (directory : Path) : List Path :=
  let all := t.files.map (·.1) ++ t.directories
  let inside := (all.filter directory.isPrefixOf).map (·.drop directory.length)
  ((inside.flatMap upTo).eraseDups).mergeSort precedes

end FileTree

end NoteMarkup.Command
