import NoteMarkup.Command.Run

/-!
This module contains the command line. It reads what a run may look at, has the run done on that, and then
prints and writes what came out.
-/

namespace NoteMarkup.Command

def usage : String :=
  "usage: notemarkup clean [-f markup|tree|events|xml] [--pretty] [--dedupe-inline] [--stdout] " ++
    "[-o DIRECTORY] [PATH]"

partial def readToEnd (stream : IO.FS.Stream) (read : ByteArray) : IO ByteArray := do
  let more ← stream.read 65536
  if more.isEmpty then return read else readToEnd stream (read ++ more)

def Contents.ofBytes (bytes : ByteArray) : Contents :=
  match String.fromUTF8? bytes with
  | some content => .text content
  | none => .bytes

namespace FileTree

def addDirectory (t : FileTree) (p : Path) : FileTree :=
  { t with directories := p :: t.directories }

def gatherOne (t : FileTree) (path : String) (p : Path) : IO FileTree := do
  match ← (IO.FS.realPath path).toBaseIO with
  | .error _ => return t
  | .ok place =>
    if ← place.isDir then return t.addDirectory p
    else return { t with files := (p, .ofBytes (← IO.FS.readBinFile path)) :: t.files }

/-- Takes up what is at and below a directory. Of the files, only those that are cleaned are read. A
directory that leads back to one around it is left out. -/
partial def gatherBelow (t : FileTree) (path : String) (p : Path) (around : List String) :
    IO FileTree := do
  let place ← IO.FS.realPath path
  if around.contains place.toString then return t
  let mut t := t.addDirectory p
  for entry in ← place.readDir do
    let below := joinPaths path entry.fileName
    if ← entry.path.isDir then
      t ← t.gatherBelow below (p ++ [entry.fileName]) (place.toString :: around)
    else if isHtmlName entry.fileName then
      t ← t.gatherOne below (p ++ [entry.fileName])
    else if !t.isFile (p ++ [entry.fileName]) then
      t := { t with files := (p ++ [entry.fileName], .bytes) :: t.files }
  return t

def gatherWay (t : FileTree) (path : String) : IO FileTree := do
  let mut t := t
  let mut p : Path := []
  for part in writtenParts path do
    match t.enter? p part with
    | none => return t
    | some next =>
      t ← t.gatherOne ("/" ++ next.written) next
      p := next
  return t

end FileTree

def Environment.gather (a : Arguments) : IO Environment := do
  let workingDirectory := toString (← IO.currentDir)
  let mut files : FileTree := ⟨[], []⟩
  files ← files.gatherWay (joinPaths workingDirectory Config.fileName)
  let stdin ←
    if a.path == none || a.path == some "-" then readToEnd (← IO.getStdin) .empty else pure .empty
  if let some argument := a.path then
    let path := joinPaths workingDirectory argument
    files ← files.gatherWay path
    if let some p := files.resolve? path then
      if files.isDirectory p then
        files ← files.gatherBelow ("/" ++ p.written) p []
  if let some outDir := a.outDir then
    files ← files.gatherWay (joinPaths workingDirectory outDir)
  return { workingDirectory, stdin := .ofBytes stdin, files }

def Outcome.carryOut (o : Outcome) : IO UInt32 := do
  for (path, content) in o.session.written do
    IO.FS.createDirAll (Path.written (writtenParts path).dropLast)
    IO.FS.writeFile path content
  for line in o.session.printed do
    match line with
    | .out text => IO.println text
    | .err text => IO.eprintln text
  match o.result with
  | .ok _ => return 0
  | .error e =>
    IO.eprintln s!"\nError: {e.message}\n"
    return 1

end NoteMarkup.Command

open NoteMarkup.Command in
def main (arguments : List String) : IO UInt32 := do
  match arguments with
  | "clean" :: rest =>
    match Arguments.parse rest with
    | .ok a => (← Environment.gather a).run a |>.carryOut
    | .error .helpRequested =>
      IO.println usage
      return 0
    | .error _ =>
      IO.eprintln usage
      return 2
  | _ =>
    IO.eprintln usage
    return 2
