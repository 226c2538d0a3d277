import NoteMarkup.Command.Settings

/-!
This module contains a run of the command on a tree of files. A run cleans standard input, one file, or all
HTML files at and below a directory. It is a function of the files it finds: what it prints and writes is
collected in a session.
-/

namespace NoteMarkup.Command

inductive Line where
  | out (text : String)
  | err (text : String)
  deriving DecidableEq, Repr

structure Session where
  files : FileTree
  printed : Array Line := #[]
  written : Array (String × String) := #[]
  deriving Repr

namespace Session

def print (s : Session) (text : String) : Session :=
  { s with printed := s.printed.push (.out text) }

def printError (s : Session) (text : String) : Session :=
  { s with printed := s.printed.push (.err text) }

def write (s : Session) (path content : String) : Except FileError Session := do
  return { s with files := ← s.files.write path content, written := s.written.push (path, content) }

def stdout (s : Session) : String :=
  s.printed.foldl
    (fun acc => fun
      | .out text => acc ++ text ++ "\n"
      | .err _ => acc) ""

def stderr (s : Session) : String :=
  s.printed.foldl
    (fun acc => fun
      | .out _ => acc
      | .err text => acc ++ text ++ "\n") ""

def convertFile (s : Session) (p : Path) (settings : Settings) : Except RunError String :=
  match s.files.read p with
  | .ok html => convert html settings
  | .error e => .error (.file e)

end Session

def Config.inDirectory (files : FileTree) (workingDirectory : String) : Except RunError Config :=
  match files.resolve? (joinPaths workingDirectory Config.fileName) with
  | none => .ok {}
  | some p =>
    match files.read p with
    | .error e => .error (.file e)
    | .ok text => (Config.parseJson? text).elim (.error .invalidConfig) .ok

def isHtmlName (name : String) : Bool :=
  (splitExtension name).2 == some "html" || (splitExtension name).2 == some "htm"

def Path.written (p : Path) : String :=
  "/".intercalate p

def htmlEntries (files : FileTree) (directory : Path) (writtenName : Option String) : List Path :=
  (files.below directory).filter fun p => (p.getLast?.or writtenName).any isHtmlName

def outputPath (outDir : String) (relative : Path) (extension : String) : String :=
  let names := relative.getLast?.toList.map (withExtension extension)
  joinPaths outDir (Path.written (relative.dropLast ++ names))

structure BatchSettings where
  settings : Settings
  directory : Path
  outDir : String
  toStdout : Bool
  deriving Repr

structure Batch where
  session : Session
  cleaned : Nat := 0
  failed : Nat := 0
  deriving Repr

namespace Batch

def fail (b : Batch) (relative : Path) (reason : String) : Batch :=
  { b with
    session := b.session.printError s!"  ✗ {relative.written} - {reason}"
    failed := b.failed + 1 }

def succeed (b : Batch) (session : Session) (line : String) : Batch :=
  { b with session := session.print line, cleaned := b.cleaned + 1 }

def step (t : BatchSettings) (b : Batch) (relative : Path) : Batch :=
  match b.session.convertFile (t.directory ++ relative) t.settings with
  | .error e => b.fail relative e.message
  | .ok output =>
    if t.toStdout then b.succeed b.session output
    else
      let path := outputPath t.outDir relative t.settings.format.extension
      match b.session.write path output with
      | .error e => b.fail relative e.message
      | .ok session => b.succeed session s!"  ✓ {relative.written} → {path}"

def summary (b : Batch) : String :=
  if b.failed = 0 then s!"✅ Cleaned {b.cleaned} files successfully"
  else s!"⚠️ Cleaned {b.cleaned} files, {b.failed} errors"

end Batch

def usualOutDir : String :=
  "cleaned"

structure Outcome where
  session : Session
  result : Except RunError Unit

structure Environment where
  workingDirectory : String
  stdin : Contents
  files : FileTree
  deriving Repr

namespace Environment

def start (env : Environment) : Session where
  files := env.files

def finish (env : Environment) : Except RunError String → Outcome
  | .ok line => { session := env.start.print line, result := .ok () }
  | .error e => { session := env.start, result := .error e }

def runOnStdin (env : Environment) (settings : Settings) : Outcome :=
  match env.stdin with
  | .text html => env.finish (convert html settings)
  | .bytes => env.finish (.error (.file .notText))

def runOnFile (env : Environment) (a : Arguments) (settings : Settings) (path : String) (p : Path) :
    Outcome :=
  match env.start.convertFile p settings, settings.outDir, a.stdout with
  | .ok output, some outDir, false =>
    let name := (fileName? path).toList
    let target := outputPath (joinPaths env.workingDirectory outDir) name settings.format.extension
    match env.start.write target output with
    | .ok session => { session := session.print s!"  ✓ {path} → {target}", result := .ok () }
    | .error e => env.finish (.error (.file e))
  | converted, _, _ => env.finish converted

def runOnDirectory (env : Environment) (a : Arguments) (settings : Settings) (path : String)
    (directory : Path) : Outcome :=
  match htmlEntries env.files directory (fileName? path) with
  | [] => env.finish (.ok "⚠️  No .html files found")
  | entries =>
    let t : BatchSettings := {
      settings, directory
      outDir := joinPaths env.workingDirectory (settings.outDir.getD usualOutDir)
      toStdout := a.stdout }
    if a.stdout then
      { session := (entries.foldl (Batch.step t) { session := env.start }).session, result := .ok () }
    else
      let opened := (env.start.print "🧹 Cleaning HTML files...").print s!"Found {entries.length} files"
      let batch := entries.foldl (Batch.step t) { session := opened }
      { session := (batch.session.print "").print batch.summary, result := .ok () }

/-- Runs the command. The output of a run that fails is what was printed before. -/
def run (env : Environment) (a : Arguments) : Outcome :=
  match Config.inDirectory env.files env.workingDirectory with
  | .error e => env.finish (.error e)
  | .ok config =>
    let settings := Settings.ofArguments a config
    match a.path with
    | none | some "-" => env.runOnStdin settings
    | some argument =>
      let path := joinPaths env.workingDirectory argument
      match env.files.resolve? path with
      | none => env.finish (.error (.other s!"Input path does not exist: {path}"))
      | some p =>
        if env.files.isFile p then env.runOnFile a settings path p
        else env.runOnDirectory a settings path p

end Environment

end NoteMarkup.Command
