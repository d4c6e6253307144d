import FieldQuery.CommandLine.Run
import FieldQuery.Shell.Evaluate
import FieldQuery.Shell.Prompt

/-!
# The program

The program works on a tree of the files that it needs, so these are read from the disk first: the
settings file, the schema document, and the documents that it extends, one after another.
-/

namespace FieldQuery

/-- The tree with what goes by the path on the disk. What cannot be read is left out. -/
def fetch (fs : Files) (path : String) : IO Files := do
  try
    return fs.write path (← IO.FS.readBinFile path)
  catch
    | .inappropriateType .. => return (fs.makeWay path).makeDirectory (Files.spelled path)
    | _ => return fs

/-- The tree with the schema document and those that it extends. -/
partial def fetchSchema (tried : List String) (fs : Files) (path : String) : IO Files := do
  match fs.chain [] path with
  | .error (.unreadable wanted .notFound) =>
    if wanted ∈ tried then return fs
    else fetchSchema (wanted :: tried) (← fetch fs wanted) path
  | _ => return fs

/-- The tree with all that a run with these arguments reads. -/
def fetchAll (home : String) (args : List String) : IO Files := do
  let .ok a := Arguments.read args | return {}
  let fs ← fetch {} (a.configPath home)
  match (a.config fs home).result with
  | .ok { schemaPath := some path, .. } => fetchSchema [] fs path
  | _ => return fs

/-- A line of input without its end. More is read for as long as a quote is open. -/
partial def readInput (shown before : String) : IO (Option String) := do
  let stdout ← IO.getStdout
  stdout.putStr shown
  stdout.flush
  let line ← (← IO.getStdin).getLine
  if line.isEmpty then return none
  let text := before ++ (if line.endsWith "\n" then (line.dropEnd 1).toString else line)
  if isCompleteLine text then return some text
  else readInput continuationPrompt (text ++ "\n")

/-- The shell, until it is left or the input ends. -/
partial def shell (s : Session) : IO Unit := do
  let some line ← readInput (prompt s.registry) "" | return
  let fs ← match s.schemaPath with
    | some path => fetchSchema [] {} path
    | none => pure {}
  let (e, s) := s.evaluate fs line
  match e with
  | .nothing => shell s
  | .print text => do
    IO.println text
    shell s
  | .fail text => do
    IO.eprintln text
    shell s
  | .quit => return

/-- A run of the program. -/
def program (args : List String) : IO UInt32 := do
  let home := (← IO.getEnv "HOME").getD "."
  let l := launch (← fetchAll home args) home args
  IO.print l.outcome.output
  IO.eprint l.outcome.errors
  if let some (s, _) := l.shell then
    shell s
    IO.println "Goodbye!"
  return l.outcome.status.toUInt32

end FieldQuery

def main (args : List String) : IO UInt32 :=
  FieldQuery.program args
