import LanguageUsage.Command.Run
import LanguageUsage.Files.TableFile

/-!
# The program

Looks up the files that a command line concerns, runs it on them, writes the files that have changed,
and prints what the run prints.
-/

namespace LanguageUsage.Program

/-- The name of a location for the operating system. -/
def nameOf (l : Location) : String := "/" ++ "/".intercalate l

/-- What is at a location. Whatever is there and cannot be read as a file is a directory. -/
def look (l : Location) : IO (Option Entry) := do
  try
    return some (.file (.ofText (← IO.FS.readFile (nameOf l))))
  catch
    | .noFileOrDirectory _ _ _ => return none
    | .userError _ => return some (.file (.text "\uFFFD"))
    | _ => return some .directory

/-- Look up everything on the way to the end of a path. -/
def survey (t : Tree) (p : Path) : IO Tree := do
  let mut t := t
  for k in List.range (p.names.length + 1) do
    match t.reach { p with names := p.names.take k } with
    | .error _ => pure ()
    | .ok l =>
      match t.entry? l, ← look l with
      | none, some e => t := t.put l e
      | _, _ => pure ()
  return t

/-- The variables of the run. -/
def environment : IO Environment := do
  return { home := (← IO.getEnv "HOME").getD "home"
           database := ← IO.getEnv "LANGPROFILE_DATABASE"
           backend := ← IO.getEnv "LANGPROFILE_BACKEND"
           suppressReplays := ← IO.getEnv "LANGPROFILE_SUPPRESS_REPLAYS" }

/-- The files that a command line concerns: the settings, and the database that they name. -/
def surveyFor (t : Tree) (e : Environment) (arguments : List String) : IO Tree := do
  match Invocation.read arguments with
  | .command settings _ _ | .unknown settings =>
    let file := settings.map Path.ofString
    match Settings.fileAndDirectory e file with
    | .error _ => return t
    | .ok (f, _) =>
      let t ← survey t f
      match Settings.load t e file with
      | (_, .ok s) =>
        match s.databasePath with
        | .ok p => survey t p
        | .error _ => return t
      | _ => return t
  | _ => return t

/-- Write what differs between two trees. -/
def writeChanges (before after : Tree) : IO Unit := do
  for (l, e) in after.entries do
    if before.entry? l != some e then
      match e with
      | .directory => IO.FS.createDirAll (nameOf l)
      | .file c => IO.FS.writeFile (nameOf l) c.toText

end LanguageUsage.Program

open LanguageUsage in
/-- Run the command line. All messages of a run are sent at the same time, so any time will do. -/
def main (arguments : List String) : IO UInt32 := do
  let start := Path.ofString (← IO.currentDir).toString
  let e ← Program.environment
  let before ← Program.surveyFor (.emptyAt start.names) e arguments
  let (after, report) := Run.commandLine before e default arguments
  Program.writeChanges before after
  IO.print report.output
  IO.eprint report.ending.errorText
  return report.ending.exitCode.toUInt32
