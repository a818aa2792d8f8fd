import LanguageUsage.Command.Basic
import LanguageUsage.Command.Grid
import LanguageUsage.Files.Database
import LanguageUsage.Ingest.Updater
import LanguageUsage.Settings.Load

/-!
# Running a command line

A run starts from the files that are there, prints lines, leaves files behind, and ends in one of
four ways. The settings are loaded before the arguments of the command are looked at.

* `Report`, `Ending`, `Ending.exitCode`, `Ending.errorText`;
* `Session`: a store that is opened for one command, with an updater on it;
* `Command.act`: a command on a session; `Run.command`: a command with its session;
* `Run.commandLine`: a whole command line.
-/

namespace LanguageUsage

/-- How a run ends. -/
inductive Ending
  | finished
  /-- the command line cannot be understood -/
  | misused
  /-- a fault that the user is told about -/
  | reported (f : Fault)
  /-- a fault that nothing was prepared for -/
  | crashed (f : Fault)
  deriving DecidableEq, Repr, Inhabited

/-- The lines that a run prints, and how it ends. -/
structure Report where
  lines : List String := []
  ending : Ending := .finished
  deriving DecidableEq, Repr, Inhabited

namespace Ending

/-- The exit code of a run. -/
def exitCode : Ending → Nat
  | .finished => 0
  | .misused => 2
  | .reported _ | .crashed _ => 1

/-- The text for the error stream, other than about misuse. -/
def errorText : Ending → String
  | .reported f =>
    let cs := ("Error: " ++ f.message.getD "" ++ "\n").toList
    String.ofList (Text.withoutEscapes cs.length cs)
  | _ => ""

/-- Users are told about faults of stores, detectors and values. -/
def ofFault (f : Fault) : Ending :=
  match f.category with
  | .storeFailure | .detectionFailure | .invalidValue => .reported f
  | _ => .crashed f

end Ending

namespace Report

/-- The columns of the terminal. -/
def screenWidth : Nat := 80

/-- A run that prints messages, wrapped to the width of the terminal. -/
def saying (messages : List String) (ending : Ending := .finished) : Report :=
  ⟨messages.flatMap (Text.wrapped screenWidth), ending⟩

/-- What the run prints, every line with its end. -/
def output (r : Report) : String := String.join (r.lines.map (· ++ "\n"))

end Report

namespace Run

/-- The version of the program. -/
def version : String := "0.1.0"

/-- The line that tells the version. -/
def versionLine : String := "langprofile, version " ++ version

/-! ### Commands without a store -/

/-- The line for a candidate language. -/
def candidateLine (c : Language.Candidate) : String :=
  "  " ++ c.tag ++ ": " ++
    (match c.confidence with
      | .nan => ""
      | .signed _ m => m.fixed 2)

/-- The candidates for the language of a text. -/
def detect (text : String) : Report :=
  match Language.detect text with
  | [] => .saying ["No language detected."]
  | cs => .saying (cs.map candidateLine)

/-- The settings of the run. -/
def status (s : Settings) : Report :=
  let front := ["langprofile status", "", "  Version: " ++ version,
    "  Config: " ++ s.directory.toString, "  Backend: " ++ s.backend.display]
  match s.databasePath with
  | .error f => .saying front (.crashed f)
  | .ok p =>
    .saying (front ++ ["  Database: " ++ p.toString,
      "  Replay suppression: " ++ (if s.suppressReplays.isTruthy then "on" else "off")])

/-! ### Commands on a store -/

/-- The request for texts that were sent just now. -/
def requestOf (now : Moment) (texts : List String) (notification : Option String) : Request where
  messages := texts.map fun t => { text := some t, time := some now }
  extras := match notification with
    | some k => if k = "" then [] else [(notificationField, .text k)]
    | none => []

/-- The table of counters. -/
def grid (rows : List Row) : Grid where
  title := "Language signals"
  columns := [⟨"Language", false⟩, ⟨"Signal", false⟩, ⟨"Count", true⟩]
  rows := rows.map fun r => [r.tag, r.kind.name, r.count.display]

/-- The lines about the frequent languages of some kinds, up to the first fault. -/
def frequentLines (s : Store) (minShare : Value) : List SignalKind → Report
  | [] => {}
  | k :: ks =>
    match s.frequent (.kind k) minShare with
    | .error f => { ending := .ofFault f }
    | .ok tags =>
      let line := "  Frequent for " ++ k.name ++ ": " ++ ", ".intercalate tags
      let rest := frequentLines s minShare ks
      { rest with lines := (Report.saying (if tags = [] then [] else [line])).lines ++ rest.lines }

/-- The counters of one kind or of all, and the frequent languages. -/
def counters (s : Store) (minShare : Value) (kind : Option SignalKind) : Report :=
  let rows := match kind with
    | some k => s.byKind (.kind k)
    | none => s.rows
  match rows with
  | .error f => { ending := .ofFault f }
  | .ok [] => .saying ["No signals recorded yet."]
  | .ok rows =>
    let rest := frequentLines s minShare ((kind.map fun k => [k]).getD SignalKind.all)
    { rest with lines := (grid rows).lines Report.screenWidth ++ rest.lines }

/-- Perform a call, and print a line if it succeeds. -/
def count (u : Updater) (c : Call) (line : String) : Updater × Report :=
  let o := u.perform c
  match o.result with
  | .ok () => (o.updater, .saying [line])
  | .error f => (o.updater, { ending := .ofFault f })

/-- Carry out a command on an open store. -/
def act (u : Updater) (minShare : Value) (now : Moment) : Command → Updater × Report
  | .classify tags =>
    count u (.classify (tags.map .text))
      ("Counted classify-text for " ++ ", ".intercalate (firstOccurrences tags))
  | .converse texts notification =>
    count u (.converse (requestOf now texts notification) .byScript)
      ("Counted " ++ toString texts.length ++ " message(s)")
  | .counters kind => (u, counters u.store minShare kind)
  | _ => (u, {})

/-- The store for which the settings ask, and the tree in which it is opened. -/
def openStore (t : Tree) (s : Settings) : Except Fault (Tree × Store) :=
  match s.storeChoice with
  | .error f => .error f
  | .ok .memory => .ok (t, .memory {})
  | .ok (.database path) =>
    let (t, database) := t.openDatabase path
    .ok (t, .database database)

/-- The tree after a store was used. -/
def keepStore (t : Tree) : Store → Tree
  | .memory _ => t
  | .database d => t.keep d

/-- Carry out a command on a store that is opened for it and closed after it. -/
def onStore (t : Tree) (s : Settings) (now : Moment) (c : Command) : Tree × Report :=
  match openStore t s with
  | .error f => (t, { ending := .ofFault f })
  | .ok (t, store) =>
    match store.connect with
    | (_, .error f) => (t, { ending := .ofFault f })
    | (store, .ok ()) =>
      let (u, report) := act ⟨store, s.policy, []⟩ s.minShare now c
      (keepStore t u.store, report)

/-- Carry out a command. -/
def command (t : Tree) (s : Settings) (now : Moment) : Command → Tree × Report
  | .help => (t, {})
  | .detect text => (t, detect text)
  | .status => (t, status s)
  | c => onStore t s now c

/-! ### Command lines -/

/-- The settings file that is asked for may not be a directory. -/
def namesDirectory (t : Tree) (file : String) : Bool :=
  file != "" && t.isDirectory (.ofString file)

/-- The settings file that is asked for can be looked up. -/
def checkSettings (t : Tree) : Option String → Ending
  | none => .finished
  | some file =>
    if file.toList.contains '\x00' then .crashed .nulInPath
    else if namesDirectory t file then .misused
    else .finished

/-- Load the settings, read the arguments of a command and carry it out. -/
def loaded (t : Tree) (e : Environment) (now : Moment) (settings : Option String)
    (name : CommandName) (arguments : List String) : Tree × Report :=
  match Settings.load t e (settings.map Path.ofString) with
  | (t, .error f) => (t, { ending := .crashed f })
  | (t, .ok s) =>
    match Command.read name arguments with
    | none => (t, { ending := .misused })
    | some c => command t s now c

/-- Run a command line. -/
def commandLine (t : Tree) (e : Environment) (now : Moment) (arguments : List String) :
    Tree × Report :=
  match Invocation.read arguments with
  | .misuse => (t, { ending := .misused })
  | .help => (t, {})
  | .version => (t, { lines := [versionLine] })
  | .unknown settings =>
    match checkSettings t settings with
    | .finished => (t, { ending := .misused })
    | ending => (t, { ending := ending })
  | .command settings name arguments =>
    match checkSettings t settings with
    | .finished => loaded t e now settings name arguments
    | ending => (t, { ending := ending })

end Run

end LanguageUsage
