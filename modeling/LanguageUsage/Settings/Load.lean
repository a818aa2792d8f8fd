import LanguageUsage.Document.Reader
import LanguageUsage.Document.Writer
import LanguageUsage.Files.Tree
import LanguageUsage.Settings.Basic

/-!
# Loading and saving settings

Settings are read from a file. Where there is none, one with the default settings is written. The
variables are looked at last, so what is written does not depend on them.

* `Settings.save`, `Settings.load`;
* `Settings.fileIn`: the file of a directory.
-/

namespace LanguageUsage.Settings

/-- The settings file of a directory. -/
def fileIn (directory : Path) : Path := directory.child "config.json"

/-- Write settings to a file, making the directories that lead to it. -/
def save (t : Tree) (s : Settings) (file : Path) : Tree × Except Fault Unit :=
  match t.makeDirectories file.parent with
  | (t, .error f) => (t, .error f)
  | (t, .ok ()) =>
    match t.writeText file (Document.write s.toDocument) with
    | .ok t => (t, .ok ())
    | .error f => (t, .error f)

/-- Read the settings from a file. -/
def readFrom (t : Tree) (file directory : Path) : Except Fault Settings := do
  ofDocument (← Document.read (← t.readText file)) directory

/-- Write the default settings to a file. -/
def create (t : Tree) (file directory : Path) : Tree × Except Fault Settings :=
  match t.makeDirectories directory with
  | (t, .error f) => (t, .error f)
  | (t, .ok ()) =>
    let (t, r) := save t (new directory) file
    (t, r.map fun () => new directory)

/-- The settings of a file, read or newly written, before the variables are looked at. -/
def readOrCreate (t : Tree) (file directory : Path) : Tree × Except Fault Settings :=
  match t.isThere file with
  | .error f => (t, .error f)
  | .ok true => (t, readFrom t file directory)
  | .ok false => create t file directory

/-- The file that is asked for and its directory; without a request those of the user. -/
def fileAndDirectory (e : Environment) : Option Path → Except Fault (Path × Path)
  | some file => .ok (file, file.parent)
  | none => e.directory.map fun d => (fileIn d, d)

/-- Load the settings of a run. -/
def load (t : Tree) (e : Environment) (file : Option Path) : Tree × Except Fault Settings :=
  match fileAndDirectory e file with
  | .error f => (t, .error f)
  | .ok (file, directory) =>
    let (t, r) := readOrCreate t file directory
    (t, r.map fun s => s.overridden e)

end LanguageUsage.Settings
