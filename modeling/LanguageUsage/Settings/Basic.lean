import LanguageUsage.Conversation.Request
import LanguageUsage.Files.Path
import LanguageUsage.Ingest.Updater
import LanguageUsage.Usage

/-!
# Settings

The settings of the program: which store to use and where, how to take replays, and from which share
on a language is frequent. They are taken as they are found and judged only when they are used. A
database that is not named is the one in the settings' directory.

* `Settings`, `Settings.new`;
* `Settings.ofDocument`, `Settings.toDocument`: the settings that a document gives, and their
  document;
* `Environment`, `Settings.overridden`: the variables that take precedence;
* `Settings.storeChoice`, `Settings.policy`: what the settings ask for.
-/

namespace LanguageUsage

/-- The name of the database that is used when none is named. -/
def databaseName : String := "profile.db"

/-- The settings of the program, with the directory to which they belong. -/
structure Settings where
  directory : Path
  backend : Value
  database : Value
  defaultKey : Value
  suppressReplays : Value
  capacity : Value
  minShare : Value
  deriving DecidableEq, Repr, Inhabited

/-- The variables of a run. One that is set to the empty text counts as not set, but for the home
directory. -/
structure Environment where
  home : String := "home"
  database : Option String := none
  backend : Option String := none
  suppressReplays : Option String := none
  deriving DecidableEq, Repr, Inhabited

/-- The path without slashes at its end; the root is left when there is nothing else. -/
def withoutSlashes (s : String) : String :=
  let cs := (s.toList.reverse.dropWhile (· == '/')).reverse
  if cs = [] then "/" else String.ofList cs

/-- The directory of the settings of a user. -/
def Environment.directory (e : Environment) : Except Fault Path :=
  let home := withoutSlashes e.home
  if home.toList.head? = some '~' then .error .noHome
  else .ok ((Path.ofString home).child ".langprofile")

namespace Settings

/-- The path of the database in a directory. -/
def databaseIn (directory : Path) : String := (directory.child databaseName).toString

/-- Settings with what is missing from them: a database that is not named. -/
def completed (s : Settings) : Settings :=
  if s.database.isTruthy then s else { s with database := .text (databaseIn s.directory) }

/-- The settings of a directory in which nothing is set. -/
def new (directory : Path) : Settings where
  directory := directory
  backend := .text "sqlite"
  database := .text (databaseIn directory)
  defaultKey := .text defaultNotification
  suppressReplays := .bool false
  capacity := .whole 256
  minShare := defaultMinShare

/-! ### Documents -/

/-- The fields of a value that is gone through by name. -/
def fieldsOf : Value → Except Fault Value.Fields
  | .object fields => .ok fields
  | v => .error (.noMember v "get")

/-- The fields of a section of a document; one that counts as missing has none. -/
def sectionOf (data : Value.Fields) (name : String) : Except Fault Value.Fields :=
  match data.get? name with
  | some v => if v.isTruthy then fieldsOf v else .ok []
  | none => .ok []

/-- The value of a field, or what is used without it. -/
def fieldOr (fields : Value.Fields) (name : String) (default : Value) : Value :=
  (fields.get? name).getD default

/-- The settings that a document gives for a directory. -/
def ofDocument (data : Value) (directory : Path) : Except Fault Settings := do
  let data ← fieldsOf data
  let s := new directory
  let storage ← sectionOf data "storage"
  let updater ← sectionOf data "updater"
  let profile ← sectionOf data "profile"
  return { directory := directory
           backend := fieldOr storage "backend" s.backend
           database := fieldOr storage "database" s.database
           defaultKey := fieldOr updater "default_notification_key" s.defaultKey
           suppressReplays := fieldOr updater "suppress_replays" s.suppressReplays
           capacity := fieldOr updater "replay_cache_size" s.capacity
           minShare := fieldOr profile "frequent_min_share" s.minShare }

/-- The document of the settings. The directory is not part of it. -/
def toDocument (s : Settings) : Value :=
  .object [
    ("storage", .object [("backend", s.backend), ("database", s.database)]),
    ("updater", .object [("default_notification_key", s.defaultKey),
      ("suppress_replays", s.suppressReplays), ("replay_cache_size", s.capacity)]),
    ("profile", .object [("frequent_min_share", s.minShare)])]

/-! ### Variables -/

/-- The words for yes. -/
def trueWords : List String := ["1", "true", "yes", "on"]

/-- The word stands for yes, whatever its case and the blanks around it. -/
def isTrueWord (s : String) : Bool :=
  trueWords.contains (String.ofList ((Text.trimChars s.toList).map Char.toLower))

/-- A variable that is set and not empty. -/
def given (word : Option String) : Option String := word.filter (· != "")

/-- The settings, as far as the variables do not say otherwise. -/
def overridden (s : Settings) (e : Environment) : Settings :=
  { s with
    database := ((given e.database).map Value.text).getD s.database
    backend := ((given e.backend).map Value.text).getD s.backend
    suppressReplays :=
      ((given e.suppressReplays).map fun w => Value.bool (isTrueWord w)).getD s.suppressReplays }

/-! ### Use -/

/-- The path of the database. -/
def databasePath (s : Settings) : Except Fault Path :=
  match s.database with
  | .text p => .ok (.ofString p)
  | v => .error (.notAPath v)

/-- The kind of store that is asked for. -/
inductive StoreChoice
  | memory
  | database (path : String)
  deriving DecidableEq, Repr

/-- The store for which the settings ask. -/
def storeChoice (s : Settings) : Except Fault StoreChoice :=
  if s.backend = .text "sqlite" then s.databasePath.map fun p => .database p.toString
  else if s.backend = .text "memory" then .ok .memory
  else .error (.unknownBackend s.backend)

/-- The settings of the updater. -/
def policy (s : Settings) : Policy where
  defaultKey := s.defaultKey
  suppressReplays := s.suppressReplays
  capacity := s.capacity

end Settings

end LanguageUsage
