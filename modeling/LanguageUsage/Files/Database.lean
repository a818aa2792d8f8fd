import LanguageUsage.Files.Tree
import LanguageUsage.Store.Address

/-!
# Databases in files

What the path of a database comes to in a file tree. The directories on the way are made for the path as
it stands; the file itself is the one that the address names, without following names: `..` always leads
back. Beside a database there may be a journal of unfinished changes. One that no change belongs to is
removed; one that cannot be replaced makes the database unusable. Databases are in the mode in which they
are made, that of a journal to take changes back from: the log and the index of a log of the other mode are
never written, and a log that was left beside a database is taken for one of no changes.

* `Tree.locate`: the location of the file that an address names;
* `Tree.openDatabase`: the database at a path;
* `Tree.keep`: the tree after it was used.
-/

namespace LanguageUsage.Tree

/-! ### Locations -/

/-- Go on from the end of a trail; nothing needs to be there, but there may be no file on the way. -/
def locateFrom (t : Tree) (trail : Trail) : List String → Option Trail
  | [] => some trail
  | name :: names =>
    if name = ".." then t.locateFrom (trail.drop 1) names
    else
      match t.last? trail with
      | some (.file _) => none
      | some (.directory _) =>
        if maxNameSize < name.utf8ByteSize then none else t.locateFrom (t.step trail name) names
      | none => t.locateFrom (t.step trail name) names

/-- The longest path of a database in bytes, from the top of the tree. -/
def maxDatabasePathSize : Nat := 504

/-- The trail to the file that an address names; the directory that holds it is there. -/
def locate (t : Tree) (file : String) : Option Trail :=
  let p := Path.ofString file
  match t.locateFrom (t.startOf p.start) p.names with
  | some (step :: trail) =>
    let size := ((step :: trail).map fun s => s.1.utf8ByteSize + 1).sum
    match t.last? trail with
    | some (.directory _) => if size ≤ maxDatabasePathSize then some (step :: trail) else none
    | _ => none
  | _ => none

/-- The location beside another one whose name goes on with `ending`. -/
def beside (l : Location) (ending : String) : Location :=
  l.dropLast ++ [(l.getLast?.getD "") ++ ending]

/-! ### Journals -/

/-- What the name of a journal of changes that are taken back ends with. -/
def journalEnding : String := "-journal"

/-- What the name of a journal of changes that are still to be made ends with. -/
def logEnding : String := "-wal"

/-- The name of a journal beside a location would be too long. -/
def isTooLongForJournal (l : Location) : Bool :=
  decide (maxNameSize < (l.getLast?.getD "").utf8ByteSize + journalEnding.utf8ByteSize)

/-- There is a directory where a journal should be. -/
def journalIsDirectory (t : Tree) (l : Location) : Bool :=
  t.entry? (beside l journalEnding) == some .directory
    || t.entry? (beside l logEnding) == some .directory

/-- The content of a journal seems to tell of changes. -/
def isHot : Content → Bool
  | .table _ => true
  | .text s => s.toList.head?.any (· != '\x00')

/-- There is a journal that seems to tell of changes. -/
def hasHotJournal (t : Tree) (l : Location) : Bool :=
  match t.entry? (beside l journalEnding) with
  | some (.file c) => isHot c
  | _ => false

/-- Remove a file in which there is something. -/
def removeFilled (t : Tree) (l : Location) : Tree :=
  match t.entry? l with
  | some (.file c) => if c = .text "" then t else t.remove l
  | _ => t

/-- The tree without the journals of a database that is not empty. -/
def withoutHotJournals (t : Tree) (l : Location) : Tree :=
  let t := if t.hasHotJournal l then t.remove (beside l journalEnding) else t
  t.removeFilled (beside l logEnding)

/-- Put the table of a database into its file. The journal of the change goes with it. -/
def putTable (t : Tree) (l : Location) (rows : Table) : Tree :=
  (t.remove (beside l journalEnding)).put l (.file (.table rows))

/-! ### Opening -/

/-- The medium that a file is for a database that only reads it, whatever is beside it. -/
def readMedium : Content → Medium
  | .table rows => .sealed rows
  | .text _ => .foreign

/-- Open a file for a database. An empty one will do. -/
def openFile (t : Tree) (l : Location) (c : Content) (access : Access) : Tree × Medium :=
  if access = .read then
    (t, if t.journalIsDirectory l || t.hasHotJournal l then .foreign else readMedium c)
  else if c = .text "" then
    let t := (t.removeFilled (beside l journalEnding)).removeFilled (beside l logEnding)
    if t.journalIsDirectory l || isTooLongForJournal l then (t, .foreign)
    else (t.putTable l [], .table [])
  else if t.journalIsDirectory l then (t, .foreign)
  else
    match c with
    | .table rows =>
      (t.withoutHotJournals l, if isTooLongForJournal l then .sealed rows else .table rows)
    | .text _ => (t.withoutHotJournals l, .foreign)

/-- Open the file at the end of a trail, or make one, as far as it is allowed. -/
def openTrail (t : Tree) (a : Address) (trail : Trail) : Tree × Medium :=
  let l := trail.location
  let opened := fun (t : Tree) (c : Content) =>
    if a.unchanging then (t, readMedium c) else t.openFile l c a.access
  match t.last? trail with
  | some (.file c) => opened t c
  | some (.directory _) => (t, if a.access = .read then .foreign else .closedOff)
  | none =>
    if a.access = .create then opened (t.put l (.file (.text ""))) (.text "") else (t, .closedOff)

/-- Open the database of an address. -/
def openAddress (t : Tree) (a : Address) : Tree × Medium :=
  match a.file with
  | none => (t, if a.access = .read then .foreign else .table [])
  | some file =>
    match t.locate file with
    | some trail => t.openTrail a trail
    | none => (t, .closedOff)

/-- The database at a path, and the tree in which it is opened. -/
def openDatabase (t : Tree) (path : String) : Tree × DatabaseStore :=
  if path = volatilePath then (t, .volatile)
  else
    let store := fun (m : Medium) => ({ path := path, medium := m } : DatabaseStore)
    match t.makeDirectories (Path.ofString path).parent with
    | (t, .error .nulInPath) => (t, store .unnameable)
    | (t, .error .nestedTooDeep) => (t, store .tooDeep)
    | (t, .error _) => (t, store .closedOff)
    | (t, .ok ()) =>
      if path.toList.contains '\x00' then (t, store .unnameable)
      else
        match Address.read path with
        | none => (t, store .closedOff)
        | some a =>
          let (t, m) := t.openAddress a
          (t, { store m with lasting := a.file.isSome })

/-- Put the table of a database back into its file. -/
def keep (t : Tree) (s : DatabaseStore) : Tree :=
  match s.medium, (Address.read s.path).bind (·.file) with
  | .table rows, some file =>
    match t.locate file with
    | some trail =>
      let l := trail.location
      if t.entry? l = some (.file (.table rows)) then t else t.putTable l rows
    | none => t
  | _, _ => t

end LanguageUsage.Tree
