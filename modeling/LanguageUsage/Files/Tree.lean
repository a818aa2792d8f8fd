import LanguageUsage.Fault
import LanguageUsage.Files.Path
import LanguageUsage.Store.Database

/-!
# File trees

The directories and files that a run finds and leaves, and the place in them from which relative
paths start.

* `Content`, `Node`, `Entry`, `Tree`: what there is;
* `Tree.entry?`, `Tree.put`, `Tree.remove`: what is at a location;
* `Tree.reach`: the location to which a path leads, if it leads through directories only;
* `Tree.isThere`, `Tree.isDirectory`, `Tree.makeDirectory`, `Tree.makeDirectories`;
* `Tree.readText`, `Tree.writeText`, `Tree.files`.
-/

namespace LanguageUsage

/-- What a file holds: text, or a database. -/
inductive Content
  | text (s : String)
  | table (t : Table)
  deriving DecidableEq, Repr, Inhabited

/-- A file, or a directory with what is in it by name. -/
inductive Node
  | file (c : Content)
  | directory (children : List (String × Node))
  deriving Repr, Inhabited

/-- What is found at a location. -/
inductive Entry
  | directory
  | file (c : Content)
  deriving DecidableEq, Repr, Inhabited

/-- The names from the top of the tree. -/
abbrev Location := List String

namespace Node

def entry : Node → Entry
  | .file c => .file c
  | .directory _ => .directory

/-- A directory in which there is nothing. -/
def emptyDirectory : Node := .directory []

/-- What a directory holds under a name. -/
def child? : Node → String → Option Node
  | .file _, _ => none
  | .directory children, name => children.lookup name

/-- What is at a location below. -/
def at? : Node → Location → Option Node
  | n, [] => some n
  | n, name :: l =>
    match n.child? name with
    | some m => m.at? l
    | none => none

/-- Give a name to a node, in place of the one that has it. -/
def setChild (name : String) (m : Node) : List (String × Node) → List (String × Node)
  | [] => [(name, m)]
  | c :: cs => if c.1 = name then (name, m) :: cs else c :: setChild name m cs

/-- A node for an entry, in place of another one; what a directory holds stays. -/
def become (e : Entry) (n : Node) : Node :=
  match e, n with
  | .file c, _ => .file c
  | .directory, .directory children => .directory children
  | .directory, .file _ => emptyDirectory

/-- Put an entry at a location below, through directories, which are made where there are none. -/
def put (e : Entry) : Node → Location → Node
  | n, [] => n.become e
  | .file c, _ :: _ => .file c
  | .directory children, name :: l =>
    .directory (setChild name (put e ((children.lookup name).getD emptyDirectory) l) children)

/-- Remove what is at a location below. -/
def remove : Node → Location → Node
  | n, [] => n
  | .file c, _ => .file c
  | .directory children, [name] => .directory (children.filter (·.1 ≠ name))
  | .directory children, name :: l =>
    match children.lookup name with
    | some m => .directory (setChild name (m.remove l) children)
    | none => .directory children

mutual

/-- A node and all that is below it, by location. -/
def entriesFrom (l : Location) : Node → List (Location × Entry)
  | .file c => [(l, .file c)]
  | .directory children => (l, .directory) :: childEntriesFrom l children

/-- All that is below a location in some nodes. -/
def childEntriesFrom (l : Location) : List (String × Node) → List (Location × Entry)
  | [] => []
  | (name, m) :: cs => entriesFrom (l ++ [name]) m ++ childEntriesFrom l cs

end

end Node

/-- The node at the top, and the location from which relative paths start. -/
structure Tree where
  here : Location
  root : Node
  deriving Repr, Inhabited

/-- Why a path leads nowhere. -/
inductive Obstacle
  | missing
  | notADirectory
  | nameTooLong
  | nul
  deriving DecidableEq, Repr

/-- The fault of a path that leads nowhere. -/
def Obstacle.fault (path : String) : Obstacle → Fault
  | .missing => .fileMissing path
  | .notADirectory => .notADirectory path
  | .nameTooLong => .nameTooLong path
  | .nul => .nulInPath

namespace Tree

/-- The tree that holds nothing but the directory where paths start. -/
def emptyAt (here : Location) : Tree := ⟨here, Node.emptyDirectory.put .directory here⟩

/-- What is at a location. -/
def entry? (t : Tree) (l : Location) : Option Entry := (t.root.at? l).map Node.entry

/-- Put an entry at a location, in place of what is there. -/
def put (t : Tree) (l : Location) (e : Entry) : Tree := { t with root := t.root.put e l }

/-- Remove what is at a location. -/
def remove (t : Tree) (l : Location) : Tree := { t with root := t.root.remove l }

/-- All entries by location. -/
def entries (t : Tree) : List (Location × Entry) := t.root.entriesFrom []

/-! ### Following paths -/

/-- The longest name in bytes. -/
def maxNameSize : Nat := 255

/-- The longest path in bytes. -/
def maxPathSize : Nat := 4095

/-- The steps to a location, the last one first, each with what is there, if anything. -/
abbrev Trail := List (String × Option Node)

/-- What is at the end of a trail. -/
def last? (t : Tree) : Trail → Option Node
  | [] => some t.root
  | s :: _ => s.2

/-- The location at the end of a trail. -/
def Trail.location (trail : Trail) : Location := (trail.map (·.1)).reverse

/-- One step further on. -/
def step (t : Tree) (trail : Trail) (name : String) : Trail :=
  (name, (t.last? trail).bind (·.child? name)) :: trail

/-- Follow names from the end of a trail. All but the last have to lead to directories. -/
def follow (t : Tree) (trail : Trail) : List String → Except Obstacle Trail
  | [] => .ok trail
  | name :: names =>
    match t.last? trail with
    | none => .error .missing
    | some (.file _) => .error .notADirectory
    | some (.directory _) =>
      if maxNameSize < name.utf8ByteSize then .error .nameTooLong
      else t.follow (if name = ".." then trail.drop 1 else t.step trail name) names

/-- The trail to the starting point of a path. -/
def startOf (t : Tree) : Path.Start → Trail
  | .here => t.here.foldl t.step []
  | .root | .doubleRoot => []

/-- The trail of a path. -/
def trailOf (t : Tree) (p : Path) : Except Obstacle Trail :=
  if p.names.any fun n => n.toList.contains '\x00' then .error .nul
  else if maxPathSize < p.toString.utf8ByteSize then .error .nameTooLong
  else t.follow (t.startOf p.start) p.names

/-- The location to which a path leads. -/
def reach (t : Tree) (p : Path) : Except Obstacle Location := (t.trailOf p).map Trail.location

/-- What is at the end of a path. -/
def find (t : Tree) (p : Path) : Except Obstacle (Option Entry) :=
  (t.trailOf p).map fun trail => (t.last? trail).map Node.entry

/-- There is something at the end of the path. A name that is too long is a fault, every other
obstacle means that there is not. -/
def isThere (t : Tree) (p : Path) : Except Fault Bool :=
  match t.find p with
  | .ok e => .ok e.isSome
  | .error .nameTooLong => .error (.nameTooLong p.toString)
  | .error _ => .ok false

/-- There is a directory at the end of the path. -/
def isDirectory (t : Tree) (p : Path) : Bool :=
  match t.find p with
  | .ok (some .directory) => true
  | _ => false

/-! ### Directories -/

/-- Make a directory where there is nothing, in one that is there. -/
def makeDirectory (t : Tree) (p : Path) : Except Fault Tree :=
  match t.trailOf p with
  | .error o => .error (o.fault p.toString)
  | .ok trail =>
    match t.last? trail with
    | some _ => .error (.fileExists p.toString)
    | none => .ok (t.put trail.location .directory)

/-- Make a directory unless it is there; a fault is passed over if so. -/
def ensureDirectory (t : Tree) (p : Path) : Tree × Except Fault Unit :=
  match t.makeDirectory p with
  | .ok t => (t, .ok ())
  | .error .nulInPath => (t, .error .nulInPath)
  | .error (.fileMissing q) => (t, .error (.fileMissing q))
  | .error f => if t.isDirectory p then (t, .ok ()) else (t, .error f)

/-- How many directories are made inside each other at once. -/
def maxNewDirectories : Nat := 990

/-- Make a directory and all that lead to it, unless they are there. The names are given from the
last to the first; those made before a fault stay. At most `depth` are made. -/
def makeDirectoriesFrom (t : Tree) (start : Path.Start) (depth : Nat) :
    List String → Tree × Except Fault Unit
  | [] => t.ensureDirectory ⟨start, []⟩
  | name :: names =>
    let p : Path := ⟨start, (name :: names).reverse⟩
    match t.ensureDirectory p with
    | (t, .error (.fileMissing _)) =>
      match depth with
      | 0 => (t, .error .nestedTooDeep)
      | depth + 1 =>
        match t.makeDirectoriesFrom start depth names with
        | (t, .ok ()) => t.ensureDirectory p
        | (t, .error f) => (t, .error f)
    | (t, r) => (t, r)

/-- Make a directory and all that lead to it, unless they are there. -/
def makeDirectories (t : Tree) (p : Path) : Tree × Except Fault Unit :=
  t.makeDirectoriesFrom p.start maxNewDirectories p.names.reverse

/-! ### Files -/

/-- The text of a file. -/
def readText (t : Tree) (p : Path) : Except Fault String :=
  match t.find p with
  | .error o => .error (o.fault p.toString)
  | .ok none => .error (.fileMissing p.toString)
  | .ok (some .directory) => .error (.isADirectory p.toString)
  | .ok (some (.file (.text s))) => .ok s
  | .ok (some (.file (.table _))) => .error .undecodable

/-- Make a text the content of a file. -/
def writeText (t : Tree) (p : Path) (s : String) : Except Fault Tree :=
  match t.trailOf p with
  | .error o => .error (o.fault p.toString)
  | .ok trail =>
    match t.last? trail with
    | some (.directory _) => .error (.isADirectory p.toString)
    | _ => .ok (t.put trail.location (.file (.text s)))

/-- The files below the place where paths start, by their names from there. -/
def files (t : Tree) : List (String × Content) :=
  let below := ((t.root.at? t.here).map (·.entriesFrom [])).getD []
  let named := below.filterMap fun e =>
    match e with
    | (l, .file c) => some ("/".intercalate l, c)
    | (_, .directory) => none
  named.mergeSort fun a b => decide (a.1 ≤ b.1)

end Tree

end LanguageUsage
