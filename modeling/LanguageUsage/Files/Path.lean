import LanguageUsage.Text.Lines

/-!
# Paths

A path is a starting point and the names that lead on from it. Empty names and `.` mean nothing and
are dropped; `..` is kept, for where it leads depends on what it comes after. Two slashes in front
are a starting point of their own, any other number counts as one.

* `Path`, `Path.ofString`, `Path.toString`;
* `Path.parent`, `Path.child`.
-/

namespace LanguageUsage

/-- Where a path starts. -/
inductive Path.Start
  | here
  | root
  | doubleRoot
  deriving DecidableEq, Repr, Inhabited

/-- A starting point and the names that lead on from it. -/
structure Path where
  start : Path.Start
  names : List String
  deriving DecidableEq, Repr, Inhabited

namespace Path

/-- A piece that leads somewhere. -/
def isName (piece : List Char) : Bool := piece != [] && piece != ['.']

/-- The starting point of a path, by the slashes in front. -/
def startOf (cs : List Char) : Start :=
  match (cs.takeWhile (· == '/')).length with
  | 0 => .here
  | 2 => .doubleRoot
  | _ => .root

/-- Read a path. -/
def ofString (s : String) : Path :=
  ⟨startOf s.toList, ((Text.pieces (· = '/') s.toList).filter isName).map String.ofList⟩

/-- The slashes in front of a path. -/
def Start.slashes : Start → String
  | .here => ""
  | .root => "/"
  | .doubleRoot => "//"

/-- Write a path. -/
protected def toString (p : Path) : String :=
  match p.start, p.names with
  | .here, [] => "."
  | s, names => s.slashes ++ "/".intercalate names

/-- The path to what contains `p`; a starting point contains itself. -/
def parent (p : Path) : Path := { p with names := p.names.dropLast }

/-- The path to something inside `p`. -/
def child (p : Path) (name : String) : Path := { p with names := p.names ++ [name] }

@[simp] theorem parent_child (p : Path) (name : String) : (p.child name).parent = p := by
  simp [parent, child]

end Path

end LanguageUsage
