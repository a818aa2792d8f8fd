import LanguageUsage.Document.Reader
import LanguageUsage.Document.Writer
import LanguageUsage.Files.Tree

/-!
# Table files

The text in which a table of counters is kept on disk: a line that tells what it is, and a document
with one list of tag, word and count for every record.

* `Table.toText`, `Table.ofText?`;
* `Content.toText`, `Content.ofText`: the same for any file.
-/

namespace LanguageUsage

/-- The line with which a table file starts. -/
def tableHeading : String := "language usage counters\n"

namespace Table

/-- A record as a value. -/
def recordValue (c : (String × String) × Number) : Value :=
  .list [.text c.1.1, .text c.1.2, .number c.2]

/-- The record for a value. -/
def recordOf? : Value → Option ((String × String) × Number)
  | .list [.text tag, .text word, .number count] => some ((tag, word), count)
  | _ => none

/-- The text of a table file. -/
def toText (t : Table) : String := tableHeading ++ Document.write (.list (t.map recordValue))

/-- The table in the text of a file, if it is that of a table file. -/
def ofText? (s : String) : Option Table :=
  let heading := tableHeading.toList
  if s.toList.take heading.length = heading then
    match Document.read (String.ofList (s.toList.drop heading.length)) with
    | .ok (.list vs) => vs.mapM recordOf?
    | _ => none
  else none

end Table

namespace Content

/-- The text of a file. -/
def toText : Content → String
  | .text s => s
  | .table t => Table.toText t

/-- What the text of a file holds. -/
def ofText (s : String) : Content :=
  match Table.ofText? s with
  | some t => .table t
  | none => .text s

end Content

end LanguageUsage
