import LanguageUsage.Signal.Kind

/-!
# Faults

Everything that can go wrong, by its cause.

* `Fault`: the causes, with the data that the message names;
* `Fault.category`: the broad kind, by which a caller decides what to do;
* `Fault.message`: the text for the user. Faults of a document's text have none of their own.
-/

namespace LanguageUsage

/-- A cause of failure. -/
inductive Fault
  /-- a tag that is no text or is blank -/
  | blankTag
  /-- not a signal kind -/
  | unknownKind (given : Value)
  /-- a stored row whose kind is no stored word -/
  | unknownStoredKind (word : String)
  | deltaBelowOne (delta : Value)
  | incomparableDelta (delta : Value)
  /-- a share outside of zero to one -/
  | shareOutOfRange (share : Value)
  | incomparableShare (share : Value)
  /-- a capacity of the replay memory that is no number -/
  | incomparableCapacity (capacity : Value)
  | unknownBackend (given : Value)
  /-- a character `U+0000` in a path -/
  | nulInPath
  /-- not a value that can be gone through -/
  | notIterable (given : Value)
  /-- not a text where a path is expected -/
  | notAPath (given : Value)
  /-- a list or an object where a key is expected -/
  | unhashable (given : Value)
  /-- a member that values of this kind do not have -/
  | noMember (given : Value) (member : String)
  /-- taking the oldest entry out of an empty replay memory -/
  | memoryEmpty
  /-- a whole number beyond the range of a stored count -/
  | beyondStoredRange
  /-- a whole number beyond the range of doubles -/
  | beyondDoubles
  | notConnected
  /-- a connection that was closed before its turn came -/
  | connectionClosed
  /-- a connection that was closed in the middle of its use -/
  | connectionLost
  | cannotOpen (path : String)
  | cannotIncrement (tag : String) (kind : SignalKind)
  | cannotRead
  /-- a store that refuses to write a row -/
  | diskFull
  /-- the detector gave up -/
  | detectorRaised (reason : String)
  /-- the detector was interrupted -/
  | interrupted (reason : String)
  /-- the detector answered with something else than tags -/
  | detectorAnswered (given : Value)
  | fileExists (path : String)
  | notADirectory (path : String)
  | isADirectory (path : String)
  | nameTooLong (path : String)
  | fileMissing (path : String)
  /-- a file that is not text -/
  | undecodable
  /-- a text that is no document -/
  | malformedDocument
  /-- a document with too many values inside each other -/
  | nestedTooDeep
  /-- a whole number with more digits than are read -/
  | tooManyDigits (digits : Nat)
  /-- a whole number with more digits than are written -/
  | unwritable
  /-- no user has the home directory that is asked for -/
  | noHome
  deriving DecidableEq, Repr, Inhabited

namespace Fault

/-- The broad kinds of failure. -/
inductive Category
  | invalidValue
  | wrongType
  | missingMember
  | missingKey
  | numericOverflow
  | storeFailure
  | detectionFailure
  | interruption
  | fileExists
  | notADirectory
  | isADirectory
  | fileMissing
  | fileSystem
  | undecodable
  | malformedDocument
  | recursion
  | environment
  deriving DecidableEq, Repr

def category : Fault → Category
  | .blankTag | .unknownKind _ | .unknownStoredKind _ | .deltaBelowOne _ | .shareOutOfRange _
  | .unknownBackend _ | .nulInPath | .tooManyDigits _ | .unwritable | .connectionClosed | .connectionLost =>
    .invalidValue
  | .incomparableDelta _ | .incomparableShare _ | .incomparableCapacity _ | .notIterable _
  | .notAPath _ | .unhashable _ => .wrongType
  | .noMember _ _ => .missingMember
  | .memoryEmpty => .missingKey
  | .beyondStoredRange | .beyondDoubles => .numericOverflow
  | .notConnected | .cannotOpen _ | .cannotIncrement _ _ | .cannotRead | .diskFull => .storeFailure
  | .detectorRaised _ | .detectorAnswered _ => .detectionFailure
  | .interrupted _ => .interruption
  | .fileExists _ => .fileExists
  | .notADirectory _ => .notADirectory
  | .isADirectory _ => .isADirectory
  | .nameTooLong _ => .fileSystem
  | .fileMissing _ => .fileMissing
  | .undecodable => .undecodable
  | .malformedDocument => .malformedDocument
  | .nestedTooDeep => .recursion
  | .noHome => .environment

/-- A comparison that the two kinds of value do not have. -/
def unsupported (operator left right : String) : String :=
  "'" ++ operator ++ "' not supported between instances of '" ++ left ++ "' and '" ++ right ++ "'"

/-- A failure of the file system: its number, what it says and the path. -/
def ofFile (number : Nat) (what path : String) : String :=
  "[Errno " ++ toString number ++ "] " ++ what ++ ": " ++ Text.quoted path

/-- What is said of a whole number with too many digits. -/
def digitsExceeded (digits : String) : String :=
  "Exceeds the limit (" ++ toString digitLimit ++ " digits) for integer string conversion" ++ digits
    ++ "; use sys.set_int_max_str_digits() to increase the limit"

/-- A text that shows a value, if this can be written. -/
def showing (v : Value) (text : String) : String := if v.isWritable then text else digitsExceeded ""

/-- The text for the user. -/
def message : Fault → Option String
  | .blankTag => some "language_tag must be a non-empty string."
  | .unknownKind v => some (showing v ("Unknown signal kind: " ++ v.shown))
  | .unknownStoredKind w => some (Text.quoted w ++ " is not a valid SignalKind")
  | .deltaBelowOne v => some (showing v ("delta must be >= 1, got " ++ v.display ++ "."))
  | .incomparableDelta v => some (unsupported "<" v.kindName "int")
  | .shareOutOfRange v => some (showing v ("min_share must be between 0 and 1, got " ++ v.display ++ "."))
  | .incomparableShare v => some (unsupported "<=" "float" v.kindName)
  | .incomparableCapacity v => some (unsupported ">" "int" v.kindName)
  | .unknownBackend v => some (showing v ("Unknown storage backend '" ++ v.display ++ "'."))
  | .nulInPath => some "embedded null byte"
  | .notIterable v => some ("'" ++ v.kindName ++ "' object is not iterable")
  | .notAPath v => some ("expected str, bytes or os.PathLike object, not " ++ v.kindName)
  | .unhashable v => some ("unhashable type: '" ++ v.kindName ++ "'")
  | .noMember v m => some ("'" ++ v.kindName ++ "' object has no attribute '" ++ m ++ "'")
  | .memoryEmpty => some "'dictionary is empty'"
  | .beyondStoredRange => some "Python int too large to convert to SQLite INTEGER"
  | .beyondDoubles => some "int too large to convert to float"
  | .notConnected => some "Signal store is not connected."
  | .connectionClosed => some "Connection closed"
  | .connectionLost => some "no active connection"
  | .cannotOpen p => some ("Could not open signal store at " ++ p)
  | .cannotIncrement t k => some ("Could not increment " ++ t ++ "/" ++ k.name)
  | .cannotRead => some "Could not read the signal store"
  | .diskFull => some "disk full"
  | .detectorRaised r => some ("Language detection failed: " ++ r)
  | .interrupted r => some r
  | .detectorAnswered v =>
    some ("Detector returned " ++ v.kindName ++ ", expected a list of language tags")
  | .fileExists p => some (ofFile 17 "File exists" p)
  | .notADirectory p => some (ofFile 20 "Not a directory" p)
  | .isADirectory p => some (ofFile 21 "Is a directory" p)
  | .fileMissing p => some (ofFile 2 "No such file or directory" p)
  | .nameTooLong p => some (ofFile 36 "File name too long" p)
  | .tooManyDigits n => some (digitsExceeded (": value has " ++ toString n ++ " digits"))
  | .unwritable => some (digitsExceeded "")
  | .noHome => some "Could not determine home directory."
  | .undecodable | .malformedDocument | .nestedTooDeep => none

end Fault

end LanguageUsage
