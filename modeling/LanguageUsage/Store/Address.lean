import LanguageUsage.Text.Lines

/-!
# Addresses of databases

The path of a database is the name of a file, unless it starts with `file:`. Then what follows is a
name in which characters may be given by their codes, and options may follow it after a question mark:
how the file is opened, and whether there is one at all.

* `Access`, `Address`;
* `Address.read`: the address that a path stands for, if its options can be understood.
-/

namespace LanguageUsage

/-- What may be done to a file. -/
inductive Access
  | read
  | write
  /-- it may be written, and made if there is none -/
  | create
  deriving DecidableEq, Repr, Inhabited

/-- Where a database is kept and how it is opened. -/
structure Address where
  /-- the file, or none for a database that is gone when it is closed -/
  file : Option String
  access : Access := .create
  /-- nothing else ever changes the file, so it is only read -/
  unchanging : Bool := false
  deriving DecidableEq, Repr, Inhabited

/-- The name of the file for a database that is gone when it is closed. -/
def volatilePath : String := ":memory:"

namespace Address

/-! ### Bytes -/

/-- The value of a hexadecimal digit. -/
def hexDigit? (b : UInt8) : Option Nat :=
  let n := b.toNat
  if 0x30 ≤ n ∧ n ≤ 0x39 then some (n - 0x30)
  else if 0x41 ≤ n ∧ n ≤ 0x46 then some (n - 0x41 + 10)
  else if 0x61 ≤ n ∧ n ≤ 0x66 then some (n - 0x61 + 10)
  else none

/-- One byte of an address: as it stands, or given by a percent sign and two digits. -/
inductive Octet
  | plain (b : UInt8)
  | coded (b : UInt8)
  deriving DecidableEq, Repr

/-- The byte that a percent sign and two digits stand for. -/
def coded? (b : UInt8) (rest : List UInt8) : Option UInt8 :=
  match b == 0x25, rest with
  | true, c :: d :: _ => do return UInt8.ofNat ((← hexDigit? c) * 16 + (← hexDigit? d))
  | _, _ => none

/-- The bytes of an address after the first `skipped`, up to a number sign. -/
def octets (skipped : Nat) : List UInt8 → List Octet
  | [] => []
  | b :: rest =>
    match skipped with
    | n + 1 => octets n rest
    | 0 =>
      if b = 0x23 then []
      else
        match coded? b rest with
        | some c => .coded c :: octets 2 rest
        | none => .plain b :: octets 0 rest

/-- A byte for the code zero ends its part of the address: what stands behind it there counts for
nothing. -/
def text (os : List Octet) : String :=
  let bytes := (os.takeWhile (· ≠ .coded 0)).map fun o =>
    match o with
    | .plain b | .coded b => b
  (String.fromUTF8? ⟨bytes.toArray⟩).getD "\uFFFD"

/-! ### Options -/

/-- The pieces between plain bytes of a kind. -/
def split (separator : UInt8) : List Octet → List (List Octet)
  | [] => [[]]
  | o :: os =>
    if o = .plain separator then [] :: split separator os
    else
      match split separator os with
      | [] => [[o]]
      | p :: ps => (o :: p) :: ps

/-- What stands before and after the first plain byte of a kind. -/
def cut (separator : UInt8) (os : List Octet) : List Octet × List Octet :=
  (os.takeWhile (· ≠ .plain separator), (os.dropWhile (· ≠ .plain separator)).drop 1)

/-- The options by name. Those without a name do not count. -/
def options (os : List Octet) : List (String × String) :=
  (split 0x26 os).filterMap fun piece =>
    let (name, value) := cut 0x3D piece
    if text name = "" then none else some (text name, text value)

/-- A word or number for yes. A number counts by its last eight bits. -/
def isYes (value : String) : Bool :=
  let digits := value.toList.takeWhile Char.isDigit
  if digits.isEmpty then ["on", "yes", "true"].contains (value.map Char.toLower)
  else
    let n := digits.foldl (fun n c => n * 10 + (c.toNat - '0'.toNat)) 0
    n < 2 ^ 31 && n % 256 != 0

/-- How a database is opened: from a file, or without one. -/
inductive Mode
  | file (access : Access)
  | memory
  deriving DecidableEq, Repr

/-- The word for a mode. -/
def modeOf? : String → Option Mode
  | "ro" => some (.file .read)
  | "rw" => some (.file .write)
  | "rwc" => some (.file .create)
  | "memory" => some .memory
  | _ => none

/-- A mode may be followed by one that allows no more. -/
def allows : Mode → Mode → Bool
  | _, .memory | .memory, _ => true
  | .file .create, _ | _, .file .read => true
  | .file .write, .file .write => true
  | _, _ => false

/-- The mode after some options. -/
def modeAfter (mode : Mode) : List (String × String) → Option Mode
  | [] => some mode
  | ("mode", word) :: rest =>
    match modeOf? word with
    | some next => if allows mode next then modeAfter next rest else none
    | none => none
  | ("cache", word) :: rest =>
    if word = "shared" ∨ word = "private" then modeAfter mode rest else none
  | _ :: rest => modeAfter mode rest

/-- The file systems that can be asked for. -/
def fileSystems : List String := ["unix", "unix-none", "unix-dotfile", "unix-excl"]

/-- The one that keeps no files. -/
def memoryFileSystem : String := "memdb"

/-- The address for a name and its options. -/
def ofOptions (name : String) (options : List (String × String)) : Option Address :=
  match modeAfter (.file .create) options with
  | none => none
  | some mode =>
    let system := ((options.reverse.lookup "vfs").getD "unix")
    let nowhere := mode = .memory ∨ name = "" ∨ name = volatilePath
    let unchanging := !nowhere && ((options.lookup "immutable").map isYes).getD false
    let access := match mode with
      | .file a => a
      | .memory => .create
    if system = memoryFileSystem then
      some ⟨none, if unchanging then .read else access, unchanging⟩
    else if fileSystems.contains system then
      some ⟨if nowhere then none else some name, access, unchanging⟩
    else none

/-- The front of an address with options. -/
def heading : String := "file:"

/-- The address for a path. -/
def read (path : String) : Option Address :=
  if path.startsWith heading then
    let os := octets heading.utf8ByteSize path.toUTF8.toList
    let (name, rest) := cut 0x3F os
    ofOptions (text name) (options rest)
  else some { file := if path = volatilePath then none else some path }

end Address

end LanguageUsage
