import LanguageUsage.Signal.Row
import LanguageUsage.Store.Address
import LanguageUsage.Store.Counters
import LanguageUsage.Store.Increment
import LanguageUsage.Store.StoredNumber

/-!
# The store in a database

A database is found at a path and has to be opened before it is used. What is at the path decides
how that goes; whatever was stored before is still there, also rows whose kind is no signal kind.

* `Table`, `Medium`: what is at a path; `Medium.add`, `Medium.select`: a use of it;
* `Query`: a choice of rows;
* `DatabaseStore`, `DatabaseStore.connect`, `DatabaseStore.close`;
* `DatabaseStore.upsert`, `DatabaseStore.rows`, `DatabaseStore.get`, `DatabaseStore.byKind`.

Some databases open only halfway, such as a file of another format: opening fails, but from then on the
store takes itself to be connected, and every use fails.
-/

namespace LanguageUsage

/-- The table of counters; a key is a tag and a stored word, which need not be that of a kind. -/
abbrev Table := Counters (String × String)

/-- What is found at the path of a database. -/
inductive Medium
  /-- a table, empty if nothing was stored yet -/
  | table (t : Table)
  /-- a table that cannot be written -/
  | sealed (t : Table)
  /-- a file of another format, or one in which no table can be made -/
  | foreign
  /-- nothing that can be opened or made -/
  | closedOff
  /-- the path holds a character that no path can hold -/
  | unnameable
  /-- too many directories would have to be made -/
  | tooDeep
  deriving DecidableEq, Repr, Inhabited

/-- The amount of an increment as the column of counts takes it. -/
def columnDelta (i : Increment) : Except Fault Number :=
  match i.delta with
  | .whole n => if isStorable n then .ok (.whole n) else .error .beyondStoredRange
  | .real .nan => .error (.cannotIncrement i.tag i.kind)
  | .real x => .ok (Number.narrowed (.real x))

namespace Table

/-- The count of a key after `delta` was added to it. -/
def raised (t : Table) (key : String × String) (delta : Number) : Number :=
  match Counters.get? t key with
  | some n => n.addStored delta
  | none => delta

/-- The row of a record, if its word is that of a kind. -/
def rowOf (c : (String × String) × Number) : Except Fault Row :=
  match SignalKind.ofWord? c.1.2 with
  | some k => .ok ⟨c.1.1, k, c.2⟩
  | none => .error (.unknownStoredKind c.1.2)

end Table

/-- A choice of rows. Kinds are named by their stored words. -/
inductive Query
  | all
  | ofKind (word : String)
  | ofKey (tag : Value) (word : String)
  deriving DecidableEq, Repr

namespace Query

/-- The stored word of a given kind; only kinds proper have one. -/
def wordOf : GivenKind → Except Fault String
  | .kind k => .ok k.word
  | .other v => .error (.noMember v "value")

/-- Choose the rows of a given kind. -/
def ofGivenKind (kind : GivenKind) : Except Fault Query := (wordOf kind).map .ofKind

/-- Choose the row of a given key. -/
def ofGivenKey (tag : Value) (kind : GivenKind) : Except Fault Query := (wordOf kind).map (.ofKey tag)

/-- The records of a table that are chosen. -/
def records (t : Table) : Query → Except Fault Table
  | .all => .ok t
  | .ofKind word => .ok (t.filter fun c => c.1.2 == word)
  | .ofKey tag word => do
    let tag ← tag.columnText?
    return t.filter fun c => tag == some c.1.1 && c.1.2 == word

end Query

namespace Medium

/-- The table that can be read. -/
def table? : Medium → Option Table
  | .table t | .sealed t => some t
  | _ => none

/-- What there is after everything has been lost. -/
def emptied : Medium → Medium
  | .table _ => .table []
  | m => m

/-- Whether there is something that can be opened. -/
def found (path : String) : Medium → Except Fault Unit
  | .table _ | .sealed _ | .foreign => .ok ()
  | .closedOff => .error (.cannotOpen path)
  | .unnameable => .error .nulInPath
  | .tooDeep => .error .nestedTooDeep

/-- Whether what was opened has a table. -/
def prepared (path : String) (m : Medium) : Except Fault Unit :=
  match m.table? with
  | some _ => .ok ()
  | none => .error (.cannotOpen path)

/-- Carry out a checked request; the answer is the new count. -/
def add (m : Medium) (i : Increment) : Medium × Except Fault Number :=
  match m.table? with
  | none => (m, .error (.cannotIncrement i.tag i.kind))
  | some t =>
    match columnDelta i, m with
    | .error f, _ => (m, .error f)
    | .ok d, .table _ =>
      let n := t.raised (i.tag, i.kind.word) d
      (.table (Counters.put t (i.tag, i.kind.word) n), .ok n)
    | .ok _, _ => (m, .error (.cannotIncrement i.tag i.kind))

/-- A request is refused and changes nothing, or the count of its key is written. -/
theorem add_cases (m : Medium) (i : Increment) : (∃ f, m.add i = (m, .error f)) ∨
    ∃ t n, m = .table t ∧ m.add i = (.table (Counters.put t (i.tag, i.kind.word) n), .ok n) := by
  cases m with
  | table t =>
    simp only [add, table?]
    cases columnDelta i with
    | error f => exact .inl ⟨f, rfl⟩
    | ok d => exact .inr ⟨t, t.raised (i.tag, i.kind.word) d, rfl, rfl⟩
  | sealed t =>
    simp only [add, table?]
    cases columnDelta i <;> exact .inl ⟨_, rfl⟩
  | _ => exact .inl ⟨_, rfl⟩

theorem eq_of_add_error {m m' : Medium} {i : Increment} {f : Fault} (h : m.add i = (m', .error f)) :
    m' = m := by
  rcases m.add_cases i with ⟨g, hrefused⟩ | ⟨t, n, -, hadd⟩
  · exact (Prod.mk.inj (h.symm.trans hrefused)).1
  · cases (Prod.mk.inj (h.symm.trans hadd)).2

/-- The chosen rows, in the order in which their keys were first written. -/
def select (m : Medium) (q : Query) : Except Fault (List Row) :=
  match m.table? with
  | none => .error .cannotRead
  | some t => do (← q.records t).mapM Table.rowOf

end Medium

/-- A database at a path. -/
structure DatabaseStore where
  path : String
  medium : Medium
  /-- the rows are still there when it is opened again -/
  lasting : Bool := true
  connected : Bool := false
  deriving DecidableEq, Repr, Inhabited

namespace DatabaseStore

/-- A database that is gone when it is closed. -/
def volatile : DatabaseStore := ⟨volatilePath, .table [], false, false⟩

/-- Open the database; one that is open stays so. -/
def connect (s : DatabaseStore) : DatabaseStore × Except Fault Unit :=
  if s.connected then (s, .ok ())
  else
    match s.medium.found s.path with
    | .error f => (s, .error f)
    | .ok () => ({ s with connected := true }, s.medium.prepared s.path)

/-- What there is after the database was closed; a volatile one loses its rows. -/
def remains (s : DatabaseStore) : Medium := if s.lasting then s.medium else s.medium.emptied

/-- Close the database. -/
def close (s : DatabaseStore) : DatabaseStore := { s with connected := false, medium := s.remains }

/-- Add to the count of a key. -/
def upsert (s : DatabaseStore) (tag : Value) (kind : GivenKind) (delta : Value) :
    DatabaseStore × Except Fault Number :=
  match Increment.ofGiven tag kind delta with
  | .error f => (s, .error f)
  | .ok i =>
    if s.connected then
      let (m, r) := s.medium.add i
      ({ s with medium := m }, r)
    else (s, .error .notConnected)

/-- The chosen rows of an open database. -/
def select (s : DatabaseStore) (q : Query) : Except Fault (List Row) :=
  if s.connected then s.medium.select q else .error .notConnected

/-- All rows, in the order in which their keys were first written. -/
def rows (s : DatabaseStore) : Except Fault (List Row) := s.select .all

/-- The row of a key. -/
def get (s : DatabaseStore) (tag : Value) (kind : GivenKind) : Except Fault (Option Row) := do
  return (← s.select (← Query.ofGivenKey tag kind)).head?

/-- The rows of one kind. -/
def byKind (s : DatabaseStore) (kind : GivenKind) : Except Fault (List Row) := do
  s.select (← Query.ofGivenKind kind)

end DatabaseStore

end LanguageUsage
