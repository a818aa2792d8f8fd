import LanguageUsage.Store.Database
import LanguageUsage.Store.Memory

/-!
# Stores

A store of counters is in memory or in a database. The store in memory needs no connection.

* `Store`, `Store.connect`, `Store.close`;
* `Store.upsert`, `Store.rows`, `Store.get`, `Store.byKind`.
-/

namespace LanguageUsage

/-- A store of counters. -/
inductive Store
  | memory (s : MemoryStore)
  | database (s : DatabaseStore)
  deriving DecidableEq, Repr, Inhabited

namespace Store

def connect : Store → Store × Except Fault Unit
  | .memory s => (.memory s, .ok ())
  | .database s => let (s, r) := s.connect; (.database s, r)

def close : Store → Store
  | .memory s => .memory s
  | .database s => .database s.close

/-- Add to the count of a key; the answer is the new count. -/
def upsert (s : Store) (tag : Value) (kind : GivenKind) (delta : Value) :
    Store × Except Fault Number :=
  match s with
  | .memory s => let (s, r) := s.upsert tag kind delta; (.memory s, r)
  | .database s => let (s, r) := s.upsert tag kind delta; (.database s, r)

/-- All rows, in the order in which their keys were first written. -/
def rows : Store → Except Fault (List Row)
  | .memory s => .ok s.rows
  | .database s => s.rows

/-- The row of a key. -/
def get (s : Store) (tag : Value) (kind : GivenKind) : Except Fault (Option Row) :=
  match s with
  | .memory s => .ok (s.get tag kind)
  | .database s => s.get tag kind

/-- The rows of one kind. -/
def byKind (s : Store) (kind : GivenKind) : Except Fault (List Row) :=
  match s with
  | .memory s => .ok (s.byKind kind)
  | .database s => s.byKind kind

end Store

end LanguageUsage
