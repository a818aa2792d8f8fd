import LanguageUsage.Signal.Row
import LanguageUsage.Store.Counters
import LanguageUsage.Store.Increment

/-!
# The store in memory

Rows live as long as the store. Counts may be numbers of any kind and size. A store may be told to
refuse some tags, as a full disk would.

What was counted is put in a log, whether anybody reads it or not, and for this the new count has to be
written in digits. A count with too many of them is a fault, but by then it stands in its row.

* `MemoryStore`, `MemoryStore.rows`;
* `MemoryStore.upsert`, `MemoryStore.get`, `MemoryStore.byKind`.
-/

namespace LanguageUsage

/-- Counters in memory, the tags that are refused, and how many digits a count may have in the log. -/
structure MemoryStore where
  counters : Counters (String × SignalKind) := []
  refused : List String := []
  digits : Option Nat := some digitLimit
  deriving DecidableEq, Repr, Inhabited

namespace MemoryStore

/-- All rows, in the order in which their keys were first written. -/
def rows (s : MemoryStore) : List Row :=
  s.counters.map fun c => ⟨c.1.1, c.1.2, c.2⟩

/-- Put a new count in the log, and answer with it. -/
def logged (s : MemoryStore) (n : Number) : Except Fault Number :=
  if n.isWritable s.digits then .ok n else .error .unwritable

theorem logged_whole {s : MemoryStore} {n : Int} (h : ∀ digits ∈ s.digits, n.natAbs < 10 ^ digits) :
    s.logged (.whole n) = .ok (.whole n) :=
  if_pos (Number.isWritable_whole.2 h)

theorem logged_eq_error_iff {s : MemoryStore} {n : Number} {f : Fault} :
    s.logged n = .error f ↔ n.isWritable s.digits = false ∧ f = .unwritable := by
  rw [logged]
  cases n.isWritable s.digits <;> simp [eq_comm]

/-- Carry out a checked request; the answer is the new count. -/
def apply (s : MemoryStore) (i : Increment) : MemoryStore × Except Fault Number :=
  match ((s.counters.get? i.key).getD (.whole 0)).add? i.delta with
  | some n => ({ s with counters := s.counters.put i.key n }, s.logged n)
  | none => (s, .error .beyondDoubles)

/-- The tag is one that cannot be written. -/
def refuses (s : MemoryStore) : Value → Bool
  | .text t => s.refused.contains t
  | _ => false

/-- Add to the count of a key. -/
def upsert (s : MemoryStore) (tag : Value) (kind : GivenKind) (delta : Value) :
    MemoryStore × Except Fault Number :=
  if s.refuses tag then (s, .error .diskFull)
  else
    match Increment.ofGiven tag kind delta with
    | .error f => (s, .error f)
    | .ok i => s.apply i

/-- The row of a key. -/
def get (s : MemoryStore) (tag : Value) (kind : GivenKind) : Option Row :=
  s.rows.find? fun r => tag == .text r.tag && kind.denotes r.kind

/-- A text and a kind proper are a key, and its row is found by it. -/
theorem get_eq_find? (s : MemoryStore) (tag : String) (kind : SignalKind) : s.get (.text tag) (.kind kind) =
    (s.counters.find? fun c => c.1 = (tag, kind)).map fun c => ⟨c.1.1, c.1.2, c.2⟩ := by
  have hkey : (fun r : Row => Value.text tag == .text r.tag && (GivenKind.kind kind).denotes r.kind) ∘
      (fun c : (String × SignalKind) × Number => ⟨c.1.1, c.1.2, c.2⟩) = fun c => decide (c.1 = (tag, kind)) := by
    funext c
    rw [Bool.eq_iff_iff]
    simp [Prod.ext_iff, @eq_comm _ tag, @eq_comm _ kind]
  rw [get, rows, List.find?_map, hkey]

theorem get_key (s : MemoryStore) (tag : String) (kind : SignalKind) :
    s.get (.text tag) (.kind kind) = (s.counters.get? (tag, kind)).map fun n => ⟨tag, kind, n⟩ := by
  rw [get_eq_find?, Counters.get?, Option.map_map]
  refine Option.map_congr fun c hc => ?_
  have hfound : c.1 = (tag, kind) := by simpa using List.find?_some hc
  simp [hfound]

/-- The rows of one kind. -/
def byKind (s : MemoryStore) (kind : GivenKind) : List Row :=
  s.rows.filter fun r => kind.denotes r.kind

end MemoryStore

end LanguageUsage
