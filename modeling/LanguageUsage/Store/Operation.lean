import LanguageUsage.Usage

/-!
# Operations on a store

What can be asked of a store, as data, and what it comes to when nobody comes in between. A failed
operation leaves the following ones to be carried out all the same.

* `Operation`, `Reply`;
* `Store.perform`, `Store.performAll`: one operation, and several one after another.
-/

namespace LanguageUsage

/-- An operation on a store. -/
inductive Operation
  | connect
  | close
  | upsert (tag : Value) (kind : GivenKind) (delta : Value)
  | get (tag : Value) (kind : GivenKind)
  | rows
  | byKind (kind : GivenKind)
  | usage (kind : GivenKind)
  | frequent (kind : GivenKind) (minShare : Value)
  /-- several operations that are started together -/
  | gather (operations : List Operation)
  /-- operations on a store that is opened before them and closed after them -/
  | session (operations : List Operation)
  deriving Repr, Inhabited

/-- The answer to an operation. -/
inductive Reply
  | nothing
  | count (n : Number)
  | row (r : Option Row)
  | rows (rs : List Row)
  | usage (us : List Usage)
  | tags (ts : List String)
  | replies (rs : List (Except Fault Reply))

namespace Store

mutual

/-- Carry out one operation. Operations that are started together take effect in the order of their
start. -/
def perform (s : Store) : Operation → Store × Except Fault Reply
  | .connect => let (s, r) := s.connect; (s, r.map fun _ => .nothing)
  | .close => (s.close, .ok .nothing)
  | .upsert tag kind delta => let (s, r) := s.upsert tag kind delta; (s, r.map .count)
  | .get tag kind => (s, (s.get tag kind).map .row)
  | .rows => (s, s.rows.map .rows)
  | .byKind kind => (s, (s.byKind kind).map .rows)
  | .usage kind => (s, (s.usage kind).map .usage)
  | .frequent kind minShare => (s, (s.frequent kind minShare).map .tags)
  | .gather operations => let (s, rs) := performAll s operations; (s, .ok (.replies rs))
  | .session operations =>
    match s.connect with
    | (s, .error f) => (s, .error f)
    | (s, .ok ()) => let (s, rs) := performAll s operations; (s.close, .ok (.replies rs))

/-- Carry out operations one after another. -/
def performAll (s : Store) : List Operation → Store × List (Except Fault Reply)
  | [] => (s, [])
  | o :: os =>
    let (s, r) := perform s o
    let (s, rs) := performAll s os
    (s, r :: rs)

end

end Store

end LanguageUsage
