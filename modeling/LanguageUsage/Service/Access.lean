import LanguageUsage.Service.World

/-!
# Operations as processes

What a store in memory is asked for is done at once. A database is asked through its worker, so that
others come in between: a change is made and then committed, and is seen by those who ask in the
meantime; the connection may be closed while it is used.

* `Work.connect`, `Work.close`, `Work.upsert`, `Work.rows`, `Work.get`, `Work.byKind`;
* `Operation.work`: every operation on a store.
-/

namespace LanguageUsage

namespace Work

/-! ### Connections -/

/-- The number of the connection in use. -/
def link : Work Nat := do Work.given (← look World.link?)

/-- The fault `f` if a connection is no longer in use. -/
def unlessEnded (n : Nat) (f : Fault) : Work Unit := do
  if ← look (·.hasEnded n) then throw f

/-- Open a database and see that it has a table. -/
def openDatabase (path : String) : Work Unit := do
  later (fun _ => false) World.openLink
  change World.connect
  let n ← link
  later (World.refuses n) (World.prepare n)
  let n ← link
  later (World.isClean n) (World.commit n (.cannotOpen path))

/-- Open the store. -/
def connect : Work Unit := do
  match ← look World.store with
  | .memory _ => return ()
  | .database s => if s.connected then return () else openDatabase s.path

/-- Close the store. -/
def close : Work Unit := do
  match ← look World.link? with
  | .error _ => return ()
  | .ok n =>
    later (World.refuses n) (World.shut n)
    change (World.finishLink n)

/-! ### Changes -/

/-- Make a change and commit it. -/
def insert (n : Nat) (i : Increment) : Work Number := do
  let count ← later (World.refuses n) (World.insert n i)
  unlessEnded n .connectionLost
  later (World.isClean n) (World.commit n (.cannotIncrement i.tag i.kind))
  return count

/-- Make a change and commit it, or take it back if the database refuses it. -/
def write (n : Nat) (i : Increment) : Work Number :=
  tryCatch (insert n i) fun f => do
    if f = .cannotIncrement i.tag i.kind then
      unlessEnded n .connectionLost
      later (World.isClean n) (World.rollBack n)
    throw f

/-- Carry out a checked request; changes of a database are made one at a time. -/
def increment (i : Increment) : Work Number := do
  let n ← link
  holding .writes do
    unlessEnded n .connectionClosed
    write n i

/-- Add to the count of a key; the answer is the new count. -/
def upsert (tag : Value) (kind : GivenKind) (delta : Value) : Work Number := do
  match ← look World.store with
  | .memory _ => atOnce fun w =>
    let (s, r) := w.store.upsert tag kind delta
    (w.withStore s, r)
  | .database _ => do increment (← given (Increment.ofGiven tag kind delta))

/-! ### Reading -/

/-- The chosen rows of a database. -/
def select (q : Query) : Work (List Row) := do
  let n ← link
  later (World.refuses n) (World.select n q)

/-- All rows, in the order in which their keys were first written. -/
def rows : Work (List Row) := do
  match ← look World.store with
  | .memory s => return s.rows
  | .database _ => select .all

/-- The row of a key. -/
def get (tag : Value) (kind : GivenKind) : Work (Option Row) := do
  match ← look World.store with
  | .memory s => return s.get tag kind
  | .database _ => return (← select (← given (Query.ofGivenKey tag kind))).head?

/-- The rows of one kind. -/
def byKind (kind : GivenKind) : Work (List Row) := do
  match ← look World.store with
  | .memory s => return s.byKind kind
  | .database _ => select (← given (Query.ofGivenKind kind))

/-- The profile of one kind of signal. -/
def usage (kind : GivenKind) : Work (List Usage) := do given (Usage.ofRows (← byKind kind))

/-- The tags whose share of a kind of signal is at least `minShare`, most used first. -/
def frequent (kind : GivenKind) (minShare : Value) : Work (List String) := do
  let least ← given (checkMinShare minShare)
  return Usage.frequent least (← usage kind)

/-! ### Several operations -/

/-- Start operations, each as a task. -/
def startAll : List Operation → Work (List Nat)
  | [] => return []
  | o :: os => do
    let n ← launch (.operation o)
    let ns ← startAll os
    return n :: ns

end Work

namespace Operation

mutual

/-- An operation as a process. -/
def work : Operation → Work Reply
  | .connect => do Work.connect; return .nothing
  | .close => do Work.close; return .nothing
  | .upsert tag kind delta => return .count (← Work.upsert tag kind delta)
  | .get tag kind => return .row (← Work.get tag kind)
  | .rows => return .rows (← Work.rows)
  | .byKind kind => return .rows (← Work.byKind kind)
  | .usage kind => return .usage (← Work.usage kind)
  | .frequent kind minShare => return .tags (← Work.frequent kind minShare)
  | .gather operations => return .replies (← Work.gather (← Work.startAll operations))
  | .session operations => do
    Work.connect
    let rs ← workInTurn operations
    Work.close
    return .replies rs

/-- Operations one after another, whatever becomes of each. -/
def workInTurn : List Operation → Process World Task Completion (List Completion)
  | [] => return []
  | o :: os => do
    let r ← (work o).run
    let rs ← workInTurn os
    return r :: rs

end

end Operation

end LanguageUsage
