import LanguageUsage.Ingest.Updater
import LanguageUsage.Schedule.Loop
import LanguageUsage.Store.Operation

/-!
# The state of a service

What the processes of a service share: the updater with its store, the connections to a database, and
what was asked of others so far. Only the newest connection is in use; of one that is being closed the
worker may still be asked something.

* `Link`, `World`;
* `World.openLink`, `World.insert`, `World.commit`, `World.shut` and others: what the worker does;
* `Task`, `Completion`, `Work`: processes on this state, which may fail.
-/

namespace LanguageUsage

/-- How far a connection has been given up. -/
inductive Link
  | live
  /-- the database is closed -/
  | shut
  /-- those who used it know that it is closed -/
  | ended
  deriving DecidableEq, Repr

/-- What the processes of a service share. -/
structure World where
  updater : Updater
  /-- the connections, the oldest first -/
  links : List Link := []
  /-- the connection of a change that is not committed, and what there was before the change -/
  unsaved : Option (Nat × Medium) := none
  /-- the calls that were submitted -/
  calls : List Nat := []
  /-- what was asked of others -/
  events : List Event := []

/-- What can be started beside what is going on. -/
inductive Task
  | operation (o : Operation)
  | call (c : Call)

/-- What comes of a task. -/
abbrev Completion := Except Fault Reply

/-- Work on the state of a service, which may fail. -/
abbrev Work (α : Type) := ExceptT Fault (Process World Task Completion) α

namespace World

/-- The store of the updater. -/
def store (w : World) : Store := w.updater.store

/-- Replace the store. -/
def withStore (w : World) (s : Store) : World := { w with updater := { w.updater with store := s } }

/-- Note what was asked of others. -/
def log (w : World) (e : Event) : World := { w with events := w.events ++ [e] }

/-- Change a database. -/
def onDatabase (f : DatabaseStore → DatabaseStore) (w : World) : World :=
  match w.store with
  | .database s => w.withStore (.database (f s))
  | .memory _ => w

/-! ### Connections -/

/-- The number of the connection in use. -/
def link? (w : World) : Except Fault Nat :=
  match w.store with
  | .database s => if s.connected then .ok (w.links.length - 1) else .error .notConnected
  | .memory _ => .error .notConnected

/-- How far a connection has been given up. -/
def link (w : World) (n : Nat) : Link := w.links[n]?.getD .ended

/-- Nobody can use the connection any more. -/
def hasEnded (w : World) (n : Nat) : Bool := w.link n == .ended

/-- Take a change back that is not committed. -/
def takeBack (n : Nat) (w : World) : World :=
  match w.unsaved with
  | some (m, medium) =>
    if m = n then { w.onDatabase ({ · with medium := medium }) with unsaved := none } else w
  | none => w

/-- Take a connection into use. -/
def connect (w : World) : World := w.onDatabase ({ · with connected := true })

/-- Take a connection out of use. -/
def finishLink (n : Nat) (w : World) : World :=
  { w.onDatabase ({ · with connected := false }) with links := w.links.set n .ended }

/-! ### Errands of the worker

What is asked of a connection that is not live is refused without asking the database, and where there is
no change there is nothing to commit or to take back: these errands are brief. -/

/-- A connection does nothing any more. -/
def refuses (n : Nat) (w : World) : Bool := w.link n != .live

/-- A connection has nothing to commit. -/
def isClean (n : Nat) (w : World) : Bool := refuses n w || w.unsaved.isNone

/-- Open a database, which makes a connection. -/
def openLink (w : World) : World × Except Fault Unit :=
  match w.store with
  | .memory _ => (w, .ok ())
  | .database s =>
    match s.medium.found s.path with
    | .error f => (w, .error f)
    | .ok () => ({ w with links := w.links ++ [.live] }, .ok ())

/-- Make the table where there is none. -/
def prepare (n : Nat) (w : World) : World × Except Fault Unit :=
  match w.store, w.link n with
  | .memory _, _ => (w, .ok ())
  | .database s, .live => (w, s.medium.prepared s.path)
  | .database s, _ => (w, .error (.cannotOpen s.path))

/-- Close the database of a connection. What is not committed is lost. -/
def shut (n : Nat) (w : World) : World × Except Fault Unit :=
  let w := w.takeBack n
  ({ w.onDatabase (fun s => { s with medium := s.remains }) with links := w.links.set n .shut },
    .ok ())

/-- Carry out a checked request without committing it. -/
def insert (n : Nat) (i : Increment) (w : World) : World × Except Fault Number :=
  match w.store, w.link n with
  | .database s, .live =>
    match s.medium.add i with
    | (m, .ok c) =>
      ({ w.withStore (.database { s with medium := m }) with unsaved := some (n, s.medium) }, .ok c)
    | (_, .error f) => (w, .error f)
  | _, .ended => (w, .error .connectionLost)
  | _, _ => (w, .error (.cannotIncrement i.tag i.kind))

/-- Commit what was changed; `failure` is the fault if that cannot be done. -/
def commit (n : Nat) (failure : Fault) (w : World) : World × Except Fault Unit :=
  match w.link n with
  | .live => ({ w with unsaved := none }, .ok ())
  | _ => (w, .error failure)

/-- Take back what was changed. -/
def rollBack (n : Nat) (w : World) : World × Except Fault Unit :=
  match w.link n with
  | .live => (w.takeBack n, .ok ())
  | _ => (w, .error .connectionLost)

/-- The chosen rows, with what is not committed yet. -/
def select (n : Nat) (q : Query) (w : World) : World × Except Fault (List Row) :=
  match w.store, w.link n with
  | .database s, .live => (w, s.medium.select q)
  | _, .ended => (w, .error .connectionLost)
  | _, _ => (w, .error .cannotRead)

end World

namespace Work

/-- Change the state at once. -/
def atOnce {α : Type} (f : World → World × Except Fault α) : Work α := Process.atOnce f

/-- Have the worker change the state; where the change is `brief`, that takes no time. -/
def later {α : Type} (brief : World → Bool) (f : World → World × Except Fault α) : Work α :=
  Process.later brief f

/-- Look at the state. -/
def look {α : Type} (f : World → α) : Work α := Process.look fun w => .ok (f w)

/-- Change the state at once, whatever it is. -/
def change (f : World → World) : Work Unit := Process.atOnce fun w => (f w, .ok ())

/-- A result that is known already. -/
def given {α : Type} (r : Except Fault α) : Work α := Process.done r

/-- Hold a lock during some work, also if it fails. -/
def holding {α : Type} (lock : Lock) (p : Work α) : Work α := Process.holding lock p.run

/-- Wait once. -/
def rest : Work Unit := ExceptT.lift Process.rest

/-- Start a task. -/
def launch (t : Task) : Work Nat := ExceptT.lift (Process.launch t)

/-- What comes of tasks that are waited for together. -/
def gather (tasks : List Nat) : Work (List Completion) := ExceptT.lift (Process.gather tasks)

/-- What comes of a task. -/
def await (task : Nat) : Work (Option Completion) := ExceptT.lift (Process.await task)

end Work

end LanguageUsage
