/-!
# Processes

A process is work on a shared state that may have to wait. It is cut at the points where other processes
can come in between; what it does from one such point to the next is not divided.

* `Process`: the first thing that a process does, and how it goes on;
* `Process.bind`: one process after another, by which processes form a monad;
* `Process.atOnce`, `Process.later`, `Process.holding` and others: processes to build from.
-/

namespace LanguageUsage

/-- What only one process can hold at a time. -/
inductive Lock
  /-- the right to perform a call -/
  | calls
  /-- the right to write into the database -/
  | writes
  deriving DecidableEq, Repr

/-- A process on states `σ` that can start tasks `κ`, whose answers are of type `ρ`. It ends with a
value of type `α`. -/
inductive Process (σ κ ρ α : Type)
  | done (a : α)
  /-- change the state at once, and go on by what it was -/
  | act (change : σ → σ) (next : σ → Process σ κ ρ α)
  /-- let those who are ready go first -/
  | pause (next : Process σ κ ρ α)
  /-- have the state changed by the worker, and go on by what it was then; where the change is `brief`,
  word of it is sent as soon as it is made -/
  | errand (brief : σ → Bool) (change : σ → σ) (next : σ → Process σ κ ρ α)
  /-- wait for a lock -/
  | acquire (lock : Lock) (next : Process σ κ ρ α)
  /-- give a lock to the one who has waited longest for it -/
  | release (lock : Lock) (next : Process σ κ ρ α)
  /-- start a task, and go on with its number -/
  | start (task : κ) (next : Nat → Process σ κ ρ α)
  /-- wait until all of some tasks have ended, and go on with their answers; `gathered` if they are
  waited for together, which takes a moment longer -/
  | join (tasks : List Nat) (gathered : Bool) (next : List ρ → Process σ κ ρ α)

namespace Process

variable {σ κ ρ α β γ : Type}

/-- Go on with `f` when the process has ended. -/
def bind (f : α → Process σ κ ρ β) : Process σ κ ρ α → Process σ κ ρ β
  | done a => f a
  | act change next => act change fun s => bind f (next s)
  | pause next => pause (bind f next)
  | errand brief change next => errand brief change fun s => bind f (next s)
  | acquire lock next => acquire lock (bind f next)
  | release lock next => release lock (bind f next)
  | start task next => start task fun n => bind f (next n)
  | join tasks gathered next => join tasks gathered fun rs => bind f (next rs)

instance : Monad (Process σ κ ρ) where
  pure := done
  bind p f := bind f p

theorem bind_done (p : Process σ κ ρ α) : p.bind done = p := by
  induction p <;> simp_all [bind]

theorem bind_bind (p : Process σ κ ρ α) (f : α → Process σ κ ρ β) (g : β → Process σ κ ρ γ) :
    (p.bind f).bind g = p.bind fun a => (f a).bind g := by
  induction p <;> simp_all [bind]

/-- Change the state, and take a value from it. -/
def atOnce (f : σ → σ × α) : Process σ κ ρ α := act (fun s => (f s).1) fun s => done (f s).2

/-- Have the worker change the state, and take a value from it. -/
def later (brief : σ → Bool) (f : σ → σ × α) : Process σ κ ρ α :=
  errand brief (fun s => (f s).1) fun s => done (f s).2

/-- Look at the state. -/
def look (f : σ → α) : Process σ κ ρ α := act id fun s => done (f s)

/-- Wait once. -/
def rest : Process σ κ ρ Unit := pause (done ())

/-- Hold a lock during a process. -/
def holding (lock : Lock) (p : Process σ κ ρ α) : Process σ κ ρ α :=
  acquire lock (p.bind fun a => release lock (done a))

/-- Start a task. -/
def launch (task : κ) : Process σ κ ρ Nat := start task done

/-- The answer of a task, when it has ended. -/
def await (task : Nat) : Process σ κ ρ (Option ρ) := join [task] false fun rs => done rs.head?

/-- The answers of tasks, when all have ended. -/
def gather (tasks : List Nat) : Process σ κ ρ (List ρ) := join tasks true done

end Process

end LanguageUsage
