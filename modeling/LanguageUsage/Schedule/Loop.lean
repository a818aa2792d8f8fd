import LanguageUsage.Schedule.Process

/-!
# The loop

Processes take turns. One that is ready goes on until it has to wait; then comes the one that has been
ready longest. When nobody is ready the worker goes about its errands, in the order in which it was sent.
While it is at one that is not brief, those who already have word of theirs go on.

* `Loop`: a state with all that goes on;
* `Loop.resume`: let a process go on until it has to wait;
* `Loop.work`: let the worker go on until others can;
* `Loop.turn`: one turn; `Loop.run`: turns until a task has ended;
* `Loop.perform`: a process from its start to its end, with what else comes to pass meanwhile.
-/

namespace LanguageUsage

/-- A process that is ready to go on after it has been passed over `delay` times. -/
structure Ready (σ κ ρ : Type) where
  delay : Nat
  task : Nat
  process : Process σ κ ρ ρ

/-- An errand of the worker, and how the one who sent it goes on. -/
structure Errand (σ κ ρ : Type) where
  task : Nat
  brief : σ → Bool
  change : σ → σ
  next : σ → Process σ κ ρ ρ

/-- A process that waits for a lock. -/
structure Blocked (σ κ ρ : Type) where
  lock : Lock
  task : Nat
  process : Process σ κ ρ ρ

/-- A process that waits for tasks. -/
structure Joining (σ κ ρ : Type) where
  task : Nat
  tasks : List Nat
  gathered : Bool
  next : List ρ → Process σ κ ρ ρ

/-- A state and the processes on it. Those that wait for the same thing are listed in the order in which
they came. -/
structure Loop (σ κ ρ : Type) where
  state : σ
  /-- the number of tasks so far -/
  started : Nat := 0
  /-- the answers of the tasks that have ended -/
  answers : List (Nat × ρ) := []
  ready : List (Ready σ κ ρ) := []
  errands : List (Errand σ κ ρ) := []
  /-- the one whose errand the worker has just carried out, and who has no word of it yet -/
  carried : Option (Ready σ κ ρ) := none
  /-- the locks that are held -/
  held : List Lock := []
  blocked : List (Blocked σ κ ρ) := []
  joining : List (Joining σ κ ρ) := []

namespace Loop

variable {σ κ ρ : Type}

/-- The answer of a task that has ended. -/
def answer? (l : Loop σ κ ρ) (task : Nat) : Option ρ := l.answers.lookup task

/-- The answers of tasks, if all have ended. -/
def answers? (l : Loop σ κ ρ) (tasks : List Nat) : Option (List ρ) := tasks.mapM l.answer?

/-- Put a process behind those that are ready. -/
def enqueue (l : Loop σ κ ρ) (r : Ready σ κ ρ) : Loop σ κ ρ := { l with ready := l.ready ++ [r] }

/-- Start a task with a process, which is then ready. -/
def begin (l : Loop σ κ ρ) (p : Process σ κ ρ ρ) : Loop σ κ ρ :=
  { l.enqueue ⟨0, l.started, p⟩ with started := l.started + 1 }

/-- Give a lock up. The first one who waits for it holds it from now on. -/
def free (l : Loop σ κ ρ) (lock : Lock) : Loop σ κ ρ :=
  match l.blocked.find? (·.lock = lock) with
  | some b =>
    { l.enqueue ⟨0, b.task, b.process⟩ with blocked := l.blocked.eraseP (·.lock = lock) }
  | none => { l with held := l.held.erase lock }

theorem free_of_forall_ne {l : Loop σ κ ρ} {lock : Lock} (h : ∀ b ∈ l.blocked, b.lock ≠ lock) :
    l.free lock = { l with held := l.held.erase lock } := by
  have hnone : l.blocked.find? (·.lock = lock) = none := by
    simpa using h
  rw [free, hnone]

theorem free_of_eq_append {l : Loop σ κ ρ} {lock : Lock} {as bs : List (Blocked σ κ ρ)}
    {b : Blocked σ κ ρ} (h : l.blocked = as ++ b :: bs) (hb : b.lock = lock)
    (has : ∀ a ∈ as, a.lock ≠ lock) :
    l.free lock = { l.enqueue ⟨0, b.task, b.process⟩ with blocked := as ++ bs } := by
  have hsome : l.blocked.find? (·.lock = lock) = some b :=
    List.find?_eq_some_iff_append.2 ⟨by simpa using hb, as, bs, h, by simpa using has⟩
  have herase : l.blocked.eraseP (·.lock = lock) = as ++ bs := by
    rw [h, List.eraseP_append_right _ fun a ha => by simpa using has a ha]
    simp [hb]
  rw [free, hsome, herase]

/-- Nobody waits for the lock, or the first one who does goes on. -/
theorem free_cases (l : Loop σ κ ρ) (lock : Lock) :
    (∀ b ∈ l.blocked, b.lock ≠ lock) ∨
      ∃ as b bs, l.blocked = as ++ b :: bs ∧ b.lock = lock ∧ ∀ a ∈ as, a.lock ≠ lock := by
  cases hfind : l.blocked.find? (·.lock = lock) with
  | none => exact .inl (by simpa using hfind)
  | some b =>
    obtain ⟨hb, as, bs, happ, has⟩ := List.find?_eq_some_iff_append.1 hfind
    exact .inr ⟨as, b, bs, happ, by simpa using hb, by simpa using has⟩

/-- Those who wait for tasks go on if all of these have ended. -/
def wake (l : Loop σ κ ρ) : List (Joining σ κ ρ) → Loop σ κ ρ
  | [] => l
  | j :: js =>
    match l.answers? j.tasks with
    | some rs => (l.enqueue ⟨j.gathered.toNat, j.task, j.next rs⟩).wake js
    | none => { l with joining := l.joining ++ [j] }.wake js

/-- Note the answer of a task. -/
def finish (l : Loop σ κ ρ) (task : Nat) (r : ρ) : Loop σ κ ρ :=
  wake { l with answers := (task, r) :: l.answers, joining := [] } l.joining

/-- Let the process of a task go on until it has to wait or has ended; `body` tells what tasks do. -/
def resume (body : κ → Process σ κ ρ ρ) (task : Nat) : Process σ κ ρ ρ → Loop σ κ ρ → Loop σ κ ρ
  | .done r, l => l.finish task r
  | .act change next, l => resume body task (next l.state) { l with state := change l.state }
  | .pause next, l => l.enqueue ⟨0, task, next⟩
  | .errand brief change next, l =>
    { l with errands := l.errands ++ [⟨task, brief, change, next⟩] }
  | .acquire lock next, l =>
    if lock ∈ l.held then { l with blocked := l.blocked ++ [⟨lock, task, next⟩] }
    else resume body task next { l with held := lock :: l.held }
  | .release lock next, l => resume body task next (l.free lock)
  | .start k next, l => resume body task (next l.started) (l.begin (body k))
  | .join tasks gathered next, l =>
    match l.answers? tasks with
    | some rs => resume body task (next rs) l
    | none => { l with joining := l.joining ++ [⟨task, tasks, gathered, next⟩] }

/-- Send word of the errand that was carried out. -/
def report (l : Loop σ κ ρ) : Loop σ κ ρ :=
  match l.carried with
  | some r => enqueue { l with carried := none } r
  | none => l

/-- Carry out an errand. Word of it takes a moment to arrive. -/
def carryOut (l : Loop σ κ ρ) (e : Errand σ κ ρ) : Loop σ κ ρ :=
  { l with carried := some ⟨1, e.task, e.next l.state⟩, state := e.change l.state }

/-- Carry out errands, up to the first that is not brief, of which no word is sent yet. -/
def carryOutBrief (l : Loop σ κ ρ) : List (Errand σ κ ρ) → Loop σ κ ρ
  | [] => { l with errands := [] }
  | e :: es =>
    if e.brief l.state then (l.carryOut e).report.carryOutBrief es
    else { l.carryOut e with errands := es }

/-- Let the worker go on: it sends word of one errand at least, if there is one. -/
def work (l : Loop σ κ ρ) : Loop σ κ ρ :=
  match l.carried, l.errands with
  | none, e :: es => (l.carryOut e).report.carryOutBrief es
  | _, es => l.report.carryOutBrief es

/-- One turn: of the process that has been ready longest, or else of the worker. -/
def turn (body : κ → Process σ κ ρ ρ) (l : Loop σ κ ρ) : Loop σ κ ρ :=
  match l.ready with
  | [] => l.work
  | ⟨0, task, p⟩ :: rs => resume body task p { l with ready := rs }
  | ⟨n + 1, task, p⟩ :: rs => enqueue { l with ready := rs } ⟨n, task, p⟩

/-- Turns until a task has ended, but at most as many as given. -/
def run (body : κ → Process σ κ ρ ρ) (task : Nat) : Nat → Loop σ κ ρ → Loop σ κ ρ
  | 0, l => l
  | n + 1, l => if (l.answer? task).isSome then l else run body task n (l.turn body)

/-- Carry out a process, beginning at once, within a number of turns. Others may still be at work
afterwards. -/
def perform (body : κ → Process σ κ ρ ρ) (turns : Nat) (p : Process σ κ ρ ρ) (l : Loop σ κ ρ) :
    Loop σ κ ρ × Option ρ :=
  let task := l.started
  let l := run body task turns (resume body task p { l with started := task + 1 })
  (l, l.answer? task)

end Loop

end LanguageUsage
