import LanguageUsage.Service.Ingest

/-!
# Services

A service performs steps one after another for the one who uses it. Calls that were submitted go on
beside the steps that follow, whenever these have to wait.

* `Step`, `Observation`, `Service`;
* `Step.work`: a step as a process;
* `Service.perform`: one step; `Service.performAll`: several;
* `Service.connect`: open the store before the first step.
-/

namespace LanguageUsage

/-- A step in the use of a service. A call that cannot be made is given by its fault. -/
inductive Step
  | operation (o : Operation)
  /-- submit a call, and do not wait for it -/
  | submit (c : Except Fault Call)
  /-- submit a call, and wait for it -/
  | call (c : Except Fault Call)
  /-- submit calls, and then wait for them; none is submitted after one that cannot be made -/
  | batch (cs : List (Except Fault Call))
  /-- wait for all calls that were submitted -/
  | settle

/-- What is seen of a step. What does not come to an end has no completion. -/
inductive Observation
  | submitted
  /-- what comes of the step, the rows after it, and the texts that detectors were asked for since
  the last such entry -/
  | performed (completion rows : Option Completion) (consulted : List String)

namespace Work

/-- Submit a call. -/
def submit (c : Except Fault Call) : Work Nat := do
  let n ← launch (.call (← given c))
  change fun w => { w with calls := w.calls ++ [n] }
  return n

/-- Submit calls, up to the first that cannot be made. -/
def submitAll : List (Except Fault Call) → Work (List Nat)
  | [] => return []
  | c :: cs => do
    let n ← submit c
    let ns ← submitAll cs
    return n :: ns

/-- What comes of tasks that are waited for one after another. -/
def awaitEach : List Nat → Work (List Completion)
  | [] => return []
  | n :: ns => do
    let r ← await n
    let rs ← awaitEach ns
    return r.toList ++ rs

end Work

/-! ### Bounds

The work of an operation or a call takes a bounded number of turns for each part of it. -/

/-- The turns that suffice for a part. -/
def turnsPerPart : Nat := 32

mutual

/-- The number of parts of an operation. -/
def Operation.parts : Operation → Nat
  | .gather operations | .session operations => 1 + partsOfAll operations
  | _ => 1

/-- The number of parts of operations. -/
def Operation.partsOfAll : List Operation → Nat
  | [] => 0
  | o :: os => o.parts + partsOfAll os

end

/-- The number of parts of a call. -/
def Call.parts : Call → Nat
  | .classify tags => 1 + tags.length
  | .converse request _ => 1 + request.messages.length

namespace Step

/-- The calls of a step. -/
def calls : Step → List (Except Fault Call)
  | .submit c | .call c => [c]
  | .batch cs => cs
  | .operation _ | .settle => []

/-- The number of parts of a step, with the look at the rows after it. -/
def parts : Step → Nat
  | .operation o => 2 + o.parts
  | s => 2 + (s.calls.map fun c => (c.toOption.map Call.parts).getD 0).sum

/-- A step as a process. -/
def work : Step → Work Reply
  | .operation o => o.work
  | .submit c => do discard (Work.submit c); return .nothing
  | .call c => do
    match ← Work.await (← Work.submit c) with
    | some r => Work.given r
    | none => return .nothing
  | .batch cs => return .replies (← Work.awaitEach (← Work.submitAll cs))
  | .settle => do
    discard (Work.gather (← Work.look World.calls))
    return .nothing

end Step

/-- A service: its state with the processes on it, and the turns that suffice for them. -/
structure Service where
  loop : Loop World Task Completion
  turns : Nat := 0

namespace Service

/-- The service of an updater. -/
def ofUpdater (u : Updater) : Service := ⟨{ state := { updater := u } }, 0⟩

/-- The store as it is. -/
def store (s : Service) : Store := s.loop.state.store

/-- Do some work for which a number of parts has to be reckoned. -/
def carryOut (s : Service) (parts : Nat) (work : Work Reply) : Service × Option Completion :=
  let turns := s.turns + turnsPerPart * parts
  let (l, r) := s.loop.perform (·.work.run) turns work.run
  (⟨l, turns⟩, r)

/-- The texts that detectors were asked for, which are then forgotten. -/
def takeConsulted (s : Service) : Service × List String :=
  let texts := s.loop.state.events.filterMap fun e => match e with
    | .consulted text => some text
    | .requested _ _ => none
  ({ s with loop := { s.loop with state := { s.loop.state with events := [] } } }, texts)

/-- Perform a step. A call that cannot be made and is not waited for is a fault of the one who uses
the service. -/
def perform (s : Service) (step : Step) : Except Fault (Service × Observation) :=
  let (s, completion) := s.carryOut step.parts step.work
  match step, completion with
  | .submit _, some (.error f) => .error f
  | .submit _, _ => .ok (s, .submitted)
  | _, completion =>
    let (s, rows) := s.carryOut 1 Operation.rows.work
    let (s, texts) := s.takeConsulted
    .ok (s, .performed completion rows texts)

/-- Perform steps one after another. -/
def performAll (s : Service) : List Step → Except Fault (List Observation)
  | [] => .ok []
  | step :: steps => do
    let (s, e) ← s.perform step
    return e :: (← s.performAll steps)

/-- Open the store. -/
def connect (s : Service) : Except Fault Service :=
  match s.carryOut 1 Operation.connect.work with
  | (_, some (.error f)) => .error f
  | (s, _) => .ok s

end Service

end LanguageUsage
