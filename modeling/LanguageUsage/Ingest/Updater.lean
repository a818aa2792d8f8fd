import LanguageUsage.Conversation.Request
import LanguageUsage.Ingest.Detector
import LanguageUsage.Ingest.Replay
import LanguageUsage.Store.Basic

/-!
# The profile updater

Turns calls into increments of the counters. A call counts every language once, however often it
occurs in it. Increments are made one language at a time; when one fails, those before it stay.

* `Call`: a list of tags, or a conversation request with a detector;
* `Policy`, `Updater`, `Outcome`, `Event`;
* `usableTags`, `firstOccurrences`: what a list of tags comes down to;
* `Updater.perform`: one call; `Updater.performAll`: calls one after another.
-/

namespace LanguageUsage

/-- A unit of work. -/
inductive Call
  | classify (tags : List Value)
  | converse (request : Request) (detector : Detector)
  deriving Inhabited

/-- The call for the tags that one meets when going through a value. -/
def Call.ofTags (tags : Value) : Except Fault Call :=
  match tags.elements? with
  | some vs => .ok (.classify vs)
  | none => .error (.notIterable tags)

/-- The settings of an updater, which are taken as they come. -/
structure Policy where
  defaultKey : Value := .text defaultNotification
  suppressReplays : Value := .bool false
  capacity : Value := .whole 256
  deriving DecidableEq, Repr, Inhabited

/-- An updater with its store and what it remembers of earlier calls. -/
structure Updater where
  store : Store
  policy : Policy := {}
  memory : ReplayMemory := []
  deriving DecidableEq, Repr, Inhabited

/-- What an updater asks of others while it performs a call. -/
inductive Event
  /-- the detector is given a text -/
  | consulted (text : String)
  /-- the store is asked to count a tag once -/
  | requested (tag : String) (kind : SignalKind)
  deriving DecidableEq, Repr

/-- How a call went: the updater afterwards, what it asked for, and its result. -/
structure Outcome where
  updater : Updater
  events : List Event
  result : Except Fault Unit

/-- Every element once, where it occurs first. -/
def firstOccurrences : List String → List String
  | [] => []
  | t :: ts => t :: (firstOccurrences ts).filter (· ≠ t)

/-- The tags of a list that are not blank. Values that count as missing are passed over; another
value that is no text is a fault. -/
def usableTags : List Value → Except Fault (List String)
  | [] => .ok []
  | .text s :: vs => (usableTags vs).map fun ts => if Text.isBlank s then ts else s :: ts
  | v :: vs => if v.isTruthy then .error (.noMember v "strip") else usableTags vs

namespace Updater

/-- Ask the store to count each tag once, up to the first that it refuses. -/
def incrementEach (kind : SignalKind) (s : Store) :
    List String → Store × List Event × Except Fault Unit
  | [] => (s, [], .ok ())
  | t :: ts =>
    match s.upsert (.text t) (.kind kind) (.whole 1) with
    | (s, .error f) => (s, [.requested t kind], .error f)
    | (s, .ok _) =>
      let (s, events, result) := incrementEach kind s ts
      (s, .requested t kind :: events, result)

/-- Replays are to be skipped. -/
def suppresses (u : Updater) : Bool := u.policy.suppressReplays.isTruthy

/-- Count a list of tags. -/
def classify (u : Updater) (tags : List Value) : Outcome :=
  match usableTags tags with
  | .error f => ⟨u, [], .error f⟩
  | .ok ts =>
    let (s, events, result) := incrementEach .classifyText u.store (firstOccurrences ts)
    ⟨{ u with store := s }, events, result⟩

/-- Note the newest time of a request that was counted. -/
def remember (u : Updater) (key : Value) (latest : Option Int) : Updater × Except Fault Unit :=
  match u.suppresses, latest with
  | true, some t =>
    let (m, result) := u.memory.remember key t u.policy.capacity
    ({ u with memory := m }, result)
  | _, _ => (u, .ok ())

/-- Detect the languages of a request, count them, and note its newest time. -/
def ingest (u : Updater) (key : Value) (request : Request) (detector : Detector) : Outcome :=
  let (asked, found) := detector.consult request.texts
  let consulted := asked.map Event.consulted
  match found with
  | .error f => ⟨u, consulted, .error f⟩
  | .ok tags =>
    let (s, events, result) := incrementEach .conversationActions u.store (firstOccurrences tags)
    let u := { u with store := s }
    match result with
    | .error f => ⟨u, consulted ++ events, .error f⟩
    | .ok () =>
      let (u, result) := u.remember key (request.latest.map Moment.instant)
      ⟨u, consulted ++ events, result⟩

/-- Everything in a request was counted before. The notification has to be written, and where replays
are skipped, it has to be a key. -/
def isReplay (u : Updater) (key : Value) (request : Request) : Except Fault Bool :=
  if !request.isKeyWritable then .error .unwritable
  else if !u.suppresses then .ok false
  else if !key.isKey then .error (.unhashable key)
  else .ok (u.memory.isReplay key (request.latest.map Moment.instant))

/-- Count a conversation request, unless it is a replay. -/
def converse (u : Updater) (request : Request) (detector : Detector) : Outcome :=
  let key := request.key u.policy.defaultKey
  match u.isReplay key request with
  | .error f => ⟨u, [], .error f⟩
  | .ok true => ⟨u, [], .ok ()⟩
  | .ok false => u.ingest key request detector

/-- Perform one call. -/
def perform (u : Updater) : Call → Outcome
  | .classify tags => u.classify tags
  | .converse request detector => u.converse request detector

/-- Perform calls one after another, whatever becomes of each. -/
def performAll (u : Updater) : List Call → Updater × List Event × List (Except Fault Unit)
  | [] => (u, [], [])
  | c :: cs =>
    let o := u.perform c
    let (u, events, results) := o.updater.performAll cs
    (u, o.events ++ events, o.result :: results)

end Updater

end LanguageUsage
