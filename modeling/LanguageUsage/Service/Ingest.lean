import LanguageUsage.Service.Access

/-!
# Calls as processes

A call waits until it may be performed, and those that wait are performed in the order in which they
came. Between the detections and the increments of a call others may come in, but no other call.

* `Work.consult`, `Work.incrementEach`: the parts of a call that may have to wait;
* `Call.work`: a call;
* `Task.work`: a task of any kind.
-/

namespace LanguageUsage

namespace Work

/-- Ask a detector for one text. -/
def ask (d : Detector) (text : String) : Work (List Value) := do
  if d.pausing then rest
  change (·.log (.consulted text))
  given (d.answer text).tags

/-- Ask for every text in turn, for its top tag. -/
def consult (d : Detector) : List String → Work (List String)
  | [] => return []
  | t :: ts => do
    let tags ← ask d t
    let found ← consult d ts
    return (topTag tags).toList ++ found

/-- Ask the store to count each tag once, up to the first that it refuses. -/
def incrementEach (kind : SignalKind) : List String → Work Unit
  | [] => return ()
  | t :: ts => do
    change (·.log (.requested t kind))
    discard (upsert (.text t) (.kind kind) (.whole 1))
    incrementEach kind ts

/-- Count a list of tags. -/
def classify (tags : List Value) : Work Unit := do
  let ts ← given (usableTags tags)
  incrementEach .classifyText (firstOccurrences ts)

/-- Note the newest time of a request that was counted. -/
def remember (key : Value) (latest : Option Int) : Work Unit := atOnce fun w =>
  let (u, r) := w.updater.remember key latest
  ({ w with updater := u }, r)

/-- Count a conversation request, unless it is a replay. -/
def converse (request : Request) (detector : Detector) : Work Unit := do
  let u ← look World.updater
  let key := request.key u.policy.defaultKey
  unless ← given (u.isReplay key request) do
    let tags ← consult detector request.texts
    incrementEach .conversationActions (firstOccurrences tags)
    remember key (request.latest.map Moment.instant)

end Work

/-- A call as a process. -/
def Call.work (c : Call) : Work Unit :=
  Work.holding .calls (match c with
    | .classify tags => Work.classify tags
    | .converse request detector => Work.converse request detector)

/-- A task as a process. -/
def Task.work : Task → Work Reply
  | .operation o => o.work
  | .call c => do c.work; return .nothing

end LanguageUsage
