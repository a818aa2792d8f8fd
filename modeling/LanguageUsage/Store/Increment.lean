import LanguageUsage.Fault
import LanguageUsage.Text.Blank

/-!
# Increments

A request to count is checked before any store acts on it: first the tag, then the kind, then the
amount.

* `Increment`: a request that has passed, with the facts that were checked;
* `Increment.ofGiven`: the check, and with it which of several faults is reported.
-/

namespace LanguageUsage

/-- A checked request to add `delta` to the count of a key. -/
structure Increment where
  tag : String
  kind : SignalKind
  delta : Number
  tag_not_blank : Text.isBlank tag = false
  delta_not_below_one : delta.lt (.whole 1) = false
  deriving DecidableEq

namespace Increment

/-- The key that is counted. -/
def key (i : Increment) : String × SignalKind := (i.tag, i.kind)

/-- The amount of a request, checked last. -/
def ofDelta (tag : String) (kind : SignalKind) (h : Text.isBlank tag = false) (delta : Value) :
    Except Fault Increment :=
  match delta.number? with
  | none => .error (.incomparableDelta delta)
  | some n =>
    if hn : n.lt (.whole 1) = true then .error (.deltaBelowOne delta)
    else .ok ⟨tag, kind, n, h, by simpa using hn⟩

/-- Check a request as it was given. -/
def ofGiven (tag : Value) (kind : GivenKind) (delta : Value) : Except Fault Increment :=
  match tag with
  | .text t =>
    if h : Text.isBlank t = true then .error .blankTag
    else
      match kind with
      | .kind k => ofDelta t k (by simpa using h) delta
      | .other v => .error (.unknownKind v)
  | _ => .error .blankTag

end Increment

end LanguageUsage
