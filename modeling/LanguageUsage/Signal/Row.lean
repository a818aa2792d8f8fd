import LanguageUsage.Signal.Kind

/-!
# Counter rows

* `Row`: how many times a language was seen for one kind of signal; tag and kind are its key;
* `Info`: the same data as a caller may write it down, with members of any kind, and its equality.
-/

namespace LanguageUsage

/-- The count of one language for one kind of signal. -/
structure Row where
  tag : String
  kind : SignalKind
  count : Number
  deriving DecidableEq, Repr, Inhabited

/-- The key of a row. -/
def Row.key (r : Row) : String × SignalKind := (r.tag, r.kind)

/-- A row written down by a caller, whose members may be of any kind. Without a count it stands for
one observation. -/
structure Info where
  tag : Value
  kind : GivenKind
  count : Value := .whole 1
  deriving DecidableEq, Repr, Inhabited

/-- Equality of tag, kind and count. -/
def Info.equals (a b : Info) : Bool :=
  a.tag.equals b.tag && a.kind.equals b.kind && a.count.equals b.count

end LanguageUsage
