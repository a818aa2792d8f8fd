import LanguageUsage.Order.Runs
import LanguageUsage.Store.Basic

/-!
# The usage profile

Which languages are used, read off the counters of one kind of signal.

* `Usage`, `Usage.ofRows`: the rows of a kind by decreasing count, each with its share of the total;
* `Store.usage`, `Store.frequent`: the profile of a store, and the tags whose share is large enough.
-/

namespace LanguageUsage

/-- The usage of one language for one kind of signal. -/
structure Usage where
  tag : String
  count : Number
  share : Binary64
  deriving DecidableEq, Repr, Inhabited

namespace Usage

/-- A row with its share of a total. -/
def ofRow (total : Number) (r : Row) : Except Fault Usage :=
  match r.count.div? total with
  | some share => .ok ⟨r.tag, r.count, share⟩
  | none => .error .beyondDoubles

/-- The rows by decreasing count; rows of equal count stay in their order. A count that is no number
has no place among the others: rows with such counts are sorted by runs, from the last row on. -/
def ranked (rows : List Row) : List Row :=
  if rows.all fun r => r.count.place?.isSome then
    rows.mergeSort fun a b => !a.count.lt b.count
  else (Order.sorted (fun a b => a.count.lt b.count) rows.reverse).reverse

/-- The profile of the rows of one kind; without observations it is empty. -/
def ofRows (rows : List Row) : Except Fault (List Usage) :=
  match Number.sum? (rows.map (·.count)) with
  | none => .error .beyondDoubles
  | some total => if total.isZero then .ok [] else (ranked rows).mapM (ofRow total)

/-- The tags of a profile whose share is at least `least`. -/
def frequent (least : Number) (profile : List Usage) : List String :=
  (profile.filter fun u => least.le (.real u.share)).map (·.tag)

end Usage

/-- The least share of a frequent language when no other is asked for: one tenth. -/
def defaultMinShare : Value := .real (.ofDecimal false 1 (-1))

/-- A least share, which lies between zero and one. -/
def checkMinShare (share : Value) : Except Fault Number :=
  match share.number? with
  | none => .error (.incomparableShare share)
  | some s =>
    if (Number.whole 0).le s && s.le (.whole 1) then .ok s else .error (.shareOutOfRange share)

namespace Store

/-- The profile of one kind of signal. -/
def usage (s : Store) (kind : GivenKind) : Except Fault (List Usage) := do
  Usage.ofRows (← s.byKind kind)

/-- The tags whose share of a kind of signal is at least `minShare`, most used first. -/
def frequent (s : Store) (kind : GivenKind) (minShare : Value) : Except Fault (List String) := do
  let least ← checkMinShare minShare
  return Usage.frequent least (← s.usage kind)

end Store

end LanguageUsage
