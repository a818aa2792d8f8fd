import LanguageUsage.Number.Basic

/-!
# Counters

A list of counts by key, in the order in which the keys were first written. Both kinds of store keep
their rows in one.

* `Counters.get?`, `Counters.put`;
* `get?_put`: a write is seen by its own key only.
-/

namespace LanguageUsage

/-- Counts by key, in the order of first writing. -/
abbrev Counters (κ : Type) := List (κ × Number)

namespace Counters

variable {κ : Type} [DecidableEq κ]

/-- The count of a key. -/
def get? (cs : Counters κ) (key : κ) : Option Number :=
  (cs.find? fun c => c.1 = key).map (·.2)

/-- Write the count of a key: in its place if it has one, else at the end. -/
def put : Counters κ → κ → Number → Counters κ
  | [], key, n => [(key, n)]
  | c :: cs, key, n => if c.1 = key then (key, n) :: cs else c :: put cs key n

@[simp] theorem get?_nil (key : κ) : get? [] key = none := rfl

theorem get?_cons (c : κ × Number) (cs : Counters κ) (key : κ) :
    get? (c :: cs) key = if c.1 = key then some c.2 else get? cs key := by
  unfold get?
  by_cases h : c.1 = key <;> simp [h]

theorem get?_put (cs : Counters κ) (key key' : κ) (n : Number) :
    (cs.put key n).get? key' = if key = key' then some n else cs.get? key' := by
  induction cs with
  | nil => simp [put, get?_cons]
  | cons c cs ih => grind [put, get?_cons]

end Counters

end LanguageUsage
