/-!
# Runs and halving

The two ways in which a short list is put in order: the run with which it starts is taken as it is, and
every further element is put at the place in it that is found by halving. A comparison that is no
order, such as one between numbers one of which is not-a-number, is asked at those places only, so the
result is fixed also then.

* `Order.firstRun`: the run with which a list starts, and the rest;
* `Order.halve`, `Order.insert`: an element is put into a run;
* `Order.firstRun_perm`, `Order.insert_perm`: no element is lost.
-/

namespace LanguageUsage.Order

variable {α : Type} (lt : α → α → Bool)

/-- The elements up to the first that does not go on from the one before it, and the others. -/
def splitRun (goesOn : α → α → Bool) (x : α) : List α → List α × List α
  | [] => ([], [])
  | y :: ys =>
    if goesOn x y then (y :: (splitRun goesOn y ys).1, (splitRun goesOn y ys).2) else ([], y :: ys)

/-- The run with which a list starts, from the least to the greatest: one that never goes down, or one
that always does, turned round. -/
def firstRun : List α → List α × List α
  | [] => ([], [])
  | x :: xs =>
    if xs.head?.any (lt · x) then
      let split := splitRun (fun a b => lt b a) x xs
      ((x :: split.1).reverse, split.2)
    else
      let split := splitRun (fun a b => !lt b a) x xs
      (x :: split.1, split.2)

/-- The first position from `low` to `high` at which `holds` ends, if it holds up to some position; it
is asked in the middle of what is left. -/
def halve (holds : Nat → Bool) (low high : Nat) : Nat :=
  if low < high then
    let middle := low + (high - low) / 2
    if holds middle then halve holds (middle + 1) high else halve holds low middle
  else low
termination_by high - low

/-- Put an element into a run, behind all that are not greater. -/
def insert (xs : List α) (x : α) : List α :=
  let k := halve (fun i => !(xs[i]?).any (lt x)) 0 xs.length
  xs.take k ++ x :: xs.drop k

theorem splitRun_append (goesOn : α → α → Bool) (x : α) (xs : List α) :
    (splitRun goesOn x xs).1 ++ (splitRun goesOn x xs).2 = xs := by
  induction xs generalizing x with
  | nil => rfl
  | cons y ys ih =>
    unfold splitRun
    split
    · simp [ih y]
    · rfl

theorem firstRun_perm (xs : List α) : ((firstRun lt xs).1 ++ (firstRun lt xs).2).Perm xs := by
  cases xs with
  | nil => exact .refl _
  | cons x xs =>
    by_cases h : xs.head?.any (lt · x) = true
    · simp only [firstRun, h, if_true]
      refine ((List.reverse_perm _).append_right _).trans ?_
      simp [splitRun_append]
    · simp [firstRun, h, splitRun_append]

theorem insert_perm (xs : List α) (x : α) : (insert lt xs x).Perm (x :: xs) := by
  unfold insert
  refine List.perm_middle.trans ?_
  rw [List.take_append_drop]

theorem foldl_insert_perm (xs run : List α) : (xs.foldl (insert lt) run).Perm (run ++ xs) := by
  induction xs generalizing run with
  | nil => simp
  | cons x xs ih =>
    exact (ih _).trans (((insert_perm lt run x).append_right xs).trans List.perm_middle.symm)

end LanguageUsage.Order
