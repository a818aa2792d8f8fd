import LanguageUsage.Order.Halving

/-!
# Merging two runs

Two runs are merged by taking one element after the other. When one of them has been ahead several
times in a row, its next elements are searched for in strides and taken together.

* `Order.boundary`: a search by strides and halving;
* `Order.Merge`, `Order.Manner`: two runs that are being merged, and the end at which this is done;
* `Order.mergeRuns`, `Order.mergeRuns_perm`.
-/

namespace LanguageUsage.Order

variable {α : Type} (lt : α → α → Bool)

/-! ### Searching -/

/-- The last stride that was good and the first that was not, of those to `1, 3, 7, …`; none goes beyond
`limit`. -/
def strides (good : Nat → Bool) (limit : Nat) : Nat → Nat → Nat → Nat × Nat
  | 0, last, next => (last, min next limit)
  | fuel + 1, last, next =>
    if next < limit && good next then strides good limit fuel next (2 * next + 1)
    else (last, min next limit)

/-- How many elements of a run come before something, where `before` tells whether one does. The search
goes from `hint` in the direction in which the answer lies. -/
def boundary (before : α → Bool) (xs : List α) (hint : Nat) : Nat :=
  let holds := fun i => (xs[i]?).any before
  if holds hint then
    let (last, next) := strides (fun k => holds (hint + k)) (xs.length - hint) xs.length 0 1
    halve holds (hint + last + 1) (hint + next)
  else
    let (last, next) := strides (fun k => !holds (hint - k)) (hint + 1) xs.length 0 1
    halve holds (hint + 1 - next) (hint - last)

/-! ### Merging -/

/-- Two runs that are being merged: what has been taken, the last first, and what is left of the shorter
run, which is held, and of the other one. -/
structure Merge (α : Type) where
  taken : List α
  held : List α
  other : List α

namespace Merge

/-- What is left is in order: the last element that is held comes behind all others. -/
def isOver (m : Merge α) : Bool := m.held.length ≤ 1 || m.other.isEmpty

/-- Take elements that are held. -/
def takeHeld (k : Nat) (m : Merge α) : Merge α :=
  { m with taken := (m.held.take k).reverse ++ m.taken, held := m.held.drop k }

/-- Take elements of the other run. -/
def takeOther (k : Nat) (m : Merge α) : Merge α :=
  { m with taken := (m.other.take k).reverse ++ m.taken, other := m.other.drop k }

/-- The merged run. -/
def result (m : Merge α) : List α := m.taken.reverse ++ m.other ++ m.held

end Merge

/-- The end from which two runs are merged. -/
structure Manner (α : Type) where
  /-- an element of the other run goes ahead of one that is held -/
  otherAhead : α → α → Bool
  /-- how many of those that are held go ahead of an element of the other run -/
  heldBefore : α → List α → Nat
  /-- how many of the other run go ahead of an element that is held -/
  otherBefore : α → List α → Nat
  /-- those that are held are searched first -/
  heldFirst : Bool

/-- Merging from the front, where the first run is held. -/
def forwards : Manner α where
  otherAhead o h := lt o h
  heldBefore o hs := boundary (fun x => !lt o x) hs 0
  otherBefore h os := boundary (fun x => lt x h) os 0
  heldFirst := true

/-- Merging from the back, where the second run is held; both are given from their ends. -/
def backwards : Manner α where
  otherAhead o h := lt h o
  heldBefore o hs := hs.length - boundary (fun x => lt x o) hs.reverse (hs.length - 1)
  otherBefore h os := os.length - boundary (fun x => !lt h x) os.reverse (os.length - 1)
  heldFirst := false

namespace Manner

/-- Take one element after the other until a run has been ahead `patience` times in a row. -/
def oneByOne (w : Manner α) (patience : Nat) : Nat → Nat → Nat → Merge α → Merge α
  | 0, _, _, m => m
  | fuel + 1, heldWins, otherWins, m =>
    -- the last one that is held goes behind all of the other run
    match m.held, m.other with
    | h :: _ :: _, o :: _ =>
      if w.otherAhead o h then
        if patience ≤ otherWins + 1 then m.takeOther 1
        else w.oneByOne patience fuel 0 (otherWins + 1) (m.takeOther 1)
      else
        if patience ≤ heldWins + 1 then m.takeHeld 1
        else w.oneByOne patience fuel (heldWins + 1) 0 (m.takeHeld 1)
    | _, _ => m

/-- Take all that are held and go ahead, and then one of the other run. The first component counts the
former. -/
def manyHeld (w : Manner α) (m : Merge α) : Nat × Merge α :=
  match m.other with
  | [] => (0, m)
  | o :: _ =>
    let k := w.heldBefore o m.held
    let m := m.takeHeld k
    (k, if m.isOver then m else m.takeOther 1)

/-- Take all of the other run that go ahead, and then one that is held. -/
def manyOther (w : Manner α) (m : Merge α) : Nat × Merge α :=
  match m.held with
  | [] => (0, m)
  | h :: _ =>
    let k := w.otherBefore h m.other
    let m := m.takeOther k
    (k, if m.isOver then m else m.takeHeld 1)

/-- Take many of one run and then of the other, and tell whether it was worth it. -/
def inTurn (first second : Merge α → Nat × Merge α) (worth : Nat) (m : Merge α) : Bool × Merge α :=
  let (j, m) := first m
  if m.isOver then (false, m)
  else
    let (k, m) := second m
    (decide (worth ≤ j ∨ worth ≤ k), m)

/-- Take many of each run, and tell whether it was worth it. -/
def many (w : Manner α) (worth : Nat) (m : Merge α) : Bool × Merge α :=
  if w.heldFirst then inTurn w.manyHeld w.manyOther worth m
  else inTurn w.manyOther w.manyHeld worth m

/-- Take many of each run as long as it is worth it. Patience shrinks with each time after the first
and grows at the end. -/
def manyTimes (w : Manner α) (worth : Nat) : Nat → Nat → Merge α → Nat × Merge α
  | 0, patience, m => (patience, m)
  | fuel + 1, patience, m =>
    let (again, m) := w.many worth m
    if m.isOver then (patience, m)
    else if again then w.manyTimes worth fuel (max 1 (patience - 1)) m
    else (patience + 1, m)

/-- Merge to the end. -/
def merge (w : Manner α) (worth : Nat) : Nat → Nat → Merge α → Nat × Merge α
  | 0, patience, m => (patience, m)
  | fuel + 1, patience, m =>
    if m.isOver then (patience, m)
    else
      let m := w.oneByOne patience (fuel + 1) 0 0 m
      if m.isOver then (patience, m)
      else
        let (patience, m) := w.manyTimes worth (fuel + 1) patience m
        w.merge worth fuel patience m

end Manner

/-- The number of elements that is worth a search, and the patience at first. -/
def defaultPatience : Nat := 7

/-- How many elements of the first of two runs come before all of the second. -/
def settledFront (a b : List α) : Nat :=
  match b.head? with
  | some first => boundary (fun x => !lt first x) a 0
  | none => a.length

/-- How many elements of the second of two runs do not come behind all of the first. -/
def unsettledBack (a b : List α) : Nat :=
  match a.getLast? with
  | some last => boundary (fun x => lt x last) b (b.length - 1)
  | none => 0

/-- Merge two runs, the shorter of which is held. -/
def mergeUnsettled (patience : Nat) (a b : List α) : Nat × List α :=
  let size := a.length + b.length
  if a.length ≤ b.length then
    let (patience, m) := (forwards lt).merge defaultPatience size patience
      (Merge.takeOther 1 ⟨[], a, b⟩)
    (patience, m.result)
  else
    let (patience, m) := (backwards lt).merge defaultPatience size patience
      (Merge.takeOther 1 ⟨[], b.reverse, a.reverse⟩)
    (patience, m.result.reverse)

/-- Merge two neighbouring runs; the patience is handed on from merge to merge. Elements at the front
and the back that are in place stay where they are. -/
def mergeRuns (patience : Nat) (a b : List α) : Nat × List α :=
  let i := settledFront lt a b
  let j := unsettledBack lt a b
  if (a.drop i).isEmpty || (b.take j).isEmpty then (patience, a ++ b)
  else
    let (patience, m) := mergeUnsettled lt patience (a.drop i) (b.take j)
    (patience, a.take i ++ m ++ b.drop j)

/-! ### Nothing is lost -/

namespace Merge

theorem result_takeHeld (k : Nat) (m : Merge α) : (m.takeHeld k).result.Perm m.result := by
  have h := List.take_append_drop k m.held
  simp only [result, takeHeld, List.reverse_append, List.reverse_reverse, List.append_assoc]
  refine List.Perm.append_left _ ?_
  conv => rhs; rw [← h]
  exact (List.append_assoc _ _ _).symm ▸ (List.perm_append_comm.append_right _).trans
    (by simp)

theorem result_takeOther (k : Nat) (m : Merge α) : (m.takeOther k).result = m.result := by
  simp only [result, takeOther, List.reverse_append, List.reverse_reverse, List.append_assoc]
  rw [← List.append_assoc (m.other.take k), List.take_append_drop]

end Merge

namespace Manner

theorem oneByOne_perm (w : Manner α) (patience fuel i j : Nat) (m : Merge α) :
    (w.oneByOne patience fuel i j m).result.Perm m.result := by
  induction fuel generalizing i j m with
  | zero => exact .refl _
  | succ fuel ih =>
    have h := m.result_takeHeld 1
    have h' := List.Perm.of_eq (m.result_takeOther 1)
    unfold oneByOne
    split
    · split
      · split
        · exact h'
        · exact (ih _ _ _).trans h'
      · split
        · exact h
        · exact (ih _ _ _).trans h
    · exact .refl _

theorem manyHeld_perm (w : Manner α) (m : Merge α) : (w.manyHeld m).2.result.Perm m.result := by
  unfold manyHeld
  split
  · exact .refl _
  · dsimp only
    split
    · exact m.result_takeHeld _
    · exact (List.Perm.of_eq (Merge.result_takeOther _ _)).trans (m.result_takeHeld _)

theorem manyOther_perm (w : Manner α) (m : Merge α) : (w.manyOther m).2.result.Perm m.result := by
  unfold manyOther
  split
  · exact .refl _
  · dsimp only
    split
    · exact .of_eq (m.result_takeOther _)
    · exact (Merge.result_takeHeld _ _).trans (.of_eq (m.result_takeOther _))

theorem inTurn_perm {first second : Merge α → Nat × Merge α}
    (h : ∀ m, (first m).2.result.Perm m.result) (h' : ∀ m, (second m).2.result.Perm m.result)
    (worth : Nat) (m : Merge α) : (inTurn first second worth m).2.result.Perm m.result := by
  unfold inTurn
  dsimp only
  split
  · exact h m
  · exact (h' _).trans (h m)

theorem many_perm (w : Manner α) (worth : Nat) (m : Merge α) :
    (w.many worth m).2.result.Perm m.result := by
  unfold many
  split
  · exact inTurn_perm w.manyHeld_perm w.manyOther_perm worth m
  · exact inTurn_perm w.manyOther_perm w.manyHeld_perm worth m

theorem manyTimes_perm (w : Manner α) (worth fuel patience : Nat) (m : Merge α) :
    (w.manyTimes worth fuel patience m).2.result.Perm m.result := by
  induction fuel generalizing patience m with
  | zero => exact .refl _
  | succ fuel ih =>
    unfold manyTimes
    dsimp only
    split
    · exact w.many_perm _ _
    · split
      · exact (ih _ _).trans (w.many_perm _ _)
      · exact w.many_perm _ _

theorem merge_perm (w : Manner α) (worth fuel patience : Nat) (m : Merge α) :
    (w.merge worth fuel patience m).2.result.Perm m.result := by
  induction fuel generalizing patience m with
  | zero => exact .refl _
  | succ fuel ih =>
    unfold merge
    dsimp only
    split
    · exact .refl _
    · split
      · exact w.oneByOne_perm _ _ _ _ _
      · exact (ih _ _).trans ((w.manyTimes_perm _ _ _ _).trans (w.oneByOne_perm _ _ _ _ _))

end Manner

theorem mergeUnsettled_perm (patience : Nat) (a b : List α) :
    (mergeUnsettled lt patience a b).2.Perm (a ++ b) := by
  by_cases h : a.length ≤ b.length
  · simp only [mergeUnsettled, h, if_true]
    refine ((forwards lt).merge_perm _ _ _ _).trans ?_
    rw [Merge.result_takeOther]
    simpa [Merge.result] using List.perm_append_comm
  · simp only [mergeUnsettled, h, if_false]
    refine (List.reverse_perm _).trans (((backwards lt).merge_perm _ _ _ _).trans ?_)
    rw [Merge.result_takeOther]
    simpa [Merge.result] using (List.reverse_perm a).append (List.reverse_perm b)

theorem mergeRuns_perm (patience : Nat) (a b : List α) :
    (mergeRuns lt patience a b).2.Perm (a ++ b) := by
  unfold mergeRuns
  dsimp only
  split
  · exact .refl _
  · refine (((mergeUnsettled_perm lt _ _ _).append_left _).append_right _).trans (.of_eq ?_)
    rw [← List.append_assoc, List.take_append_drop, List.append_assoc, List.take_append_drop]

end LanguageUsage.Order
