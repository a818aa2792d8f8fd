import LanguageUsage.Number.Natural
import LanguageUsage.Order.Merge

/-!
# Sorting by runs

A list is cut into runs, those that are short are made longer by halving, and neighbouring runs are
merged until one is left. Which runs are merged first is decided by how evenly they divide the list.

* `Order.runs`: the runs of a list;
* `Order.power`, `Order.push`: which runs are merged while others are still to come;
* `Order.sorted`, `Order.sorted_perm`.

For an order the result is that of every other way of sorting that keeps equal elements as they stand.
What this one adds is a result for comparisons that are no order.
-/

namespace LanguageUsage.Order

variable {α : Type} (lt : α → α → Bool)

/-- The least length of a run in a list of length `n`: the list itself up to 63, else half as often as it
takes to come to at most 64, rounded up. -/
def leastRun (n : Nat) : Nat :=
  let parts := 2 ^ (n.log2 - 5)
  (n + parts - 1) / parts

/-- The runs of a list. -/
def runs (least : Nat) : Nat → List α → List (List α)
  | 0, xs => [xs]
  | fuel + 1, xs =>
    if xs.isEmpty then []
    else
      let (run, rest) := firstRun lt xs
      let missing := least - run.length
      (rest.take missing).foldl (insert lt) run :: runs least fuel (rest.drop missing)

/-- A run that waits to be merged: where it starts, and its power with the next one. -/
structure Pending (α : Type) where
  start : Nat
  run : List α
  power : Nat := 0

/-- The first binary digit in which `a / n` and `b / n` differ, where both are below two. -/
def power (n : Nat) : Nat → Nat → Nat → Nat
  | 0, _, _ => 0
  | fuel + 1, a, b =>
    if n ≤ a then power n fuel (2 * (a - n)) (2 * (b - n)) + 1
    else if n ≤ b then 1
    else power n fuel (2 * a) (2 * b) + 1

/-- Merge the last run with those before it whose power is greater. -/
def collapse (limit patience : Nat) (last : Pending α) :
    List (Pending α) → Nat × Pending α × List (Pending α)
  | [] => (patience, last, [])
  | p :: ps =>
    if limit < p.power then
      let (patience, run) := mergeRuns lt patience p.run last.run
      collapse limit patience ⟨p.start, run, 0⟩ ps
    else (patience, last, p :: ps)

/-- Add a run to those that wait, the last of which comes first. -/
def push (n : Nat) : Nat × List (Pending α) → List α → Nat × List (Pending α)
  | (patience, []), run => (patience, [⟨0, run, 0⟩])
  | (patience, last :: ps), run =>
    let middle := 2 * last.start + last.run.length
    let limit := power n (n.log2 + 2) middle (middle + last.run.length + run.length)
    let (patience, last, ps) := collapse lt limit patience last ps
    (patience, ⟨last.start + last.run.length, run, 0⟩ :: { last with power := limit } :: ps)

/-- Merge the runs that wait, the last of which comes first. -/
def mergeAll : Nat → Nat → List (List α) → List α
  | fuel + 1, patience, c :: b :: a :: rs =>
    if a.length < c.length then
      let (patience, run) := mergeRuns lt patience a b
      mergeAll fuel patience (c :: run :: rs)
    else
      let (patience, run) := mergeRuns lt patience b c
      mergeAll fuel patience (run :: a :: rs)
  | _ + 1, patience, [c, b] => (mergeRuns lt patience b c).2
  | _, _, rs => rs.flatten

/-- The elements from the least to the greatest. -/
def sorted (xs : List α) : List α :=
  let n := xs.length
  let (patience, pending) := (runs lt (leastRun n) n xs).foldl (push lt n) (defaultPatience, [])
  mergeAll lt n patience (pending.map (·.run))

/-! ### Nothing is lost -/

theorem runs_perm (least fuel : Nat) (xs : List α) : (runs lt least fuel xs).flatten.Perm xs := by
  induction fuel generalizing xs with
  | zero => simp [runs]
  | succ fuel ih =>
    by_cases h : xs = []
    · simp [runs, h]
    · simp only [runs, List.isEmpty_iff, h, if_false, List.flatten_cons]
      refine ((foldl_insert_perm lt _ _).append (ih _)).trans ?_
      rw [List.append_assoc, List.take_append_drop]
      exact firstRun_perm lt xs

/-- All elements that wait. -/
def waiting (ps : List (Pending α)) : List α := (ps.map (·.run)).flatten

theorem collapse_perm (limit patience : Nat) (last : Pending α) (ps : List (Pending α)) :
    ((collapse lt limit patience last ps).2.1.run
      ++ waiting (collapse lt limit patience last ps).2.2).Perm (last.run ++ waiting ps) := by
  induction ps generalizing patience last with
  | nil => exact .refl _
  | cons p ps ih =>
    unfold collapse
    split
    · refine (ih _ _).trans ?_
      refine ((mergeRuns_perm lt _ _ _).append_right _).trans ?_
      simp only [waiting, List.map_cons, List.flatten_cons]
      exact (List.perm_append_comm.append_right _).trans (by simp)
    · exact .refl _

theorem push_perm (n : Nat) (s : Nat × List (Pending α)) (run : List α) :
    (waiting (push lt n s run).2).Perm (run ++ waiting s.2) := by
  obtain ⟨patience, _ | ⟨last, ps⟩⟩ := s
  · simp [push, waiting]
  · exact (collapse_perm lt _ _ _ _).append_left _

theorem foldl_push_perm (n : Nat) (rs : List (List α)) (s : Nat × List (Pending α)) :
    (waiting (rs.foldl (push lt n) s).2).Perm (rs.flatten ++ waiting s.2) := by
  induction rs generalizing s with
  | nil => simp
  | cons r rs ih =>
    refine (ih _).trans (((push_perm lt n s r).append_left _).trans ?_)
    simp only [List.flatten_cons, ← List.append_assoc]
    exact List.perm_append_comm.append_right _

theorem mergeAll_perm (fuel patience : Nat) (rs : List (List α)) :
    (mergeAll lt fuel patience rs).Perm rs.flatten := by
  fun_induction mergeAll lt fuel patience rs with
  | case1 fuel patience c b a rs h patience' run hm ih =>
    have hp := mergeRuns_perm lt patience a b
    rw [hm] at hp
    refine ih.trans ?_
    simp only [List.flatten_cons]
    refine List.Perm.append_left _ ?_
    rw [← List.append_assoc]
    exact (hp.trans List.perm_append_comm).append_right _
  | case2 fuel patience c b a rs h patience' run hm ih =>
    have hp := mergeRuns_perm lt patience b c
    rw [hm] at hp
    refine ih.trans ?_
    simp only [List.flatten_cons]
    rw [← List.append_assoc c b]
    exact (hp.trans List.perm_append_comm).append_right _
  | case3 fuel patience c b =>
    exact (mergeRuns_perm lt _ _ _).trans (by simpa using List.perm_append_comm)
  | case4 => exact .refl _

theorem sorted_perm (xs : List α) : (sorted lt xs).Perm xs := by
  unfold sorted
  refine (mergeAll_perm lt _ _ _).trans ((foldl_push_perm lt _ _ _).trans ?_)
  simpa [waiting] using runs_perm lt _ _ xs

end LanguageUsage.Order
