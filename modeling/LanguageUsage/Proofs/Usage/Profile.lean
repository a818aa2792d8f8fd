import LanguageUsage.Proofs.Order.Stable
import LanguageUsage.Usage
import Mathlib.Tactic.Common

/-!
# Profiles of whole counts

Where all counts are whole numbers nothing can go wrong with a profile: they are added exactly, they are sorted by one
rule, and every share is one quotient.

* `Row.amount`, `Row.IsWhole`: the count of a row as a whole number;
* `Usage.total`: the sum of the counts;
* `Usage.ranked_eq_mergeSort`, `Usage.pairwise_ranked`: the rows are sorted stably by decreasing count;
* `Usage.ofRows_eq`: the profile;
* `Usage.ofRows_of_pos`: the profile where something was counted in every row.
-/

namespace LanguageUsage

/-- The count of a row that is a whole number. -/
def Row.amount (r : Row) : Int :=
  match r.count with
  | .whole n => n
  | .real _ => 0

/-- The count of the row is a whole number. -/
def Row.IsWhole (r : Row) : Prop := r.count = .whole r.amount

theorem Row.isWhole_of_count {r : Row} {n : Int} (h : r.count = .whole n) : r.IsWhole ∧ r.amount = n := by
  have hamount : r.amount = n := by rw [amount, h]
  exact ⟨by rw [IsWhole, hamount, h], hamount⟩

namespace Usage

variable {rows : List Row}

/-- The sum of the counts. -/
def total (rows : List Row) : Int := (rows.map Row.amount).sum

/-- The row goes no later than another one by their counts. -/
def before (a b : Row) : Bool := decide (b.amount ≤ a.amount)

/-- The entry of a row in a profile with the given sum of counts. -/
def entryOf (sum : Int) (r : Row) : Usage := ⟨r.tag, r.count, .ofQuotient r.amount sum⟩

theorem total_cons (r : Row) (rows : List Row) : total (r :: rows) = r.amount + total rows := by simp [total]

theorem sum?_eq (h : ∀ r ∈ rows, r.IsWhole) : Number.sum? (rows.map (·.count)) = some (.whole (total rows)) := by
  have hfold : ∀ n : Int, (rows.map (·.count)).foldlM Number.add? (.whole n) = some (.whole (n + total rows)) := by
    induction rows with
    | nil => exact fun n => by simp [total]
    | cons r rows ih =>
      intro n
      obtain ⟨hr, hrows⟩ := List.forall_mem_cons.1 h
      rw [List.map_cons, List.foldlM_cons, hr, Number.add?_whole, total_cons, ← Int.add_assoc]
      exact ih hrows (n + r.amount)
  rw [Number.sum?, hfold, Int.zero_add]

/-! ### Sorting -/

theorem ranked_eq_mergeSort (h : ∀ r ∈ rows, r.IsWhole) : ranked rows = rows.mergeSort before := by
  have hplaces : rows.all (fun r => r.count.place?.isSome) = true := by
    rw [List.all_eq_true]
    intro r hr
    rw [h r hr]
    rfl
  have hsame : ∀ a ∈ rows, ∀ b ∈ rows, (!a.count.lt b.count) = before (id a) (id b) := by
    intro a ha b hb
    rw [h a ha, h b hb, Number.lt_whole, before, ← decide_not, id, id, decide_eq_decide]
    omega
  rw [ranked, if_pos hplaces]
  simpa using List.map_mergeSort hsame

theorem ranked_perm (h : ∀ r ∈ rows, r.IsWhole) : (ranked rows).Perm rows := by
  rw [ranked_eq_mergeSort h]
  exact List.mergeSort_perm _ _

theorem mem_ranked (h : ∀ r ∈ rows, r.IsWhole) {r : Row} : r ∈ ranked rows ↔ r ∈ rows :=
  (ranked_perm h).mem_iff

theorem before_trans (a b c : Row) (hab : before a b = true) (hbc : before b c = true) : before a c = true := by
  simp only [before, decide_eq_true_eq] at *
  omega

theorem before_total (a b : Row) : (before a b || before b a) = true := by
  simp only [before, Bool.or_eq_true, decide_eq_true_eq]
  omega

theorem pairwise_amount_ranked (h : ∀ r ∈ rows, r.IsWhole) :
    (ranked rows).Pairwise fun a b => b.amount ≤ a.amount := by
  rw [ranked_eq_mergeSort h]
  exact (List.pairwise_mergeSort before_trans before_total rows).imp of_decide_eq_true

/-- **The rows are sorted stably**: what is known of the order in which rows stand is still known of rows of equal
count. -/
theorem pairwise_ranked (h : ∀ r ∈ rows, r.IsWhole) (hnodup : rows.Nodup) {earlier : Row → Row → Prop}
    (hearlier : rows.Pairwise earlier) : (ranked rows).Pairwise fun a b =>
      b.amount < a.amount ∨ b.amount = a.amount ∧ earlier a b := by
  rw [ranked_eq_mergeSort h]
  refine (Order.pairwise_mergeSort_of_pairwise before before_trans before_total hnodup hearlier).imp ?_
  rintro a b ⟨hab, hba⟩
  simp only [before, decide_eq_true_eq] at hab hba
  rcases Int.lt_or_eq_of_le hab with hlt | heq
  · exact .inl hlt
  · exact .inr ⟨heq, hba (Int.le_of_eq heq.symm)⟩

/-! ### Shares -/

theorem ofRow_eq {r : Row} (h : r.IsWhole) (sum : Int) : ofRow (.whole sum) r = .ok (entryOf sum r) := by
  have hdiv : r.count.div? (.whole sum) = some (.ofQuotient r.amount sum) := by
    rw [h]
    rfl
  rw [ofRow, hdiv]
  rfl

theorem mapM_ofRow (h : ∀ r ∈ rows, r.IsWhole) (sum : Int) :
    rows.mapM (ofRow (.whole sum)) = .ok (rows.map (entryOf sum)) := by
  induction rows with
  | nil => rfl
  | cons r rows ih =>
    obtain ⟨hr, hrows⟩ := List.forall_mem_cons.1 h
    rw [List.mapM_cons, ofRow_eq hr, ih hrows]
    rfl

/-- **The profile of whole counts.** It is found, and where the counts add up to zero it is empty. -/
theorem ofRows_eq (h : ∀ r ∈ rows, r.IsWhole) : ofRows rows =
    .ok (if total rows = 0 then [] else (ranked rows).map (entryOf (total rows))) := by
  have hranked : ∀ r ∈ ranked rows, r.IsWhole := fun r hr => h r ((mem_ranked h).1 hr)
  rw [ofRows, sum?_eq h]
  simp only [Number.isZero, beq_iff_eq, mapM_ofRow hranked]
  split <;> rfl

theorem total_nonneg (h : ∀ r ∈ rows, 0 ≤ r.amount) : 0 ≤ total rows := by
  induction rows with
  | nil => exact Int.le_refl 0
  | cons r rows ih =>
    obtain ⟨hr, hrows⟩ := List.forall_mem_cons.1 h
    rw [total_cons]
    exact Int.add_nonneg hr (ih hrows)

/-- Where something was counted in every row, every row has its entry. -/
theorem ofRows_of_pos (h : ∀ r ∈ rows, r.IsWhole) (hpos : ∀ r ∈ rows, 1 ≤ r.amount) :
    ofRows rows = .ok ((ranked rows).map (entryOf (total rows))) := by
  rw [ofRows_eq h]
  cases rows with
  | nil => simp [ranked_eq_mergeSort h]
  | cons r rows =>
    obtain ⟨hr, hrows⟩ := List.forall_mem_cons.1 hpos
    have hrest : 0 ≤ total rows := total_nonneg fun r hr => Int.le_trans (by decide) (hrows r hr)
    have hne : total (r :: rows) ≠ 0 := by
      rw [total_cons]
      omega
    rw [if_neg hne]

end Usage

end LanguageUsage
