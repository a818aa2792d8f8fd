import Mathlib.Data.List.Permutation

/-!
# Stable sorting

Members of a list that neither comes before the other by what is sorted for stay in their order.

* `not_sublist_swap`: two members of a list without repetitions stand in one order only;
* `pairwise_mergeSort_of_pairwise`: what is known of the order before is still known where the sorting leaves it open.
-/

namespace LanguageUsage.Order

open List

variable {α : Type} {a b : α} {l : List α}

theorem not_sublist_swap (hl : l.Nodup) (h : [a, b] <+ l) : ¬ [b, a] <+ l := by
  induction l with
  | nil => cases h
  | cons c l ih =>
    obtain ⟨hc, hl⟩ := nodup_cons.1 hl
    intro h'
    cases h with
    | cons _ h =>
      cases h' with
      | cons _ h' => exact ih hl h h'
      | cons_cons _ h' => exact hc (h.subset (mem_cons_of_mem _ mem_cons_self))
    | cons_cons _ h =>
      cases h' with
      | cons _ h' => exact hc (h'.subset (mem_cons_of_mem _ mem_cons_self))
      | cons_cons _ h' => exact hc (h'.subset mem_cons_self)

/-- **Sorting is stable.** -/
theorem pairwise_mergeSort_of_pairwise (le : α → α → Bool) {before : α → α → Prop}
    (htrans : ∀ a b c, le a b = true → le b c = true → le a c = true) (htotal : ∀ a b, (le a b || le b a) = true)
    (hl : l.Nodup) (hbefore : l.Pairwise before) :
    (l.mergeSort le).Pairwise fun a b => le a b = true ∧ (le b a = true → before a b) := by
  rw [pairwise_iff_forall_sublist]
  intro a b hab
  refine ⟨pairwise_iff_forall_sublist.1 (pairwise_mergeSort htrans htotal l) hab, fun hba => ?_⟩
  obtain ⟨pair, hpair, hsub⟩ := hab.subperm.trans (mergeSort_perm l le).subperm
  rcases perm_pair.1 hpair with rfl | rfl
  · exact pairwise_iff_forall_sublist.1 hbefore hsub
  · -- the other order would have been kept
    have hswap := pair_sublist_mergeSort htrans htotal hba hsub
    exact absurd hswap (not_sublist_swap (nodup_mergeSort.2 hl) hab)

end LanguageUsage.Order
