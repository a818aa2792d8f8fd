import LanguageUsage.Store.Basic
import Mathlib.Data.List.Induction
import Mathlib.Tactic.Common

/-!
# Tallies

A store in memory that was asked for nothing but to count keys by one holds the keys in the order in which they
came first, each with the number of times that it came.

* `eraseDups_concat`, `eraseDups_filter`: the keys in the order in which they came first;
* `MemoryStore.tally`: the store that has counted a list of keys;
* `MemoryStore.upsert_tally`: it counts one more key;
* `MemoryStore.rows_tally`, `MemoryStore.get_tally`: what is found in it.
-/

namespace LanguageUsage

section eraseDups

variable {κ : Type} [BEq κ] [LawfulBEq κ]

theorem eraseDups_concat (ks : List κ) (k : κ) :
    (ks ++ [k]).eraseDups = if k ∈ ks then ks.eraseDups else ks.eraseDups ++ [k] := by
  rw [List.eraseDups_append]
  by_cases hk : k ∈ ks
  · simp [List.removeAll, hk]
  · simp [List.removeAll, hk, List.eraseDups_cons]

theorem nodup_eraseDups (ks : List κ) : ks.eraseDups.Nodup := by
  induction ks using List.reverseRecOn with
  | nil => exact List.nodup_nil
  | append_singleton ks k ih =>
    rw [eraseDups_concat]
    split
    · exact ih
    · next hk =>
      refine List.nodup_append.2 ⟨ih, List.pairwise_singleton _ k, ?_⟩
      intro a ha b hb hab
      rw [List.mem_singleton.1 hb] at hab
      exact hk (List.mem_eraseDups.1 (hab ▸ ha))

theorem eraseDups_filter (p : κ → Bool) (ks : List κ) : (ks.filter p).eraseDups = ks.eraseDups.filter p := by
  induction ks using List.reverseRecOn with
  | nil => rfl
  | append_singleton ks k ih =>
    rw [List.filter_append, eraseDups_concat]
    cases hp : p k with
    | false =>
      have hnone : [k].filter p = [] := by simp [hp]
      rw [hnone, List.append_nil, ih]
      split
      · rfl
      · rw [List.filter_append, hnone, List.append_nil]
    | true =>
      have hsome : [k].filter p = [k] := by simp [hp]
      have hmem : k ∈ ks.filter p ↔ k ∈ ks := by simp [hp]
      rw [hsome, eraseDups_concat, ih]
      by_cases hk : k ∈ ks
      · rw [if_pos (hmem.2 hk), if_pos hk]
      · rw [if_neg (mt hmem.1 hk), if_neg hk, List.filter_append, hsome]

end eraseDups

namespace Counters

variable {κ : Type} [DecidableEq κ] (f : κ → Number) (key : κ)

theorem get?_map (ks : List κ) :
    get? (ks.map fun k => (k, f k)) key = if key ∈ ks then some (f key) else none := by
  induction ks with
  | nil => rfl
  | cons k ks ih =>
    rw [List.map_cons, get?_cons, ih]
    by_cases hk : k = key
    · simp [hk]
    · simp [hk, Ne.symm hk]

/-- A write changes the count of its own key. -/
theorem put_map {ks : List κ} (hks : ks.Nodup) (n : Number) :
    put (ks.map fun k => (k, f k)) key n =
      (if key ∈ ks then ks else ks ++ [key]).map fun k => (k, if k = key then n else f k) := by
  induction ks with
  | nil => simp [put]
  | cons k ks ih =>
    obtain ⟨hnot, hks⟩ := List.nodup_cons.1 hks
    rw [List.map_cons, put]
    by_cases hk : k = key
    · -- the key stands here and nowhere behind
      have hothers : (ks.map fun l => (l, f l)) = ks.map fun l => (l, if l = key then n else f l) := by
        apply List.map_congr_left
        intro l hl
        have hne : l ≠ key := fun h => hnot (hk ▸ h ▸ hl)
        rw [if_neg hne]
      rw [if_pos hk, if_pos (hk ▸ List.mem_cons_self), hothers, List.map_cons, if_pos hk, hk]
    · rw [if_neg hk, ih hks]
      by_cases hmem : key ∈ ks
      · rw [if_pos hmem, if_pos (List.mem_cons_of_mem _ hmem), List.map_cons, if_neg hk]
      · have hmem' : key ∉ k :: ks := by simpa [hmem] using Ne.symm hk
        rw [if_neg hmem, if_neg hmem', List.cons_append, List.map_cons, if_neg hk]

end Counters

namespace MemoryStore

variable (digits : Option Nat) (refused : List String) (ks : List (String × SignalKind)) (tag : String)
  (kind : SignalKind)

/-- The store that has counted keys, each time by one. -/
def tally : MemoryStore where
  counters := ks.eraseDups.map fun k => (k, .whole (ks.count k))
  refused := refused
  digits := digits

theorem counters_tally_concat (k : String × SignalKind) :
    (tally digits refused (ks ++ [k])).counters =
      (tally digits refused ks).counters.put k (.whole (ks.count k + 1)) := by
  have hcount : ∀ l, (Number.whole ((ks ++ [k]).count l)) =
      if l = k then .whole (ks.count k + 1) else .whole (ks.count l) := by
    intro l
    by_cases hl : l = k
    · simp [hl]
    · rw [if_neg hl, List.count_append, List.count_singleton, beq_false_of_ne (Ne.symm hl)]
      rfl
  have hput := Counters.put_map (fun k => Number.whole (ks.count k)) k (nodup_eraseDups ks) (.whole (ks.count k + 1))
  simp only [tally]
  rw [hput]
  simp only [hcount, List.mem_eraseDups, eraseDups_concat]

/-- **Counting a key once more.** The new count stands in the row also if it has too many digits for the log. -/
theorem upsert_tally : (tally digits refused ks).upsert (.text tag) (.kind kind) (.whole 1) =
    if tag ∈ refused then (tally digits refused ks, .error .diskFull)
    else if Text.isBlank tag then (tally digits refused ks, .error .blankTag)
    else (tally digits refused (ks ++ [(tag, kind)]),
      (tally digits refused ks).logged (.whole (ks.count (tag, kind) + 1))) := by
  have hrefuses : (tally digits refused ks).refuses (.text tag) = decide (tag ∈ refused) := by
    simp [refuses, tally]
  rw [upsert, hrefuses]
  by_cases hrefused : tag ∈ refused
  · simp [hrefused]
  · cases hblank : Text.isBlank tag with
    | true => simp [hrefused, Increment.ofGiven, hblank]
    | false =>
      have hgiven : Increment.ofGiven (.text tag) (.kind kind) (.whole 1) =
          .ok ⟨tag, kind, .whole 1, hblank, by simp⟩ := by
        simp [Increment.ofGiven, hblank, Increment.ofDelta, Value.number?, Value.whole]
      have hget : ((tally digits refused ks).counters.get? (tag, kind)).getD (.whole 0) =
          .whole (ks.count (tag, kind)) := by
        rw [tally, Counters.get?_map]
        by_cases hmem : (tag, kind) ∈ ks
        · simp [hmem]
        · simp [hmem, List.count_eq_zero_of_not_mem hmem]
      rw [if_neg hrefused, hgiven]
      simp only [decide_eq_false hrefused, Bool.false_eq_true, if_false, apply, Increment.key, hget,
        Number.add?_whole, ← counters_tally_concat]
      rfl

/-! ### Reading -/

theorem rows_tally : (tally digits refused ks).rows =
    ks.eraseDups.map fun k => ⟨k.1, k.2, .whole (ks.count k)⟩ := by
  simp [rows, tally]

/-- A key has a row as soon as it was counted. -/
theorem get_tally : (tally digits refused ks).get (.text tag) (.kind kind) =
    if ks.count (tag, kind) = 0 then none else some ⟨tag, kind, .whole (ks.count (tag, kind))⟩ := by
  have hget : (tally digits refused ks).get (.text tag) (.kind kind) =
      ((tally digits refused ks).counters.get? (tag, kind)).map fun n => ⟨tag, kind, n⟩ := get_key _ _ _
  rw [hget, tally, Counters.get?_map]
  by_cases hmem : (tag, kind) ∈ ks
  · have hpos : ks.count (tag, kind) ≠ 0 := Nat.ne_of_gt (List.count_pos_iff.2 hmem)
    simp [hmem, hpos]
  · simp [hmem, List.count_eq_zero_of_not_mem hmem]

end MemoryStore

end LanguageUsage
