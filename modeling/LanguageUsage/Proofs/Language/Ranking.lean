import LanguageUsage.Proofs.Language.Weight
import LanguageUsage.Proofs.Order.Stable

/-!
# The ranking of languages

The candidates for the language of a text are the languages for which something in it counts, by decreasing weight, and
where weights are equal in the order of the scripts. Looking for blank texts first hides none of them.

* `Outranks`, `Leads`: a script goes before another one, or before all others;
* `ranked`, `mem_ranked`, `pairwise_ranked`: the scripts of the candidates;
* `detect_eq`, `detect_ranks_scripts`: the candidates;
* `head?_detectTags`: the first of them.
-/

namespace LanguageUsage.Language

variable {text : String} {s t : Script}

/-- The script `s` goes before `t` among the candidates for a text. -/
def Outranks (text : String) (s t : Script) : Prop :=
  weight text t < weight text s ∨ weight text t = weight text s ∧ s.place < t.place

instance (text : String) (s t : Script) : Decidable (Outranks text s t) := inferInstanceAs (Decidable (_ ∨ _))

theorem Outranks.asymm (h : Outranks text s t) : ¬ Outranks text t s := by
  unfold Outranks at *
  omega

/-- The language of the script `s` is the first candidate for a text. -/
def Leads (text : String) (s : Script) : Prop := 0 < weight text s ∧ ∀ t, t ≠ s → Outranks text s t

/-- The scripts of the candidates. -/
def ranked (text : String) : List Script := (ranking text).map (·.1)

theorem mem_tallies {p : Script × Nat} : p ∈ tallies text ↔ p.2 = weight text p.1 ∧ 0 < weight text p.1 := by
  obtain ⟨s, n⟩ := p
  simp only [tallies, List.mem_filter, List.mem_map, Script.mem_all, true_and, Prod.mk.injEq, exists_eq_left, bne_iff_ne]
  constructor
  · rintro ⟨rfl, hn⟩
    exact ⟨rfl, Nat.pos_of_ne_zero hn⟩
  · rintro ⟨rfl, hn⟩
    exact ⟨rfl, Nat.ne_of_gt hn⟩

theorem mem_ranking {p : Script × Nat} : p ∈ ranking text ↔ p.2 = weight text p.1 ∧ 0 < weight text p.1 :=
  (List.mergeSort_perm _ _).mem_iff.trans mem_tallies

theorem pairwise_tallies (text : String) : (tallies text).Pairwise fun p q => p.1.place < q.1.place := by
  refine List.Pairwise.filter _ (List.pairwise_map.2 ?_)
  exact Script.pairwise_place

theorem ranking_eq (text : String) : ranking text = (ranked text).map fun s => (s, weight text s) := by
  rw [ranked, List.map_map]
  refine (List.map_id _).symm.trans (List.map_congr_left fun p hp => ?_)
  exact Prod.ext rfl (mem_ranking.1 hp).1

/-- The candidates are the languages for which something counts. -/
theorem mem_ranked : s ∈ ranked text ↔ 0 < weight text s := by
  constructor
  · intro hs
    obtain ⟨p, hp, rfl⟩ := List.mem_map.1 hs
    exact (mem_ranking.1 hp).2
  · intro hs
    exact List.mem_map.2 ⟨(s, weight text s), mem_ranking.2 ⟨rfl, hs⟩, rfl⟩

/-- The candidates stand in their order. -/
theorem pairwise_ranked (text : String) : (ranked text).Pairwise (Outranks text) := by
  have hplace := pairwise_tallies text
  have hnodup : (tallies text).Nodup := by
    refine hplace.imp ?_
    rintro p _ hlt rfl
    exact Nat.lt_irrefl _ hlt
  have hstable := Order.pairwise_mergeSort_of_pairwise (fun a b => decide (b.2 ≤ a.2))
    (fun a b c hab hbc => by simp only [decide_eq_true_eq] at *; omega)
    (fun a b => by simp only [Bool.or_eq_true, decide_eq_true_eq]; omega) hnodup hplace
  have hweights : ∀ p ∈ ranking text, p.2 = weight text p.1 := fun p hp => (mem_ranking.1 hp).1
  refine List.pairwise_map.2 (List.Pairwise.imp_of_mem (fun {p q} hp hq h => ?_) hstable)
  obtain ⟨hle, hplace⟩ := h
  simp only [decide_eq_true_eq, hweights p hp, hweights q hq] at hle hplace
  unfold Outranks
  omega

theorem nodup_tags_ranked (text : String) : ((ranked text).map Script.tag).Nodup := by
  refine List.Nodup.map (fun s t => Script.tag_injective) ((pairwise_ranked text).imp ?_)
  rintro s _ hranks rfl
  exact hranks.asymm hranks

/-- What a look for blank texts would hide is not there. -/
theorem detect_eq (text : String) :
    detect text = (ranked text).map fun s => ⟨s.tag, .ofQuotient (weight text s) (total text)⟩ := by
  rw [detect]
  split
  · next hblank =>
    have hweight := (forall_weight_eq_zero_iff text).2 (isKnown_of_isBlank hblank)
    have hnone : ranked text = [] :=
      List.eq_nil_iff_forall_not_mem.2 fun s hs => Nat.ne_of_gt (mem_ranked.1 hs) (hweight s)
    rw [hnone]
    rfl
  · rw [ranking_eq, List.map_map]
    rfl

theorem detectTags_eq (text : String) : detectTags text = (ranked text).map Script.tag := by
  rw [detectTags, detect_eq, List.map_map]
  rfl

/-- **The candidates for a text.** The number of characters that count for a script is `n`: kana draw the Han characters
to Japanese. The candidates are the languages of the scripts for which `n` is not zero, once each, by decreasing `n`
and then in the order of the scripts, each with its share of the sum. The sum is the number of characters that lie in
some script, as none lies in two; if there are none, and only then, there are no candidates. -/
theorem detect_ranks_scripts (text : String) :
    let count (s : Script) : Nat := text.toList.countP s.holds
    let n : Script → Nat
      | .kana => if count .kana = 0 then 0 else count .kana + count .han
      | .han => if count .kana = 0 then count .han else 0
      | s => count s
    let sum := (Script.all.map n).sum
    ∃ scripts : List Script, detect text = (scripts.map fun s => ⟨s.tag, .ofQuotient (n s) sum⟩) ∧
      (∀ s, s ∈ scripts ↔ 0 < n s) ∧ (scripts.map Script.tag).Nodup ∧
      (scripts.Pairwise fun s t => n t < n s ∨ n t = n s ∧ s.place < t.place) ∧
      sum = text.toList.countP Script.isKnown ∧
      (∀ c (s t : Script), s.holds c = true → t.holds c = true → s = t) ∧
      (detect text = [] ↔ ∀ c ∈ text.toList, Script.isKnown c = false) := by
  intro count n sum
  have hn : weight text = n := funext fun s => by cases s <;> rfl
  clear_value n
  subst hn
  have hsum : total text = sum := total_eq text
  refine ⟨ranked text, hsum ▸ detect_eq text, fun s => mem_ranked, nodup_tags_ranked text, pairwise_ranked text,
    sum_weight text, fun c s t => Script.eq_of_holds, ?_⟩
  rw [← forall_weight_eq_zero_iff, detect_eq, List.map_eq_nil_iff, List.eq_nil_iff_forall_not_mem]
  simp only [mem_ranked, Nat.pos_iff_ne_zero, Ne, not_not]

/-- The first candidate goes before all others. -/
theorem head?_detectTags : (detectTags text).head? = some s.tag ↔ Leads text s := by
  have hpairwise := pairwise_ranked text
  have hmem : ∀ t, t ∈ ranked text ↔ 0 < weight text t := fun t => mem_ranked
  rw [detectTags_eq, List.head?_map]
  generalize ranked text = scripts at hpairwise hmem
  cases scripts with
  | nil => simp [Leads, ← hmem]
  | cons s' rest =>
    obtain ⟨hfirst, -⟩ := List.pairwise_cons.1 hpairwise
    simp only [List.head?_cons, Option.map_some, Option.some.injEq]
    constructor
    · intro htag
      obtain rfl := Script.tag_injective htag
      refine ⟨(hmem s').1 List.mem_cons_self, fun t ht => ?_⟩
      by_cases hweight : 0 < weight text t
      · exact hfirst t ((List.mem_cons.1 ((hmem t).2 hweight)).resolve_left ht)
      · exact .inl (by have := (hmem s').1 List.mem_cons_self; omega)
    · rintro ⟨hpos, hothers⟩
      by_contra htag
      have hne : s' ≠ s := fun h => htag (congrArg Script.tag h)
      have hrest := (List.mem_cons.1 ((hmem s).2 hpos)).resolve_left hne.symm
      exact (hfirst s hrest).asymm (hothers s' hne)

end LanguageUsage.Language
