import LanguageUsage.Language.Detection
import Mathlib.Tactic.Common

/-!
# What the characters of a text count for

No character lies in two scripts, and none that does in one is blank. So the weights of a text add up to the number of
its characters that lie in some script, whichever way the Han characters go.

* `Text.Block.Apart`: blocks without a common character;
* `Script.isKnown`, `Script.eq_of_holds`: the characters of scripts, each of which lies in one;
* `weight_kana_han`, `weight_of_ne`: the weights by the counts of the scripts;
* `sum_weight`, `total_eq`: the sum of the weights;
* `forall_weight_eq_zero_iff`, `isKnown_of_isBlank`: the texts in which nothing counts.
-/

namespace LanguageUsage

/-! ### Blocks -/

namespace Text.Block

variable {b b' : Block} {bs bs' : List Block} {c : Char}

/-- The blocks have no character in common. -/
def Apart (b b' : Block) : Prop := b.last < b'.first ∨ b'.last < b.first

instance (b b' : Block) : Decidable (b.Apart b') := inferInstanceAs (Decidable (_ ∨ _))

theorem Apart.not_holds (h : b.Apart b') (hb : b.Holds c) : ¬ b'.Holds c := by
  unfold Apart at h
  unfold Holds at hb ⊢
  omega

theorem anyHolds_of_apart (h : ∀ b ∈ bs, ∀ b' ∈ bs', b.Apart b') (hc : anyHolds bs c = true) :
    anyHolds bs' c = false := by
  obtain ⟨b, hb, hholds⟩ := anyHolds_eq_true_iff.1 hc
  rw [← Bool.not_eq_true, anyHolds_eq_true_iff]
  rintro ⟨b', hb', hholds'⟩
  exact (h b hb b' hb').not_holds hholds hholds'

end Text.Block

/-! ### Scripts -/

namespace Script

variable {s t : Script} {c : Char}

/-- The character lies in some script. -/
def isKnown (c : Char) : Bool := all.any fun s => s.holds c

theorem isKnown_eq_false_iff : isKnown c = false ↔ ∀ s : Script, s.holds c = false := by
  simp [isKnown, mem_all]

theorem apart_blocks : ∀ s ∈ all, ∀ t ∈ all, s ≠ t → ∀ b ∈ s.blocks, ∀ b' ∈ t.blocks, b.Apart b' := by decide

theorem apart_blankBlocks : ∀ s ∈ all, ∀ b ∈ s.blocks, ∀ b' ∈ Text.blankBlocks, b.Apart b' := by decide

/-- **No character lies in two scripts.** -/
theorem eq_of_holds (hs : s.holds c = true) (ht : t.holds c = true) : s = t := by
  by_contra hne
  have hapart := Text.Block.anyHolds_of_apart (apart_blocks s (mem_all s) t (mem_all t) hne) hs
  rw [holds, hapart] at ht
  cases ht

/-- No character of a script is blank. -/
theorem isBlankChar_eq_false (hs : s.holds c = true) : Text.isBlankChar c = false :=
  Text.Block.anyHolds_of_apart (apart_blankBlocks s (mem_all s)) hs

/-- Where the script stands in the order that settles ties. -/
def place (s : Script) : Nat := all.idxOf s

theorem pairwise_place : all.Pairwise fun s t => s.place < t.place := by decide

theorem place_kana : place .kana = 0 := by decide

theorem place_han : place .han = 1 := by decide

theorem two_le_place (hkana : s ≠ .kana) (hhan : s ≠ .han) : 2 ≤ s.place := by
  cases s <;> first | contradiction | decide

end Script

/-! ### Sums -/

/-- What is of one kind or of the other, and never of both, is counted kind by kind. -/
theorem countP_or_of_disjoint {α : Type} {p q : α → Bool} (h : ∀ a, p a = true → q a = false) (as : List α) :
    (as.countP fun a => p a || q a) = as.countP p + as.countP q := by
  induction as with
  | nil => rfl
  | cons a as ih =>
    simp only [List.countP_cons, ih]
    cases hp : p a with
    | true =>
      rw [h a hp]
      simp only [Bool.true_or, if_true, Bool.false_eq_true, if_false]
      omega
    | false => simp only [Bool.false_or, Bool.false_eq_true, if_false, Nat.add_zero, Nat.add_assoc]

/-- A character counts once among different scripts. -/
theorem sum_countP_holds (cs : List Char) {scripts : List Script} (h : scripts.Nodup) :
    (scripts.map fun s => cs.countP s.holds).sum = cs.countP fun c => scripts.any fun s => s.holds c := by
  induction scripts with
  | nil => simp
  | cons s scripts ih =>
    obtain ⟨hs, h⟩ := List.nodup_cons.1 h
    have hdisjoint : ∀ c, s.holds c = true → (scripts.any fun t => t.holds c) = false := by
      intro c hc
      rw [List.any_eq_false]
      intro t ht hc'
      exact hs (Script.eq_of_holds hc hc' ▸ ht)
    rw [List.map_cons, List.sum_cons, ih h, ← countP_or_of_disjoint hdisjoint]
    rfl

namespace Language

variable {text : String} {s : Script}

/-- Without kana the Han characters count by themselves, otherwise with the kana. -/
theorem weight_kana_han (text : String) :
    scriptCount text .kana = 0 ∧ weight text .kana = 0 ∧ weight text .han = scriptCount text .han ∨
      0 < scriptCount text .kana ∧ weight text .kana = scriptCount text .kana + scriptCount text .han ∧
        weight text .han = 0 := by
  simp only [weight]
  split <;> omega

theorem weight_of_ne (hkana : s ≠ .kana) (hhan : s ≠ .han) : weight text s = scriptCount text s := by
  cases s <;> first | rfl | contradiction

/-- **Every character of a script counts for one language.** -/
theorem sum_weight (text : String) :
    (Script.all.map (weight text)).sum = text.toList.countP Script.isKnown := by
  have hnodup : Script.all.Nodup := by decide
  have hcounts := sum_countP_holds text.toList hnodup
  have hshared := weight_kana_han text
  have hsame : (Script.all.map (weight text)).sum = (Script.all.map (scriptCount text)).sum := by
    have hothers : (Script.all.drop 2).map (weight text) = (Script.all.drop 2).map (scriptCount text) := rfl
    have hweights : (Script.all.map (weight text)).sum =
        weight text .kana + (weight text .han + ((Script.all.drop 2).map (weight text)).sum) := rfl
    have hscripts : (Script.all.map (scriptCount text)).sum =
        scriptCount text .kana + (scriptCount text .han + ((Script.all.drop 2).map (scriptCount text)).sum) := rfl
    rw [hweights, hscripts, hothers]
    omega
  exact hsame.trans hcounts

theorem sum_filter_ne_zero (ts : List (Script × Nat)) :
    ((ts.filter fun t => t.2 != 0).map (·.2)).sum = (ts.map (·.2)).sum := by
  induction ts with
  | nil => rfl
  | cons t ts ih =>
    by_cases ht : t.2 = 0
    · simp [ht, ih]
    · simp [ht, ih]

theorem total_eq (text : String) : total text = (Script.all.map (weight text)).sum := by
  rw [total, tallies, sum_filter_ne_zero, List.map_map]
  rfl

/-- Nothing counts for any language if no character lies in a script. -/
theorem forall_weight_eq_zero_iff (text : String) :
    (∀ s, weight text s = 0) ↔ ∀ c ∈ text.toList, Script.isKnown c = false := by
  have hsum : (∀ s, weight text s = 0) ↔ (Script.all.map (weight text)).sum = 0 := by
    rw [List.sum_eq_zero_iff_forall_eq_nat, List.forall_mem_map]
    exact ⟨fun h s _ => h s, fun h s => h s (Script.mem_all s)⟩
  rw [hsum, sum_weight, List.countP_eq_zero]
  simp only [Bool.not_eq_true]

/-- A blank text has no character of a script. -/
theorem isKnown_of_isBlank (h : Text.isBlank text = true) : ∀ c ∈ text.toList, Script.isKnown c = false := by
  intro c hc
  rw [Script.isKnown_eq_false_iff]
  intro s
  rw [← Bool.not_eq_true]
  intro hs
  rw [Text.isBlank, List.all_eq_true] at h
  exact Bool.false_ne_true ((Script.isBlankChar_eq_false hs).symm.trans (h c hc))

end Language

end LanguageUsage
