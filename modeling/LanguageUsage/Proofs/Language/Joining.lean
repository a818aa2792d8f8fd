import LanguageUsage.Proofs.Language.Ranking

/-!
# Texts that are joined

Characters of scripts are counted alike in a text and in its parts, but what they count for is not the same: kana in one
part draw the Han characters of the other. Still, parts with the same first candidate have it together. For what goes
before both Japanese and Chinese in each part has more characters there than kana and Han have together.

* `scriptCount_join`: the counts of the parts add up;
* `weight_join_le`, `le_weight_join`, `Leads.weight_kana_lt`: what the weights do;
* `Leads.join`: what leads in both parts leads in the whole;
* `head?_detectTags_join`: the first candidate of the parts is that of the whole.
-/

namespace LanguageUsage.Language

variable {text a b separator : String} {s : Script}

theorem scriptCount_join (hseparator : ∀ c ∈ separator.toList, Script.isKnown c = false) (s : Script) :
    scriptCount (a ++ separator ++ b) s = scriptCount a s + scriptCount b s := by
  have hnone : separator.toList.countP s.holds = 0 := by
    rw [List.countP_eq_zero]
    intro c hc
    rw [Bool.not_eq_true]
    exact Script.isKnown_eq_false_iff.1 (hseparator c hc) s
  simp only [scriptCount, String.toList_append, List.countP_append, hnone, Nat.add_zero]

section Parts

variable (hjoin : ∀ s, scriptCount text s = scriptCount a s + scriptCount b s)

include hjoin

/-- Only Japanese gains by joining. -/
theorem weight_join_le (hs : s ≠ .kana) : weight text s ≤ weight a s + weight b s := by
  by_cases hhan : s = .han
  · subst hhan
    have hweighta := weight_kana_han a
    have hweightb := weight_kana_han b
    have hweight := weight_kana_han text
    rw [hjoin, hjoin] at hweight
    omega
  · rw [weight_of_ne hs hhan, weight_of_ne hs hhan, weight_of_ne hs hhan, hjoin]

/-- What counts for something in both parts loses nothing. -/
theorem le_weight_join (ha : 0 < weight a s) (hb : 0 < weight b s) : weight a s + weight b s ≤ weight text s := by
  by_cases hs : s = .kana ∨ s = .han
  · have hweighta := weight_kana_han a
    have hweightb := weight_kana_han b
    have hweight := weight_kana_han text
    rw [hjoin, hjoin] at hweight
    rcases hs with rfl | rfl <;> omega
  · obtain ⟨hkana, hhan⟩ := not_or.1 hs
    rw [weight_of_ne hkana hhan, weight_of_ne hkana hhan, weight_of_ne hkana hhan, hjoin]

/-- Japanese does not gain enough to come first. -/
theorem Leads.weight_kana_lt (ha : Leads a s) (hb : Leads b s) (hs : s ≠ .kana) : weight text .kana < weight text s := by
  have hsum := le_weight_join hjoin ha.1 hb.1
  have hposa := ha.1
  have hweighta := weight_kana_han a
  have hweightb := weight_kana_han b
  have hweight := weight_kana_han text
  rw [hjoin, hjoin] at hweight
  by_cases hhan : s = .han
  · -- no kana are there
    subst hhan
    have hposb := hb.1
    omega
  · have hplace := Script.two_le_place hs hhan
    have hkanaa := ha.2 .kana (Ne.symm hs)
    have hkanab := hb.2 .kana (Ne.symm hs)
    have hhana := ha.2 .han (Ne.symm hhan)
    have hhanb := hb.2 .han (Ne.symm hhan)
    simp only [Outranks, Script.place_kana, Script.place_han] at hkanaa hkanab hhana hhanb
    omega

/-- What leads in both parts leads in the whole. -/
theorem Leads.join (ha : Leads a s) (hb : Leads b s) : Leads text s := by
  have hsum := le_weight_join hjoin ha.1 hb.1
  have hpos := ha.1
  refine ⟨by omega, fun t hts => ?_⟩
  by_cases ht : t = .kana
  · subst ht
    exact .inl (ha.weight_kana_lt hjoin hb (Ne.symm hts))
  · have hle := weight_join_le hjoin ht
    have hta := ha.2 t hts
    have htb := hb.2 t hts
    unfold Outranks at *
    omega

end Parts

/-- **Agreement survives joining.** If two texts have the same first candidate, so has a text that begins with the one and
ends with the other, with anything between them that has no character of a script. -/
theorem head?_detectTags_join {tag : String} (hseparator : ∀ c ∈ separator.toList, Script.isKnown c = false)
    (ha : (detectTags a).head? = some tag) (hb : (detectTags b).head? = some tag) :
    (detectTags (a ++ separator ++ b)).head? = some tag := by
  obtain ⟨s, -, rfl⟩ : ∃ s ∈ ranked a, s.tag = tag := by
    rw [detectTags_eq] at ha
    exact List.mem_map.1 (List.mem_of_head? ha)
  rw [head?_detectTags] at ha hb ⊢
  exact ha.join (scriptCount_join hseparator) hb

/-- The Han characters of the first text count for Japanese with the kana of the second. -/
theorem head?_detectTags_join_of_kana :
    (detectTags "слово漢字").head? = some "ru" ∧ (detectTags "かな слово").head? = some "ru" ∧
      (detectTags ("слово漢字" ++ " – " ++ "かな слово")).head? = some "ru" := by
  have hfirst : (detectTags "слово漢字").head? = some (Script.tag .cyrillic) :=
    head?_detectTags.2 ⟨by decide +kernel, fun t ht => by cases t <;> first | contradiction | decide +kernel⟩
  have hsecond : (detectTags "かな слово").head? = some (Script.tag .cyrillic) :=
    head?_detectTags.2 ⟨by decide +kernel, fun t ht => by cases t <;> first | contradiction | decide +kernel⟩
  have hall : (" – ".toList.all fun c => !Script.isKnown c) = true := by decide +kernel
  have hseparator : ∀ c ∈ " – ".toList, Script.isKnown c = false := fun c hc => by
    simpa using List.all_eq_true.1 hall c hc
  exact ⟨hfirst, hsecond, head?_detectTags_join hseparator hfirst hsecond⟩

end LanguageUsage.Language
