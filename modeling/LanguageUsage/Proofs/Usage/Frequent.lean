import LanguageUsage.Proofs.Number.Monotone
import LanguageUsage.Proofs.Usage.Profile

/-!
# Frequent languages

The languages whose share is large enough are those at the front of the profile. Shares are rounded quotients and the
rows are sorted by whole numbers, but rounding keeps their order: no share that is large enough comes after one that is
not.

* `filter_eq_takeWhile`: what holds of the members at the front only;
* `Usage.Decreasing`, `Usage.decreasing_ranked`: the shares of a profile decrease, or stay the same;
* `Usage.Decreasing.frequent`, `Usage.Decreasing.frequent_prefix`, `Usage.frequent_zero`: where the profile is cut off;
* `Store.frequent_cuts_profile`: the frequent languages of a store.
-/

namespace LanguageUsage

theorem filter_eq_takeWhile {α : Type} {p : α → Bool} {l : List α} (h : l.Pairwise fun a b => p b = true → p a = true) :
    l.filter p = l.takeWhile p := by
  induction l with
  | nil => rfl
  | cons a l ih =>
    obtain ⟨hfirst, hrest⟩ := List.pairwise_cons.1 h
    by_cases ha : p a = true
    · rw [List.filter_cons_of_pos ha, List.takeWhile_cons_of_pos ha, ih hrest]
    · have hnone : l.filter p = [] := List.filter_eq_nil_iff.2 fun b hb hpb => ha (hfirst b hb hpb)
      rw [List.filter_cons_of_neg ha, List.takeWhile_cons_of_neg ha, hnone]

namespace Usage

variable {rows : List Row} {us : List Usage} {x y : Number}

/-- The shares decrease from the first entry to the last, or stay the same. -/
def Decreasing (us : List Usage) : Prop := us.Pairwise fun u v => (Number.real v.share).le (.real u.share) = true

/-- **Shares decrease with the counts**, however they are rounded. -/
theorem decreasing_ranked (h : ∀ r ∈ rows, r.IsWhole) (hnonneg : ∀ r ∈ rows, 0 ≤ r.amount) :
    Decreasing ((ranked rows).map (entryOf (total rows))) := by
  obtain ⟨sum, hsum⟩ := Int.eq_ofNat_of_zero_le (total_nonneg hnonneg)
  refine List.pairwise_map.2 ((pairwise_amount_ranked h).imp_of_mem fun {a b} ha hb hle => ?_)
  obtain ⟨m, hm⟩ := Int.eq_ofNat_of_zero_le (hnonneg a ((mem_ranked h).1 ha))
  obtain ⟨n, hn⟩ := Int.eq_ofNat_of_zero_le (hnonneg b ((mem_ranked h).1 hb))
  simp only [entryOf, hm, hn, hsum] at hle ⊢
  exact Number.le_ofQuotient (Int.ofNat_le.1 hle) sum

theorem zero_le_share (h : ∀ r ∈ rows, r.IsWhole) (hnonneg : ∀ r ∈ rows, 0 ≤ r.amount) :
    ∀ u ∈ (ranked rows).map (entryOf (total rows)), (Number.whole 0).le (.real u.share) = true := by
  obtain ⟨sum, hsum⟩ := Int.eq_ofNat_of_zero_le (total_nonneg hnonneg)
  intro u hu
  obtain ⟨r, hr, rfl⟩ := List.mem_map.1 hu
  obtain ⟨n, hn⟩ := Int.eq_ofNat_of_zero_le (hnonneg r ((mem_ranked h).1 hr))
  simp only [entryOf, hn, hsum]
  exact Number.zero_le_ofQuotient n sum

/-- There is a profile, and its shares decrease and are not negative. -/
theorem exists_decreasing (h : ∀ r ∈ rows, r.IsWhole) (hnonneg : ∀ r ∈ rows, 0 ≤ r.amount) :
    ∃ us, ofRows rows = .ok us ∧ Decreasing us ∧ ∀ u ∈ us, (Number.whole 0).le (.real u.share) = true := by
  refine ⟨_, ofRows_eq h, ?_⟩
  split
  · exact ⟨List.Pairwise.nil, List.forall_mem_nil _⟩
  · exact ⟨decreasing_ranked h hnonneg, zero_le_share h hnonneg⟩

/-! ### Cutting off -/

theorem Decreasing.pairwise (h : Decreasing us) (x : Number) :
    us.Pairwise fun u v => x.le (.real v.share) = true → x.le (.real u.share) = true :=
  h.imp fun hle hx => Number.le_trans hx hle

/-- The profile is cut off at the first share that is too small. -/
theorem Decreasing.frequent (h : Decreasing us) (x : Number) :
    frequent x us = (us.takeWhile fun u => x.le (.real u.share)).map (·.tag) := by
  rw [Usage.frequent, filter_eq_takeWhile (h.pairwise x)]

/-- A larger share cuts off no less. -/
theorem Decreasing.frequent_prefix (h : Decreasing us) (hxy : x.le y = true) :
    Usage.frequent y us <+: Usage.frequent x us := by
  have hboth : us.filter (fun u => y.le (.real u.share)) =
      (us.filter fun u => x.le (.real u.share)).filter fun u => y.le (.real u.share) := by
    rw [List.filter_filter]
    refine List.filter_congr fun u _ => ?_
    by_cases hu : y.le (.real u.share) = true
    · rw [hu, Number.le_trans hxy hu, Bool.and_self]
    · rw [Bool.not_eq_true] at hu
      rw [hu, Bool.false_and]
  rw [Usage.frequent, Usage.frequent, hboth, filter_eq_takeWhile ((h.pairwise y).filter _)]
  exact (List.takeWhile_prefix _).map _

/-- Every share is large enough for zero. -/
theorem frequent_zero (h : ∀ u ∈ us, (Number.whole 0).le (.real u.share) = true) (hx : x.isZero = true) :
    Usage.frequent x us = us.map (·.tag) := by
  have hall : ∀ u ∈ us, x.le (.real u.share) = true := fun u hu =>
    Number.le_trans (Number.le_zero_of_isZero hx) (h u hu)
  rw [Usage.frequent, List.filter_eq_self.2 hall]

end Usage

/-- A number from zero to one is taken as a least share. -/
theorem checkMinShare_eq {v : Value} {x : Number} (hv : v.number? = some x) (hzero : (Number.whole 0).le x = true)
    (hone : x.le (.whole 1) = true) : checkMinShare v = .ok x := by
  simp only [checkMinShare, hv, hzero, hone]
  rfl

namespace Store

variable {s : Store} {kind : GivenKind} {rows : List Row} {us : List Usage}

theorem usage_eq (hrows : s.byKind kind = .ok rows) : s.usage kind = Usage.ofRows rows := by
  rw [usage, hrows]
  rfl

theorem frequent_eq (husage : s.usage kind = .ok us) {v : Value} {x : Number} (hshare : checkMinShare v = .ok x) :
    s.frequent kind v = .ok (Usage.frequent x us) := by
  rw [frequent, hshare, husage]
  rfl

/-- **The frequent languages stand at the front of the profile.** The counts of a kind in a store are whole numbers, of
any size, and not negative. Then there is a profile, and for every least share from zero to one the frequent languages
are those of the entries in front of the first share that is less. For a larger least share they are some of the first
of these, and for zero they are all of the profile. -/
theorem frequent_cuts_profile (hrows : s.byKind kind = .ok rows) (hcounts : ∀ r ∈ rows, ∃ n : Nat, r.count = .whole n) :
    ∃ us, s.usage kind = .ok us ∧ ∀ v x, v.number? = some x → (Number.whole 0).le x = true → x.le (.whole 1) = true →
      ∃ ts, s.frequent kind v = .ok ts ∧ ts = (us.takeWhile fun u => x.le (.real u.share)).map (·.tag) ∧
        ts <+: us.map (·.tag) ∧ (x.isZero = true → ts = us.map (·.tag)) ∧
        ∀ w y, w.number? = some y → x.le y = true → y.le (.whole 1) = true →
          ∃ ts', s.frequent kind w = .ok ts' ∧ ts' <+: ts := by
  have hwhole : ∀ r ∈ rows, r.IsWhole ∧ 0 ≤ r.amount := by
    intro r hr
    obtain ⟨n, hn⟩ := hcounts r hr
    obtain ⟨hwhole, hamount⟩ := Row.isWhole_of_count hn
    exact ⟨hwhole, by omega⟩
  obtain ⟨us, hus, hdecreasing, hzero⟩ :=
    Usage.exists_decreasing (fun r hr => (hwhole r hr).1) fun r hr => (hwhole r hr).2
  have husage := (usage_eq hrows).trans hus
  refine ⟨us, husage, fun v x hv hlow hhigh => ⟨_, frequent_eq husage (checkMinShare_eq hv hlow hhigh),
    hdecreasing.frequent x, ?_, Usage.frequent_zero hzero, fun w y hw hxy hyhigh => ?_⟩⟩
  · rw [hdecreasing.frequent x]
    exact (List.takeWhile_prefix _).map _
  · exact ⟨_, frequent_eq husage (checkMinShare_eq hw (Number.le_trans hlow hxy) hyhigh), hdecreasing.frequent_prefix hxy⟩

/-- Two counts of three beside one that is so large that their shares are rounded to zero. -/
theorem frequent_cuts_profile_of_vanishing_shares :
    let s : Store := .memory { counters := [(("en", .classifyText), .whole 3), (("de", .conversationActions), .whole 1),
      (("fr", .classifyText), .whole (10 ^ 400)), (("ja", .classifyText), .whole 3)] }
    let rows : List Row := [⟨"en", .classifyText, .whole 3⟩, ⟨"fr", .classifyText, .whole (10 ^ 400)⟩,
      ⟨"ja", .classifyText, .whole 3⟩]
    s.byKind (.kind .classifyText) = .ok rows ∧ (∀ r ∈ rows, ∃ n : Nat, r.count = .whole n) ∧
      s.frequent (.kind .classifyText) (.real (.signed true .zero)) = .ok ["fr", "en", "ja"] ∧
      s.frequent (.kind .classifyText) defaultMinShare = .ok ["fr"] := by
  intro s rows
  have hrows : s.byKind (.kind .classifyText) = .ok rows := by decide +kernel
  have hcounts : ∀ r ∈ rows, ∃ n : Nat, r.count = .whole n :=
    List.forall_mem_cons.2 ⟨⟨3, by rfl⟩, List.forall_mem_cons.2 ⟨⟨10 ^ 400, by decide +kernel⟩,
      List.forall_mem_singleton.2 ⟨3, by rfl⟩⟩⟩
  obtain ⟨us, husage, hcut⟩ := frequent_cuts_profile hrows hcounts
  obtain ⟨ts, hts, -, -, hzero, -⟩ := hcut (.real (.signed true .zero)) _ rfl (by decide +kernel) (by decide +kernel)
  obtain ⟨ts', hts', hcutoff, -⟩ := hcut defaultMinShare _ rfl (by decide +kernel) (by decide +kernel)
  -- the profile starts with the large count
  have hsorted : ∀ n : Int, 3 < n → [⟨"en", .classifyText, .whole 3⟩, ⟨"fr", .classifyText, .whole n⟩,
      ⟨"ja", .classifyText, .whole 3⟩].mergeSort Usage.before = [⟨"fr", .classifyText, .whole n⟩,
        ⟨"en", .classifyText, .whole 3⟩, ⟨"ja", .classifyText, .whole 3⟩] := by
    intro n hn
    simp [List.mergeSort, List.MergeSort.Internal.splitInTwo, Usage.before, Row.amount, Int.not_le.2 hn,
      Int.le_of_lt hn]
  have hwhole : ∀ r ∈ rows, r.IsWhole := fun r hr => (Row.isWhole_of_count (hcounts r hr).choose_spec).1
  have hprofile := Usage.ofRows_of_pos hwhole (by decide +kernel)
  rw [← usage_eq hrows, husage, Usage.ranked_eq_mergeSort hwhole, hsorted _ (by decide +kernel)] at hprofile
  obtain rfl := Except.ok.inj hprofile
  rw [hzero (by decide +kernel)] at hts
  rw [hcutoff] at hts'
  exact ⟨hrows, hcounts, hts, hts'.trans (congrArg Except.ok (by decide +kernel))⟩

end Store

end LanguageUsage
