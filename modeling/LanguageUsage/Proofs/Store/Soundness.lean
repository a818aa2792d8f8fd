import LanguageUsage.Proofs.Number.Positive
import LanguageUsage.Proofs.Store.Log
import LanguageUsage.Proofs.Store.Refusal

/-!
# Rows that stay sound

A row is sound if its tag is not blank and its count is one or more; its kind is a kind proper by its type. The check of
a request keeps blank tags out, and every amount that makes a count less than one. It lets not-a-number pass, and the
count of the key is not-a-number from then on.

* `Row.Sound`;
* `Increment.isPositive_iff`: the amount of a checked request is one or more, or it is not-a-number;
* `MemoryStore.sound_upsert`, `MemoryStore.sound_additions`: rows stay sound if other amounts are added, once or any
  number of times;
* `MemoryStore.rows_sound_iff`: and only if not-a-number is counted they do not.
-/

namespace LanguageUsage

/-- The tag of the row is not blank, and its count is one or more. -/
structure Row.Sound (r : Row) : Prop where
  tag : Text.isBlank r.tag = false
  count : Number.le (.whole 1) r.count = true

instance (r : Row) : Decidable r.Sound :=
  decidable_of_iff (Text.isBlank r.tag = false ∧ Number.le (.whole 1) r.count = true)
    ⟨fun h => ⟨h.1, h.2⟩, fun h => ⟨h.tag, h.count⟩⟩

namespace Counters

variable {κ : Type} [DecidableEq κ] {cs : Counters κ} {key : κ} {c : κ × Number} {n : Number}

theorem mem_put_self (cs : Counters κ) (key : κ) (n : Number) : (key, n) ∈ cs.put key n := by
  induction cs with
  | nil => exact List.mem_singleton_self _
  | cons c cs ih =>
    rw [put]
    split
    · exact List.mem_cons_self
    · exact List.mem_cons_of_mem _ ih

theorem mem_of_mem_put (h : c ∈ cs.put key n) : c = (key, n) ∨ c ∈ cs := by
  induction cs with
  | nil => exact Or.inl (List.mem_singleton.1 h)
  | cons c' cs ih =>
    rw [put] at h
    split at h
    · exact (List.mem_cons.1 h).imp_right (List.mem_cons_of_mem _)
    · rcases List.mem_cons.1 h with rfl | h
      · exact Or.inr List.mem_cons_self
      · exact (ih h).imp_right (List.mem_cons_of_mem _)

theorem mem_of_get?_eq_some (h : cs.get? key = some n) : (key, n) ∈ cs := by
  obtain ⟨⟨key', n'⟩, hfind, rfl⟩ := Option.map_eq_some_iff.1 h
  obtain rfl : key' = key := by simpa using List.find?_some hfind
  exact List.mem_of_find?_eq_some hfind

end Counters

/-- The value of a double is this double. -/
theorem Value.number?_eq_real_iff {v : Value} {x : Binary64} : v.number? = some (.real x) ↔ v = .real x := by
  cases v <;> simp [number?, Value.real]

/-- The amount of a checked request is one or more, or it is not-a-number. -/
theorem Increment.isPositive_iff (i : Increment) : i.delta.IsPositive ↔ i.delta ≠ .real .nan :=
  Number.isPositive_iff.trans (and_iff_right i.delta_not_below_one)

theorem Increment.isPositive_of_number? {i : Increment} {delta : Value} (hdelta : delta.number? = some i.delta)
    (h : delta ≠ .real .nan) : i.delta.IsPositive := by
  rw [i.isPositive_iff]
  intro hnan
  exact h (Value.number?_eq_real_iff.1 (hnan ▸ hdelta))

namespace MemoryStore

variable {s : MemoryStore} {tag delta : Value} {kind : GivenKind}

theorem mem_rows {r : Row} : r ∈ s.rows ↔ (r.key, r.count) ∈ s.counters := by
  simp only [rows, List.mem_map, Row.key]
  constructor
  · rintro ⟨c, hc, rfl⟩
    exact hc
  · intro h
    exact ⟨_, h, rfl⟩

/-- What is counted so far is zero or the count of a sound row. -/
theorem isNonneg_getD (hs : ∀ r ∈ s.rows, r.Sound) (key : String × SignalKind) :
    ((s.counters.get? key).getD (.whole 0)).IsNonneg := by
  cases hcount : s.counters.get? key with
  | none => exact Int.le_refl 0
  | some n =>
    have hrow : (⟨key.1, key.2, n⟩ : Row) ∈ s.rows := mem_rows.2 (Counters.mem_of_get?_eq_some hcount)
    exact Number.IsPositive.isNonneg (hs _ hrow).count

/-- A sum of one or more is written to a sound row. -/
theorem sound_put {i : Increment} {n : Number} (hs : ∀ r ∈ s.rows, r.Sound) (hn : n.IsPositive) :
    ∀ r ∈ rows { s with counters := s.counters.put i.key n }, r.Sound := by
  intro r hr
  rcases Counters.mem_of_mem_put (mem_rows.1 hr) with hnew | hold
  · obtain ⟨hkey, hcount⟩ := Prod.mk.inj hnew
    have htag : r.tag = i.tag := congrArg Prod.fst hkey
    exact ⟨htag ▸ i.tag_not_blank, hcount ▸ hn⟩
  · exact hs r (mem_rows.2 hold)

/-- Rows stay sound when anything but not-a-number is to be added. -/
theorem sound_upsert (hs : ∀ r ∈ s.rows, r.Sound) (tag : Value) (kind : GivenKind) (h : delta ≠ .real .nan) :
    ∀ r ∈ (s.upsert tag kind delta).1.rows, r.Sound := by
  rcases upsert_cases s tag kind delta with ⟨f, -, hrefused⟩ | ⟨i, n, -, hgiven, hsum, hcounted⟩
  · rw [hrefused]
    exact hs
  · rw [hcounted]
    have hdelta := Increment.isPositive_of_number? (Increment.number?_of_ofGiven hgiven) h
    exact sound_put hs (hdelta.add? (isNonneg_getD hs i.key) hsum)

/-- **Rows stay sound** however often anything but not-a-number is to be added. -/
theorem sound_additions (hs : ∀ r ∈ s.rows, r.Sound) {as : List Addition} (h : ∀ a ∈ as, a.delta ≠ .real .nan) :
    ∃ s', ((Store.memory s).performAll (as.map Addition.operation)).1 = .memory s' ∧ ∀ r ∈ s'.rows, r.Sound := by
  induction as generalizing s with
  | nil => exact ⟨s, rfl, hs⟩
  | cons a as ih =>
    obtain ⟨ha, has⟩ := List.forall_mem_cons.1 h
    exact ih (sound_upsert hs a.tag a.kind ha) has

/-- A request fails for the digits of a count if it is valid otherwise, and its sum cannot be put in the log. This sum
stands in the row of its key then. -/
theorem upsert_eq_unwritable_iff (s : MemoryStore) (tag : Value) (kind : GivenKind) (delta : Value) :
    (s.upsert tag kind delta).2 = .error .unwritable ↔
      ∃ (i : Increment) (n : Number), s.refuses tag = false ∧ Increment.ofGiven tag kind delta = .ok i ∧
        ((s.counters.get? i.key).getD (.whole 0)).add? i.delta = some n ∧ n.isWritable s.digits = false ∧
        (s.upsert tag kind delta).1 = { s with counters := s.counters.put i.key n } := by
  rcases s.upsert_cases tag kind delta with ⟨f, hf, hrefused⟩ | ⟨i, n, htag, hgiven, hsum, hcounted⟩
  · rw [hrefused]
    refine iff_of_false (fun h => hf (Except.error.inj h)) ?_
    rintro ⟨i, n, htag, hgiven, hsum, hdigits, -⟩
    rw [upsert, htag, hgiven] at hrefused
    simp only [apply, hsum, Bool.false_eq_true, if_false] at hrefused
    exact hf (logged_eq_error_iff.1 (Prod.mk.inj hrefused).2).2
  · rw [hcounted]
    constructor
    · intro h
      exact ⟨i, n, htag, hgiven, hsum, (logged_eq_error_iff.1 h).1, rfl⟩
    · rintro ⟨j, m, -, hj, hm, hdigits, -⟩
      obtain rfl := Except.ok.inj (hgiven.symm.trans hj)
      obtain rfl := Option.some.inj (hsum.symm.trans hm)
      exact logged_eq_error_iff.2 ⟨hdigits, rfl⟩

/-- **Sound rows stay sound, unless not-a-number is counted.** The rows of a store in memory are sound, and the store is
asked to add any value to the count of any key. If it refuses, the rows are as before. One fault comes too late for
this: if the sum has too many digits to be put in the log, it stands in the row of its key already, although the request
fails. After the request all rows are sound again, except if the amount is not-a-number and is accepted. -/
theorem rows_sound_iff (hs : ∀ r ∈ s.rows, r.Sound) (tag : Value) (kind : GivenKind) (delta : Value) :
    let after := s.upsert tag kind delta
    (∀ f, after.2 = .error f → f ≠ .unwritable → after.1.rows = s.rows) ∧
      (after.2 = .error .unwritable ↔ ∃ (i : Increment) (n : Number), s.refuses tag = false ∧
        Increment.ofGiven tag kind delta = .ok i ∧ ((s.counters.get? i.key).getD (.whole 0)).add? i.delta = some n ∧
        n.isWritable s.digits = false ∧ after.1 = { s with counters := s.counters.put i.key n }) ∧
      ((∀ r ∈ after.1.rows, r.Sound) ↔ ¬ (after.2.isOk = true ∧ delta = .real .nan)) := by
  intro after
  refine ⟨fun f hf hne => ?_, s.upsert_eq_unwritable_iff tag kind delta, ?_⟩
  · have hsame : Store.memory after.1 = .memory s := Store.upsert_of_refused (s := .memory s) hf hne
    rw [Store.memory.inj hsame]
  · by_cases hnan : delta = .real .nan
    · rcases s.upsert_cases tag kind delta with ⟨f, -, hrefused⟩ | ⟨i, n, -, hgiven, hsum, hcounted⟩
      · simp only [after, hrefused]
        exact iff_of_true hs fun h => Bool.false_ne_true h.1
      · -- the sum is not-a-number, and stands in the row of the key
        have hdelta : i.delta = .real .nan :=
          Option.some.inj ((Increment.number?_of_ofGiven hgiven).symm.trans (Value.number?_eq_real_iff.2 hnan))
        obtain rfl : n = .real .nan := Number.add?_nan (hdelta ▸ hsum)
        simp only [after, hcounted]
        refine iff_of_false (fun hall => ?_) fun h => h ⟨rfl, hnan⟩
        have hrow : (⟨i.tag, i.kind, .real .nan⟩ : Row) ∈
            rows { s with counters := s.counters.put i.key (.real .nan) } := mem_rows.2 (Counters.mem_put_self _ _ _)
        exact Number.not_isPositive_nan (hall _ hrow).count
    · exact iff_of_true (sound_upsert hs tag kind hnan) fun h => hnan h.2

/-- Infinity is added to a count that is a fraction beyond one. -/
theorem rows_sound_after_infinity :
    let s : MemoryStore := { counters := [(("en", .classifyText), .real (.ofBits 0x3FF8000000000000))] }
    let after := s.upsert (.text "en") (.kind .classifyText) (.real (.infinity false))
    (∀ r ∈ s.rows, r.Sound) ∧ after.1.rows = [⟨"en", .classifyText, .real (.infinity false)⟩] ∧
      ∀ r ∈ after.1.rows, r.Sound := by
  intro s after
  have hs : ∀ r ∈ s.rows, r.Sound := by decide +kernel
  refine ⟨hs, by decide +kernel, ?_⟩
  exact (rows_sound_iff hs _ _ _).2.2.2 fun h => absurd h.2 (by decide)

/-- Not-a-number is counted in an empty store. It is returned as the count, and the row is not sound. -/
theorem not_a_number_counted :
    let s : MemoryStore := {}
    let after := s.upsert (.text "en") (.kind .classifyText) (.real .nan)
    (∀ r ∈ s.rows, r.Sound) ∧ after.2 = .ok (Number.real .nan) ∧
      after.1.rows = [⟨"en", .classifyText, .real .nan⟩] ∧ ¬ ∀ r ∈ after.1.rows, r.Sound := by
  decide +kernel

end MemoryStore

end LanguageUsage
