import LanguageUsage.Proofs.Store.Agreement

/-!
# Requests that are refused

* `MemoryStore.upsert_cases`: what becomes of a request to a store in memory;
* `Store.upsert_of_refused`: what is not counted changes nothing;
* `Medium.add_eq_error_iff`: why a whole number is not added to a count;
* `Table.mapM_rowOf_eq_error_iff`: why rows are not read: one of them is of no known kind.
-/

namespace LanguageUsage

/-! ### Counting -/

variable {tag delta : Value} {kind : GivenKind} {f : Fault}

/-- The check has nothing to do with the digits of a number. -/
theorem Increment.ne_unwritable_of_ofGiven (h : Increment.ofGiven tag kind delta = .error f) : f ≠ .unwritable := by
  rintro rfl
  unfold Increment.ofGiven at h
  split at h
  · split at h
    · cases h
    · split at h
      · unfold Increment.ofDelta at h
        split at h
        · cases h
        · split at h <;> cases h
      · cases h
  · cases h

/-- A request is refused and changes nothing, or the sum of the count so far and the amount is written and then put in
the log. -/
theorem MemoryStore.upsert_cases (s : MemoryStore) (tag : Value) (kind : GivenKind) (delta : Value) :
    (∃ f, f ≠ .unwritable ∧ s.upsert tag kind delta = (s, .error f)) ∨
      ∃ (i : Increment) (n : Number), s.refuses tag = false ∧ Increment.ofGiven tag kind delta = .ok i ∧
        ((s.counters.get? i.key).getD (.whole 0)).add? i.delta = some n ∧
        s.upsert tag kind delta = ({ s with counters := s.counters.put i.key n }, s.logged n) := by
  unfold upsert
  split
  · exact .inl ⟨.diskFull, by decide, rfl⟩
  · next htag =>
    cases hgiven : Increment.ofGiven tag kind delta with
    | error f => exact .inl ⟨f, Increment.ne_unwritable_of_ofGiven hgiven, rfl⟩
    | ok i =>
      simp only [apply]
      cases hsum : ((s.counters.get? i.key).getD (.whole 0)).add? i.delta with
      | none => exact .inl ⟨.beyondDoubles, by decide, rfl⟩
      | some n => exact .inr ⟨i, n, Bool.eq_false_iff.2 htag, rfl, hsum, rfl⟩

/-- A request that is refused changes nothing. -/
theorem DatabaseStore.upsert_of_refused {d : DatabaseStore} (h : (d.upsert tag kind delta).2 = .error f) :
    (d.upsert tag kind delta).1 = d := by
  unfold upsert at h ⊢
  cases hgiven : Increment.ofGiven tag kind delta with
  | error g => rfl
  | ok i =>
    simp only [hgiven] at h ⊢
    split
    · next hconnected =>
      rw [if_pos hconnected] at h
      simp only [Medium.eq_of_add_error (Prod.ext rfl h)]
    · rfl

/-- So does one to any store, unless the fault is that the new count cannot be put in the log. -/
theorem Store.upsert_of_refused {s : Store} (h : (s.upsert tag kind delta).2 = .error f) (hf : f ≠ .unwritable) :
    (s.upsert tag kind delta).1 = s := by
  cases s with
  | memory m =>
    refine congrArg Store.memory (?_ : (m.upsert tag kind delta).1 = m)
    replace h : (m.upsert tag kind delta).2 = .error f := h
    rcases m.upsert_cases tag kind delta with ⟨g, -, hrefused⟩ | ⟨i, n, -, -, -, hcounted⟩
    · rw [hrefused]
    · rw [hcounted] at h
      exact absurd (MemoryStore.logged_eq_error_iff.1 h).2 hf
  | database d => exact congrArg Store.database (DatabaseStore.upsert_of_refused h)

/-- A whole number is not added if it is out of the range of 64 bits, or if the table cannot be written. -/
theorem Medium.add_eq_error_iff {m : Medium} {i : Increment} {n : Int} {f : Fault} (htable : m.table?.isSome = true)
    (hi : i.delta = .whole n) : (m.add i).2 = .error f ↔
      (2 ^ 63 ≤ n ∧ f = .beyondStoredRange) ∨
        (n < 2 ^ 63 ∧ (∃ t, m = .sealed t) ∧ f = .cannotIncrement i.tag i.kind) := by
  by_cases hrange : n < 2 ^ 63
  · have hcolumn : columnDelta i = .ok (.whole n) := columnDelta_whole hi hrange
    simp only [hrange, Int.not_le.2 hrange, false_and, false_or, true_and]
    cases m with
    | table t => simp [add, table?, hcolumn]
    | sealed t => simp [add, table?, hcolumn, eq_comm]
    | _ => cases htable
  · have hcolumn : columnDelta i = .error .beyondStoredRange := by
      rw [columnDelta, hi]
      exact if_neg (by rw [isStorable, decide_eq_true_eq]; omega)
    obtain ⟨t, ht⟩ := Option.isSome_iff_exists.1 htable
    simp only [hrange, Int.not_lt.1 hrange, false_and, or_false, true_and]
    simp [add, ht, hcolumn, eq_comm]

/-! ### Reading -/

/-- What goes wrong when a list is gone through is what goes wrong first. -/
theorem mapM_eq_error_iff {α β ε : Type} {g : α → Except ε β} {as : List α} {e : ε} :
    as.mapM g = .error e ↔
      ∃ before a after, as = before ++ a :: after ∧ (∀ a' ∈ before, (g a').isOk = true) ∧ g a = .error e := by
  induction as with
  | nil => simp [pure, Except.pure]
  | cons a as ih =>
    rw [List.mapM_cons]
    cases ha : g a with
    | error e' =>
      constructor
      · intro h
        obtain rfl : e' = e := Except.error.inj h
        exact ⟨[], a, as, rfl, List.forall_mem_nil _, ha⟩
      · rintro ⟨before, a', after, has, hbefore, ha'⟩
        cases before with
        | nil =>
          obtain ⟨rfl, rfl⟩ := List.cons.inj has
          rw [← ha, ha']
          rfl
        | cons b before =>
          obtain ⟨rfl, rfl⟩ := List.cons.inj has
          have hok := hbefore a List.mem_cons_self
          rw [ha] at hok
          cases hok
    | ok b =>
      have hrest : (Except.ok b >>= fun b => as.mapM g >>= fun bs => pure (b :: bs)) = .error e ↔ as.mapM g = .error e := by
        cases as.mapM g <;> simp [bind, Except.bind, pure, Except.pure]
      refine hrest.trans (ih.trans ⟨?_, ?_⟩)
      · rintro ⟨before, a', after, rfl, hbefore, ha'⟩
        exact ⟨a :: before, a', after, rfl, List.forall_mem_cons.2 ⟨by rw [ha]; rfl, hbefore⟩, ha'⟩
      · rintro ⟨before, a', after, has, hbefore, ha'⟩
        cases before with
        | nil =>
          obtain ⟨rfl, rfl⟩ := List.cons.inj has
          cases ha.symm.trans ha'
        | cons b' before =>
          obtain ⟨rfl, rfl⟩ := List.cons.inj has
          exact ⟨before, a', after, rfl, (List.forall_mem_cons.1 hbefore).2, ha'⟩

namespace Table

theorem isOk_rowOf_iff {c : (String × String) × Number} :
    (rowOf c).isOk = true ↔ ∃ k : SignalKind, c.1.2 = k.word := by
  rw [rowOf]
  cases hword : SignalKind.ofWord? c.1.2 with
  | none =>
    constructor
    · intro hok
      cases hok
    · rintro ⟨k, hk⟩
      rw [hk, SignalKind.ofWord?_word] at hword
      cases hword
  | some k => exact ⟨fun _ => ⟨k, (SignalKind.ofWord?_eq_some_iff.1 hword).symm⟩, fun _ => rfl⟩

theorem rowOf_eq_error_iff {c : (String × String) × Number} {f : Fault} :
    rowOf c = .error f ↔ (∀ k : SignalKind, c.1.2 ≠ k.word) ∧ f = .unknownStoredKind c.1.2 := by
  have hok := isOk_rowOf_iff (c := c)
  rw [rowOf] at hok ⊢
  cases hword : SignalKind.ofWord? c.1.2 with
  | none =>
    rw [hword] at hok
    have hnone : ∀ k : SignalKind, c.1.2 ≠ k.word := fun k hk => absurd (hok.2 ⟨k, hk⟩) Bool.false_ne_true
    simp [hnone, eq_comm]
  | some k =>
    have hk := SignalKind.ofWord?_eq_some_iff.1 hword
    simp only [reduceCtorEq, false_iff, not_and]
    exact fun hnone => absurd hk.symm (hnone k)

/-- Rows are not read if one of them is of no known kind. The first such row is reported. -/
theorem mapM_rowOf_eq_error_iff {t : Table} {f : Fault} : t.mapM rowOf = .error f ↔
    ∃ before tag word count after, t = before ++ ((tag, word), count) :: after ∧
      (∀ c ∈ before, ∃ k : SignalKind, c.1.2 = k.word) ∧ (∀ k : SignalKind, word ≠ k.word) ∧
        f = .unknownStoredKind word := by
  rw [mapM_eq_error_iff]
  simp only [isOk_rowOf_iff, rowOf_eq_error_iff]
  constructor
  · rintro ⟨before, ⟨⟨tag, word⟩, count⟩, after, hsplit, hbefore, hword, hf⟩
    exact ⟨before, tag, word, count, after, hsplit, hbefore, hword, hf⟩
  · rintro ⟨before, tag, word, count, after, hsplit, hbefore, hword, hf⟩
    exact ⟨before, ((tag, word), count), after, hsplit, hbefore, hword, hf⟩

/-- Rows that are chosen by the word of a kind can be read. -/
theorem mapM_rowOf_ne_error {t : Table} {k : SignalKind} (h : ∀ c ∈ t, c.1.2 = k.word) (f : Fault) :
    t.mapM rowOf ≠ .error f := by
  intro hf
  obtain ⟨before, tag, word, count, after, ht, -, hword, -⟩ := mapM_rowOf_eq_error_iff.1 hf
  exact hword k (h ((tag, word), count) (ht ▸ List.mem_append_right _ List.mem_cons_self))

end Table

end LanguageUsage
