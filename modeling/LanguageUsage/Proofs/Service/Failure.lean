import LanguageUsage.Proofs.Service.Reopening
import LanguageUsage.Proofs.Store.Refusal

/-!
# How requests to a database fail

A request with proper arguments to a database that is open and whose table can be read has few ways to fail. One of
them is a failure of the store: its file may not be written. Two others are not: an amount that is out of the range of
the column of counts, and a stored row of no known kind where all rows are read.

* `Medium.Fails`: the ways to fail;
* `DatabaseStore.perform_eq_error_iff`: a request fails in these ways and no other;
* `Service.failures_of_proper`: so it is seen by those who use a service;
* `Service.request_fails_otherwise`: a request that fails, but not as a failure of the store.
-/

namespace LanguageUsage

/-- How a proper request to an open database fails. -/
inductive Medium.Fails (m : Medium) : Operation → Fault → Prop
  /-- the amount is out of the range of 64 bits -/
  | outOfRange {tag : String} {k : SignalKind} {delta : Value} {n : Int} (hdelta : delta.number? = some (.whole n))
      (hn : 2 ^ 63 ≤ n) : Fails m (.upsert (.text tag) (.kind k) delta) .beyondStoredRange
  /-- the table cannot be written -/
  | unwritable {t : Table} (hm : m = .sealed t) {tag : String} {k : SignalKind} {delta : Value} {n : Int}
      (hdelta : delta.number? = some (.whole n)) (hn : n < 2 ^ 63) :
      Fails m (.upsert (.text tag) (.kind k) delta) (.cannotIncrement tag k)
  /-- all rows are read, and this is the first one whose word is that of no kind -/
  | unknownKind (before : Table) {t after : Table} {tag word : String} {count : Number} (ht : m.table? = some t)
      (hrow : t = before ++ ((tag, word), count) :: after)
      (hbefore : ∀ c ∈ before, ∃ k : SignalKind, c.1.2 = k.word) (hword : ∀ k : SignalKind, word ≠ k.word) :
      Fails m .rows (.unknownStoredKind word)

/-- Only that a table cannot be written is a failure of the store. -/
theorem Medium.Fails.category {m : Medium} {o : Operation} {f : Fault} (h : m.Fails o f) :
    f.category ≠ .storeFailure ↔ f = .beyondStoredRange ∨ ∃ word, f = .unknownStoredKind word := by
  cases h <;> simp [Fault.category]

namespace DatabaseStore

variable {d : DatabaseStore} {o : Operation} {f : Fault}

theorem select_eq (hconnected : d.connected = true) {t t' : Table} (ht : d.medium.table? = some t) {q : Query}
    (hq : q.records t = .ok t') : d.select q = t'.mapM Table.rowOf := by
  rw [select, if_pos hconnected, Medium.select, ht]
  simp only [hq]
  rfl

/-- The rows that are chosen by the word of a kind can be read. -/
theorem select_ne_error (hconnected : d.connected = true) {t t' : Table} (ht : d.medium.table? = some t) {q : Query}
    (hq : q.records t = .ok t') {k : SignalKind} (hk : ∀ c ∈ t', c.1.2 = k.word) : d.select q ≠ .error f := by
  rw [select_eq hconnected ht hq]
  exact Table.mapM_rowOf_ne_error hk f

theorem map_eq_error_iff {α β : Type} {g : α → β} {r : Except Fault α} : r.map g = .error f ↔ r = .error f := by
  cases r <;> simp [Except.map]

/-- How a request to count fails. -/
theorem upsert_eq_error_iff (hconnected : d.connected = true) (htable : d.medium.table?.isSome = true) {tag : String}
    {k : SignalKind} {delta : Value} {n : Int} (htag : Text.isBlank tag = false)
    (hdelta : delta.number? = some (.whole n)) (hn : 1 ≤ n) :
    (d.upsert (.text tag) (.kind k) delta).2 = .error f ↔ d.medium.Fails (.upsert (.text tag) (.kind k) delta) f := by
  obtain ⟨i, hgiven, hkey, hi⟩ := Increment.ofGiven_proper htag k hdelta hn
  obtain ⟨rfl, rfl⟩ := Prod.mk.inj hkey
  have hup : d.upsert (.text i.tag) (.kind i.kind) delta =
      ({ d with medium := (d.medium.add i).1 }, (d.medium.add i).2) := by
    rw [upsert, hgiven]
    simp only [hconnected, if_true]
  rw [hup, Medium.add_eq_error_iff htable hi]
  constructor
  · rintro (⟨hrange, rfl⟩ | ⟨hrange, ⟨t', hm⟩, rfl⟩)
    · exact .outOfRange hdelta hrange
    · exact .unwritable hm hdelta hrange
  · rintro (⟨hdelta', hrange⟩ | ⟨hm, hdelta', hrange⟩)
    · obtain rfl : n = _ := Number.whole.inj (Option.some.inj (hdelta.symm.trans hdelta'))
      exact .inl ⟨hrange, rfl⟩
    · obtain rfl : n = _ := Number.whole.inj (Option.some.inj (hdelta.symm.trans hdelta'))
      exact .inr ⟨hrange, ⟨_, hm⟩, rfl⟩

/-- All rows are not read if one of them is of no known kind. -/
theorem rows_eq_error_iff (hconnected : d.connected = true) (htable : d.medium.table?.isSome = true) :
    d.rows = .error f ↔ d.medium.Fails .rows f := by
  obtain ⟨t, ht⟩ := Option.isSome_iff_exists.1 htable
  show d.select .all = .error f ↔ _
  rw [select_eq hconnected ht (q := .all) rfl, Table.mapM_rowOf_eq_error_iff]
  constructor
  · rintro ⟨before, tag, word, count, after, hsplit, hbefore, hword, rfl⟩
    exact .unknownKind before ht hsplit hbefore hword
  · rintro (- | - | @⟨before, t', after, tag, word, count, ht', hsplit, hbefore, hword⟩)
    obtain rfl := Option.some.inj (ht.symm.trans ht')
    exact ⟨before, tag, word, count, after, hsplit, hbefore, hword, rfl⟩

/-- **How a proper request fails.** The rows that are read for one kind are chosen by its word, so they can be read. -/
theorem perform_eq_error_iff (hconnected : d.connected = true) (htable : d.medium.table?.isSome = true) (ho : o.Proper) :
    ((Store.database d).perform o).2 = .error f ↔ d.medium.Fails o f := by
  obtain ⟨t, ht⟩ := Option.isSome_iff_exists.1 htable
  cases ho with
  | @upsert tag k delta n htag hdelta hn =>
    show (d.upsert (.text tag) (.kind k) delta).2.map Reply.count = .error f ↔ _
    rw [map_eq_error_iff, upsert_eq_error_iff hconnected htable htag hdelta hn]
  | get tag k =>
    have hq : (Query.ofKey (.text tag) k.word).records t =
        .ok (t.filter fun c => some tag == some c.1.1 && c.1.2 == k.word) := rfl
    have hget : d.get (.text tag) (.kind k) = (d.select (.ofKey (.text tag) k.word)).map List.head? := rfl
    show (d.get (.text tag) (.kind k)).map Reply.row = .error f ↔ _
    rw [map_eq_error_iff, hget, map_eq_error_iff]
    constructor
    · intro h
      refine absurd h (select_ne_error hconnected ht hq (k := k) fun c hc => ?_)
      simpa using (Bool.and_eq_true_iff.1 (List.mem_filter.1 hc).2).2
    · intro h
      cases h
  | byKind k =>
    have hq : (Query.ofKind k.word).records t = .ok (t.filter fun c => c.1.2 == k.word) := rfl
    show (d.select (.ofKind k.word)).map Reply.rows = .error f ↔ _
    rw [map_eq_error_iff]
    constructor
    · intro h
      refine absurd h (select_ne_error hconnected ht hq (k := k) fun c hc => ?_)
      simpa using (List.mem_filter.1 hc).2
    · intro h
      cases h
  | rows =>
    show d.rows.map Reply.rows = .error f ↔ _
    rw [map_eq_error_iff, rows_eq_error_iff hconnected htable]

/-- A proper request that fails changes nothing. -/
theorem perform_of_failed (ho : o.Proper) (h : ((Store.database d).perform o).2 = .error f) :
    ((Store.database d).perform o).1 = .database d := by
  cases ho with
  | @upsert tag k delta n htag hdelta hn =>
    have hrefused : (d.upsert (.text tag) (.kind k) delta).2.map Reply.count = .error f := h
    exact congrArg Store.database (DatabaseStore.upsert_of_refused (map_eq_error_iff.1 hrefused))
  | _ => rfl

end DatabaseStore

namespace Service

/-- **How a proper request to a database fails.** Nothing is going on in a service whose database is open; the table
can be read, whatever rows it holds. A request with proper arguments, whose tag is a text of Unicode scalar values,
comes to an end. It fails if it is to add `2 ^ 63` or more, if it is to add less and the table cannot be written, or if
all rows are asked for and one of them is of no known kind, the first of which is reported; otherwise it succeeds. If it
fails, nothing has changed. Of these ways to fail only the second is a failure of the store. A tag with a lone surrogate
is no text here: it cannot be encoded for the database, and this is not reported as a failure of the store either. -/
theorem failures_of_proper {s : Service} (hrest : s.AtRest) {d : DatabaseStore} (hstore : s.store = .database d)
    (hconnected : d.connected = true) (htable : d.medium.table?.isSome = true) {o : Operation} (ho : o.Proper) :
    ∃ s' r rows, s.perform (.operation o) = .ok (s', .performed (some r) rows []) ∧ s'.AtRest ∧
      ∀ f, (r = .error f ↔ d.medium.Fails o f) ∧ (r = .error f → s'.store = s.store ∧
        (f.category ≠ .storeFailure ↔ f = .beyondStoredRange ∨ ∃ word, f = .unknownStoredKind word)) := by
  have hcarries : s.store.Carries o := by cases ho <;> trivial
  obtain ⟨s', hperform, hs', hstore'⟩ := hrest.perform hcarries
  rw [hstore] at hperform hstore' ⊢
  have hfails : ∀ f, ((Store.database d).perform o).2 = .error f ↔ d.medium.Fails o f := fun f =>
    DatabaseStore.perform_eq_error_iff hconnected htable ho
  refine ⟨s', _, _, hperform, hs', fun f => ⟨hfails f, fun hf => ⟨?_, ((hfails f).1 hf).category⟩⟩⟩
  rw [hstore', DatabaseStore.perform_of_failed ho hf]

/-- All rows are asked for, and the second one is of no known kind. -/
theorem failures_of_proper_on_unknown_row :
    let t : Table := [(("en", SignalKind.classifyText.word), .whole 2), (("en", "other"), .whole 1)]
    let d : DatabaseStore := { path := "profile.db", medium := .table t }
    let s := ((ofUpdater { store := .database d }).carryOut 1 Operation.connect.work).1
    s.AtRest ∧ s.store = .database { d with connected := true } ∧ Operation.Proper .rows ∧
      ∃ s' rows, s.perform (.operation .rows) =
        .ok (s', .performed (some (.error (.unknownStoredKind "other"))) rows []) ∧ s'.store = s.store := by
  intro t d s
  have hnew : (ofUpdater { store := .database d }).AtRest := atRest_ofUpdater _ fun _ hd => Store.database.inj hd ▸ rfl
  obtain ⟨s₁, hs₁, hrest, hstore⟩ := hnew.carryOut (o := .connect) trivial (Nat.le_refl 1)
  obtain rfl : s = s₁ := congrArg Prod.fst hs₁
  replace hstore : s.store = .database { d with connected := true } := hstore
  obtain ⟨s', r, rows, hperform, -, hfails⟩ := failures_of_proper hrest hstore rfl rfl .rows
  have hword : ∀ k : SignalKind, "other" ≠ k.word := by
    intro k
    cases k <;> decide
  have hf : r = .error (.unknownStoredKind "other") :=
    (hfails _).1.2 (.unknownKind [(("en", SignalKind.classifyText.word), .whole 2)] rfl rfl
      (List.forall_mem_singleton.2 ⟨.classifyText, rfl⟩) hword)
  exact ⟨hrest, hstore, .rows, s', rows, hf ▸ hperform, ((hfails _).2 hf).1⟩

/-- A request to add `2 ^ 63` and one to read a row of no known kind fail, and neither is a failure of the store. -/
theorem request_fails_otherwise :
    let d : DatabaseStore := { path := "profile.db", medium := .table [(("en", "other"), .whole 1)], connected := true }
    (d.upsert (.text "en") (.kind .classifyText) (.whole (2 ^ 63))).2 = .error .beyondStoredRange ∧
      d.rows = .error (.unknownStoredKind "other") ∧ Fault.beyondStoredRange.category = .numericOverflow ∧
      (Fault.unknownStoredKind "other").category = .invalidValue := by
  decide +kernel

end Service

end LanguageUsage
