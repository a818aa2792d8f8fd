import LanguageUsage.Proofs.Number.Sum
import LanguageUsage.Proofs.Store.Log

/-!
# Counts that leave the column

A column of counts holds whole numbers of 64 bits. As long as the sum of what was added to a key is one of these, the
count of the key is this sum. A larger sum is kept as a double, and so are all sums after it. From then on, what is
less than half the distance of neighbouring doubles is lost when it is added.

* `Log.stored`, `Log.storedRows`: the count of a key in a column, and the rows, by what was added;
* `Log.stored_of_lt`, `Log.stored_beyond`, `Log.stored_concat_lost`: what the count is, and what is lost;
* `Log.table`: the table with these counts;
* `DatabaseStore.perform_addition`, `DatabaseStore.performAll_additions`: requests that are not refused;
* `DatabaseStore.counts_of_additions`: the counts that a database returns and shows.
-/

namespace LanguageUsage

/-! ### Logs -/

namespace Log

variable {L : Log} {key : String × SignalKind} {n : Int}

/-- Every amount is one that a column takes. -/
def Storable (L : Log) : Prop := ∀ e ∈ L, 1 ≤ e.2 ∧ e.2 < 2 ^ 63

theorem Storable.positive (h : L.Storable) : L.Positive := fun e he => (h e he).1

theorem Storable.of_concat {e : (String × SignalKind) × Int} (h : Storable (L ++ [e])) : L.Storable :=
  fun e he => h e (List.mem_append_left _ he)

/-- The count of a key in a column: the amounts for the key, added as the column adds. -/
def stored (L : Log) (key : String × SignalKind) : Number :=
  ((L.filter fun e => e.1 = key).map Prod.snd).foldl (fun c n => c.addStored (.whole n)) (.whole 0)

theorem stored_concat (L : Log) (key key' : String × SignalKind) (n : Int) :
    stored (L ++ [(key, n)]) key' = if key = key' then (L.stored key').addStored (.whole n) else L.stored key' := by
  by_cases h : key = key' <;> simp [stored, h]

theorem stored_of_not_mem (h : key ∉ L.map Prod.fst) : L.stored key = .whole 0 := by
  have hnone : L.filter (fun e => e.1 = key) = [] := by
    rw [List.filter_eq_nil_iff]
    intro e he hkey
    exact h (List.mem_map.2 ⟨e, he, by simpa using hkey⟩)
  rw [stored, hnone]
  rfl

/-- The count of a key is the sum of its amounts, or a double beyond the range if the sum is. -/
theorem stored_cases (h : L.Storable) (key : String × SignalKind) :
    (L.total key < 2 ^ 63 ∧ L.stored key = .whole (L.total key)) ∨
      (2 ^ 63 ≤ L.total key ∧ ∃ x, x.Beyond ∧ L.stored key = .real x) := by
  induction L using List.reverseRecOn with
  | nil => exact .inl ⟨Int.pow_pos (by decide), rfl⟩
  | append_singleton L e ih =>
    obtain ⟨key', n⟩ := e
    obtain ⟨hn, hn'⟩ : 1 ≤ n ∧ n < 2 ^ 63 := h (key', n) (by simp)
    have hnonneg := h.of_concat.positive.total_nonneg key
    rw [stored_concat, total_append, total_singleton]
    by_cases hkey : key' = key
    · rw [if_pos hkey, if_pos hkey]
      obtain ⟨k, rfl⟩ := Int.eq_ofNat_of_zero_le (show 0 ≤ n by omega)
      rcases ih h.of_concat with ⟨htotal, hstored⟩ | ⟨htotal, x, hx, hstored⟩
      · rw [hstored]
        generalize total L key = t at hnonneg htotal
        obtain ⟨j, rfl⟩ := Int.eq_ofNat_of_zero_le hnonneg
        by_cases hsum : (j : Int) + k < 2 ^ 63
        · exact .inl ⟨hsum, Number.addStored_whole (isStorable_of_nonneg (by omega) hsum)⟩
        · exact .inr ⟨by omega, Number.addStored_beyond (by omega) (by omega) (by omega)⟩
      · rw [hstored]
        exact .inr ⟨by omega, Number.addStored_real hx (by omega)⟩
    · rw [if_neg hkey, if_neg hkey, Int.add_zero]
      exact ih h.of_concat

/-- **As long as the sum is in range, the count is the sum.** -/
theorem stored_of_lt (h : L.Storable) (htotal : L.total key < 2 ^ 63) : L.stored key = .whole (L.total key) := by
  rcases stored_cases h key with ⟨-, hstored⟩ | ⟨hle, -⟩
  · exact hstored
  · omega

theorem stored_beyond (h : L.Storable) (htotal : 2 ^ 63 ≤ L.total key) : ∃ x, x.Beyond ∧ L.stored key = .real x := by
  rcases stored_cases h key with ⟨hlt, -⟩ | ⟨-, hx⟩
  · omega
  · exact hx

/-- **Once the sum is out of range, small amounts are lost.** -/
theorem stored_concat_lost (h : L.Storable) (htotal : 2 ^ 63 ≤ L.total key) (hn : 0 ≤ n) (hn' : n < 1024) :
    stored (L ++ [(key, n)]) key = L.stored key := by
  obtain ⟨k, rfl⟩ := Int.eq_ofNat_of_zero_le hn
  obtain ⟨x, hx, hstored⟩ := stored_beyond h htotal
  rw [stored_concat, if_pos rfl, hstored]
  exact Number.addStored_lost hx (by omega)

/-- The row of every key, as a column shows it. -/
def storedRows (L : Log) : List Row := L.keys.map fun key => ⟨key.1, key.2, L.stored key⟩

/-! ### Tables -/

/-- The table with the count of every key. -/
def table (L : Log) : Table := .ofCounters (L.keys.map fun key => (key, L.stored key))

theorem mapM_rowOf_table (L : Log) : L.table.mapM Table.rowOf = .ok L.storedRows := by
  rw [table, Table.mapM_rowOf, List.map_map]
  rfl

theorem raised_table (L : Log) (key : String × SignalKind) (hn : 0 ≤ n) (hn' : n < 2 ^ 63) :
    L.table.raised (storedKey key) (.whole n) = stored (L ++ [(key, n)]) key := by
  rw [Table.raised, table, Table.ofCounters, Counters.get?_mapKeys storedKey_injective, Counters.get?_map L.stored,
    stored_concat, if_pos rfl]
  by_cases hkey : key ∈ L.keys
  · rw [if_pos hkey]
  · have hsum : isStorable (0 + n) = true := isStorable_of_nonneg (by omega) (by omega)
    rw [if_neg hkey, stored_of_not_mem (mt mem_keys.2 hkey), Number.addStored_whole hsum, Int.zero_add]

theorem put_table (L : Log) (key : String × SignalKind) (n : Int) :
    Counters.put L.table (storedKey key) (stored (L ++ [(key, n)]) key) = table (L ++ [(key, n)]) := by
  have hput := Counters.put_map L.stored key (nodup_eraseDups (L.map Prod.fst)) (stored (L ++ [(key, n)]) key)
  have hstored : (fun key' => (key', stored (L ++ [(key, n)]) key')) = fun key' =>
      (key', if key' = key then stored (L ++ [(key, n)]) key else L.stored key') := by
    funext key'
    by_cases hkey : key' = key
    · rw [if_pos hkey, hkey]
    · rw [if_neg hkey, stored_concat, if_neg (Ne.symm hkey)]
  rw [← keys] at hput
  rw [table, table, Table.ofCounters, Table.ofCounters, Counters.put_mapKeys storedKey_injective, hput, hstored,
    keys_concat]
  simp only [mem_keys]

/-- A request whose amount is in range is added to the table. -/
theorem add_table (L : Log) {i : Increment} (hi : i.delta = .whole n) (hn : 0 ≤ n) (hn' : n < 2 ^ 63) :
    (Medium.table L.table).add i =
      (.table (table (L ++ [(i.key, n)])), .ok (stored (L ++ [(i.key, n)]) i.key)) := by
  have hadd : (Medium.table L.table).add i =
      (.table (Counters.put L.table (storedKey i.key) (L.table.raised (storedKey i.key) (.whole n))),
        .ok (L.table.raised (storedKey i.key) (.whole n))) := by
    simp only [Medium.add, Medium.table?, columnDelta_whole hi hn']
    rfl
  rw [hadd, L.raised_table i.key hn hn', L.put_table]

end Log

/-! ### The database -/

namespace DatabaseStore

variable {d : DatabaseStore} {L : Log} {a : Addition} {as : List Addition}

/-- A request that is not refused is valid, and its amount is added in the table. -/
theorem perform_addition (hconnected : d.connected = true) (hmedium : d.medium = .table L.table) (ha : a.Exact)
    (hok : ((Store.database d).perform a.operation).2.isOk = true) :
    ∃ key n, a.added? = some (key, n) ∧ 1 ≤ n ∧ n < 2 ^ 63 ∧ (Store.database d).perform a.operation =
      (.database { d with medium := .table (Log.table (L ++ [(key, n)])) },
        .ok (.count (Log.stored (L ++ [(key, n)]) key))) := by
  have hperform : (Store.database d).perform a.operation =
      (.database (d.upsert a.tag a.kind a.delta).1, (d.upsert a.tag a.kind a.delta).2.map .count) := rfl
  rw [hperform] at hok ⊢
  cases hentry : a.added? with
  | none =>
    obtain ⟨f, hchecked, -⟩ := Addition.checked_of_added?_eq_none ha hentry
    rw [Addition.checked] at hchecked
    rw [upsert, hchecked] at hok
    cases hok
  | some e =>
    obtain ⟨key, n⟩ := e
    obtain ⟨i, hchecked, rfl, hi, hn⟩ := Addition.checked_of_added?_eq_some hentry
    have hupsert : d.upsert a.tag a.kind a.delta =
        ({ d with medium := ((Medium.table L.table).add i).1 }, ((Medium.table L.table).add i).2) := by
      rw [Addition.checked] at hchecked
      rw [upsert, hchecked, ← hmedium]
      simp only [hconnected, if_true]
    rw [hupsert] at hok ⊢
    by_cases hrange : n < 2 ^ 63
    · refine ⟨i.key, n, rfl, hn, hrange, ?_⟩
      rw [L.add_table hi (by omega) hrange]
      rfl
    · have hdelta : columnDelta i = .error .beyondStoredRange := by
        rw [columnDelta, hi]
        exact if_neg (by rw [isStorable, decide_eq_true_eq]; omega)
      simp only [Medium.add, Medium.table?, hdelta] at hok
      cases hok

/-- Requests that are not refused are valid, and each returns what its key holds after it. -/
theorem performAll_additions (hconnected : d.connected = true) (hmedium : d.medium = .table L.table)
    (has : ∀ a ∈ as, a.Exact)
    (hok : ∀ r ∈ ((Store.database d).performAll (as.map Addition.operation)).2, r.isOk = true) :
    ∃ L' : Log, as.map Addition.added? = L'.map some ∧ L'.Storable ∧
      (Store.database d).performAll (as.map Addition.operation) =
        (.database { d with medium := .table (Log.table (L ++ L')) },
          L'.mapIdx fun i e => .ok (.count (Log.stored (L ++ L'.take (i + 1)) e.1))) := by
  induction as generalizing d L with
  | nil =>
    refine ⟨[], rfl, List.forall_mem_nil _, ?_⟩
    have hsame : { d with medium := Medium.table L.table } = d := by rw [← hmedium]
    rw [List.append_nil, hsame]
    rfl
  | cons a as ih =>
    obtain ⟨ha, has⟩ := List.forall_mem_cons.1 has
    have hcons : (Store.database d).performAll ((a :: as).map Addition.operation) =
        ((((Store.database d).perform a.operation).1.performAll (as.map Addition.operation)).1,
          ((Store.database d).perform a.operation).2 ::
            (((Store.database d).perform a.operation).1.performAll (as.map Addition.operation)).2) := rfl
    rw [hcons] at hok ⊢
    obtain ⟨hfirst, hrest⟩ := List.forall_mem_cons.1 hok
    obtain ⟨key, n, hentry, hn, hn', hperform⟩ := perform_addition hconnected hmedium ha hfirst
    rw [hperform] at hrest ⊢
    obtain ⟨L', hentries, hstorable, hrun⟩ :=
      ih (d := { d with medium := .table (Log.table (L ++ [(key, n)])) }) hconnected rfl has hrest
    refine ⟨(key, n) :: L', by rw [List.map_cons, List.map_cons, hentry, hentries], ?_, ?_⟩
    · exact List.forall_mem_cons.2 ⟨⟨hn, hn'⟩, hstorable⟩
    · rw [hrun, List.append_assoc, List.mapIdx_cons]
      simp only [List.append_assoc, List.singleton_append, List.take_succ_cons, List.take_zero]

/-- **What a database makes of requests that are not refused.** A database is open and empty, and is asked to add
amounts that are whole numbers; none of the requests is refused. Every request returns the count of its key after it,
and the rows show the counts that were returned last. As long as the sum of the amounts for a key is below `2 ^ 63`,
its count is this sum. From then on its count is a double that is `2 ^ 63` or more, and an amount below 1024 is lost. -/
theorem counts_of_additions (hconnected : d.connected = true) (hempty : d.medium = .table [])
    (has : ∀ a ∈ as, a.Exact)
    (hok : ∀ r ∈ ((Store.database d).performAll (as.map Addition.operation)).2, r.isOk = true) :
    ∃ L : Log, as.map Addition.added? = L.map some ∧
      ((Store.database d).performAll (as.map Addition.operation)).1.rows = .ok L.storedRows ∧
      ((Store.database d).performAll (as.map Addition.operation)).2 =
        (L.mapIdx fun i e => .ok (.count (Log.stored (L.take (i + 1)) e.1))) ∧
      ∀ i key, (Log.total (L.take i) key < 2 ^ 63 →
          Log.stored (L.take i) key = .whole (Log.total (L.take i) key)) ∧
        (2 ^ 63 ≤ Log.total (L.take i) key →
          (∃ x, Number.le (.whole (2 ^ 63)) (.real x) = true ∧ Log.stored (L.take i) key = .real x) ∧
          ∀ n, L[i]? = some (key, n) → n < 1024 → Log.stored (L.take (i + 1)) key = Log.stored (L.take i) key) := by
  obtain ⟨L, hentries, hstorable, hrun⟩ := performAll_additions (L := []) hconnected hempty has hok
  refine ⟨L, hentries, ?_, by rw [hrun]; rfl, fun i key => ?_⟩
  · rw [hrun]
    have hrows : ∀ L' : Log, (Store.database { d with medium := .table L'.table }).rows = L'.table.mapM Table.rowOf :=
      fun L' => if_pos hconnected
    exact (hrows L).trans L.mapM_rowOf_table
  · have hprefix : Log.Storable (L.take i) := fun e he => hstorable e (List.mem_of_mem_take he)
    refine ⟨Log.stored_of_lt hprefix, fun htotal => ⟨?_, fun n hentry hn => ?_⟩⟩
    · obtain ⟨x, hx, hstored⟩ := Log.stored_beyond hprefix htotal
      exact ⟨x, hx.le, hstored⟩
    · have hpositive := (hstorable (key, n) (List.mem_of_getElem? hentry)).1
      rw [List.take_add_one, hentry]
      exact Log.stored_concat_lost hprefix htotal (by omega) hn

/-- A sum that leaves the range by two is shown as if it left it by one; the count of another key is not concerned. -/
theorem counts_of_additions_beyond_range :
    let d : DatabaseStore := { volatile with connected := true }
    let add (tag : String) (n : Int) : Addition := ⟨.text tag, .kind .classifyText, .whole n⟩
    let as := [add "en" (2 ^ 63 - 1), add "de" 5, add "en" 1, add "en" 1]
    (∀ r ∈ ((Store.database d).performAll (as.map Addition.operation)).2, r.isOk = true) ∧
      ∃ L : Log, as.map Addition.added? = L.map some ∧ L.stored ("de", .classifyText) = .whole 5 ∧
        L.stored ("en", .classifyText) = Log.stored (L.take 3) ("en", .classifyText) := by
  intro d add as
  have hok : ∀ r ∈ ((Store.database d).performAll (as.map Addition.operation)).2, r.isOk = true := by decide +kernel
  have hexact : ∀ a ∈ as, a.Exact := by
    intro a ha x
    simp only [as, add, List.mem_cons, List.not_mem_nil, or_false] at ha
    rcases ha with rfl | rfl | rfl | rfl <;> exact nofun
  refine ⟨hok, ?_⟩
  obtain ⟨L, hentries, -, -, hcounts⟩ := counts_of_additions (d := d) rfl rfl hexact hok
  let entries : Log := [(("en", .classifyText), 2 ^ 63 - 1), (("de", .classifyText), 5), (("en", .classifyText), 1),
    (("en", .classifyText), 1)]
  have hknown : entries.map some = as.map Addition.added? := by decide +kernel
  obtain rfl : entries = L := (List.map_inj_right fun _ _ => Option.some.inj).1 (hknown.trans hentries)
  refine ⟨entries, hentries, ?_, ?_⟩
  · exact (hcounts 4 _).1 (by decide)
  · exact ((hcounts 3 _).2 (by decide)).2 1 rfl (by decide)

/-- The count that is shown is not the sum. -/
theorem increment_lost_beyond_range :
    let d : DatabaseStore := { volatile with connected := true }
    let add (n : Int) : Addition := ⟨.text "en", .kind .classifyText, .whole n⟩
    let as := [add (2 ^ 63 - 1), add 1, add 1]
    let run := (Store.database d).performAll (as.map Addition.operation)
    let shown : Number := .real (.ofBits 0x43E0000000000000)
    (∀ r ∈ run.2, r.isOk = true) ∧ run.1.rows = .ok [⟨"en", .classifyText, shown⟩] ∧
      (Log.ofAdditions as).total ("en", .classifyText) = 2 ^ 63 + 1 ∧ shown.eq (.whole (2 ^ 63)) = true ∧
      shown.eq (.whole (2 ^ 63 + 1)) = false := by
  decide +kernel

end DatabaseStore

end LanguageUsage
