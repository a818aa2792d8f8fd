import LanguageUsage.Store.Operation
import Mathlib.Tactic.Common

/-!
# Agreement of the stores

A store in memory and a table in a database are asked for the same things. As long as no count leaves the range of
the column of counts they answer alike, and hold the same rows in the same order.

* `Operation.Shared`: what both stores can be asked for;
* `Table.ofCounters`: the table that belongs to counts in memory;
* `Agree`: a database holds this table;
* `HasRoom`: the counts stay in range if the given operations follow;
* `Agree.upsert`, `Agree.perform`: an operation leaves stores that agree, and has the same answer.
-/

namespace LanguageUsage

/-! ### Operations on either store -/

/-- What both stores can be asked for: to add a whole number to any key, and to look up texts and kinds proper. -/
inductive Operation.Shared : Operation → Prop
  | upsert (tag : Value) (kind : GivenKind) {delta : Value} {n : Int} (h : delta.number? = some (.whole n)) :
    Shared (.upsert tag kind delta)
  | get (tag : String) (k : SignalKind) : Shared (.get (.text tag) (.kind k))
  | rows : Shared .rows
  | byKind (k : SignalKind) : Shared (.byKind (.kind k))
  | usage (k : SignalKind) : Shared (.usage (.kind k))
  | frequent (k : SignalKind) (minShare : Value) : Shared (.frequent (.kind k) minShare)

namespace Increment

variable {tag : Value} {kind : GivenKind} {delta : Value} {i : Increment}

/-- What is added is the number that was given. -/
theorem number?_of_ofGiven (h : ofGiven tag kind delta = .ok i) : delta.number? = some i.delta := by
  unfold ofGiven at h
  split at h
  · split at h
    · cases h
    · split at h
      · unfold ofDelta at h
        split at h
        · cases h
        · next n hn =>
          split at h
          · cases h
          · cases h
            exact hn
      · cases h
  · cases h

/-- A request with proper arguments passes the check. -/
theorem ofGiven_proper {t : String} {n : Int} (htag : Text.isBlank t = false) (k : SignalKind)
    (hdelta : delta.number? = some (.whole n)) (hn : 1 ≤ n) :
    ∃ i, ofGiven (.text t) (.kind k) delta = .ok i ∧ i.key = (t, k) ∧ i.delta = .whole n := by
  have hlt : Number.lt (.whole n) (.whole 1) = false := by
    rw [Number.lt_whole, decide_eq_false_iff_not]
    omega
  refine ⟨⟨t, k, .whole n, htag, hlt⟩, ?_, rfl, rfl⟩
  simp [ofGiven, ofDelta, htag, hdelta, hlt]

/-- So does one that asks to count a tag once. -/
theorem ofGiven_once {t : String} (htag : Text.isBlank t = false) (k : SignalKind) :
    ∃ i, ofGiven (.text t) (.kind k) (.whole 1) = .ok i ∧ i.key = (t, k) ∧ i.delta = .whole 1 := by
  have hone : (Value.whole 1).number? = some (.whole 1) := rfl
  exact ofGiven_proper htag k hone (Int.le_refl 1)

/-- A whole number that is added is at least one. -/
theorem one_le_of_delta {n : Int} (h : i.delta = .whole n) : 1 ≤ n := by
  have hn := i.delta_not_below_one
  rw [h, Number.lt_whole] at hn
  simpa using hn

/-- The amount that is added to the count of a key. -/
def amountFor (i : Increment) (key : String × SignalKind) : Int :=
  match i.delta with
  | .whole n => if i.key = key then n else 0
  | .real _ => 0

theorem amountFor_nonneg (i : Increment) (key : String × SignalKind) : 0 ≤ i.amountFor key := by
  unfold amountFor
  split
  · next n hn =>
    have hone := one_le_of_delta hn
    split <;> omega
  · exact Int.le_refl 0

end Increment

/-- The amount that an operation adds to the count of a key. A request that does not pass the check adds nothing. -/
def Operation.added (key : String × SignalKind) : Operation → Int
  | .upsert tag kind delta =>
    match Increment.ofGiven tag kind delta with
    | .ok i => i.amountFor key
    | .error _ => 0
  | _ => 0

theorem Operation.added_nonneg (key : String × SignalKind) (o : Operation) : 0 ≤ o.added key := by
  unfold added
  split
  · split
    · exact Increment.amountFor_nonneg _ _
    · exact Int.le_refl 0
  · exact Int.le_refl 0

/-- What operations add to the count of a key, all in all. -/
def Operation.addedByAll (key : String × SignalKind) (os : List Operation) : Int :=
  (os.map (added key)).sum

theorem Operation.addedByAll_upsert {tag delta : Value} {kind : GivenKind} {i : Increment} {n : Int}
    (hgiven : Increment.ofGiven tag kind delta = .ok i) (hi : i.delta = .whole n) (key : String × SignalKind)
    (os : List Operation) :
    addedByAll key (.upsert tag kind delta :: os) = (if i.key = key then n else 0) + addedByAll key os := by
  simp [addedByAll, added, hgiven, Increment.amountFor, hi]

theorem Operation.addedByAll_nonneg (key : String × SignalKind) (os : List Operation) :
    0 ≤ addedByAll key os := by
  induction os with
  | nil => exact Int.le_refl 0
  | cons o os ih => exact Int.add_nonneg (o.added_nonneg key) ih

/-! ### Tables -/

namespace Counters

variable {κ κ' : Type} [DecidableEq κ] [DecidableEq κ'] {f : κ → κ'}

/-- The same counts under other keys. -/
def mapKeys (f : κ → κ') (cs : Counters κ) : Counters κ' := cs.map fun c => (f c.1, c.2)

theorem get?_mapKeys (hf : Function.Injective f) (cs : Counters κ) (key : κ) :
    (mapKeys f cs).get? (f key) = cs.get? key := by
  induction cs with
  | nil => rfl
  | cons c cs ih =>
    have hcons : mapKeys f (c :: cs) = (f c.1, c.2) :: mapKeys f cs := rfl
    rw [hcons, get?_cons, get?_cons, ih]
    simp only [hf.eq_iff]

theorem put_mapKeys (hf : Function.Injective f) (cs : Counters κ) (key : κ) (n : Number) :
    (mapKeys f cs).put (f key) n = mapKeys f (cs.put key n) := by
  induction cs with
  | nil => rfl
  | cons c cs ih =>
    have hcons : mapKeys f (c :: cs) = (f c.1, c.2) :: mapKeys f cs := rfl
    rw [hcons, put, put, ih]
    simp only [hf.eq_iff]
    split <;> rfl

end Counters

/-- The key of a row in a table. -/
def storedKey (key : String × SignalKind) : String × String := (key.1, key.2.word)

theorem storedKey_injective : Function.Injective storedKey := by
  rintro ⟨tag, k⟩ ⟨tag', k'⟩ h
  obtain ⟨htag, hword⟩ := Prod.mk.inj h
  exact Prod.ext htag (SignalKind.word_injective hword)

/-- The table that belongs to counts in memory. -/
def Table.ofCounters (cs : Counters (String × SignalKind)) : Table := Counters.mapKeys storedKey cs

namespace Table

variable (cs : Counters (String × SignalKind))

theorem mapM_rowOf : (ofCounters cs).mapM rowOf = .ok (cs.map fun c => ⟨c.1.1, c.1.2, c.2⟩) := by
  induction cs with
  | nil => rfl
  | cons c cs ih =>
    have hrow : rowOf (storedKey c.1, c.2) = .ok ⟨c.1.1, c.1.2, c.2⟩ := by
      simp only [rowOf, storedKey, SignalKind.ofWord?_word]
    have hcons : ofCounters (c :: cs) = (storedKey c.1, c.2) :: ofCounters cs := rfl
    rw [hcons, List.mapM_cons, hrow, ih]
    rfl

/-- A choice of records is made by the keys of the counts. -/
theorem filter_ofCounters {p : (String × String) × Number → Bool} {q : (String × SignalKind) × Number → Bool}
    (h : ∀ c, p (storedKey c.1, c.2) = q c) : (ofCounters cs).filter p = ofCounters (cs.filter q) := by
  have hpq : (p ∘ fun c : (String × SignalKind) × Number => (storedKey c.1, c.2)) = q := funext h
  rw [ofCounters, Counters.mapKeys, List.filter_map, hpq]
  rfl

end Table

/-! ### Counts in range -/

theorem isStorable_of_nonneg {n : Int} (h : 0 ≤ n) (hn : n < 2 ^ 63) : isStorable n = true := by
  rw [isStorable, decide_eq_true_eq]
  omega

theorem columnDelta_whole {i : Increment} {n : Int} (hi : i.delta = .whole n) (hn : n < 2 ^ 63) :
    columnDelta i = .ok (.whole n) := by
  have hone := Increment.one_le_of_delta hi
  rw [columnDelta, hi]
  exact if_pos (isStorable_of_nonneg (by omega) hn)

/-- A sum that stays in range is the same in a table. -/
theorem Table.raised_ofCounters {cs : Counters (String × SignalKind)} {key : String × SignalKind} {c n : Int}
    (hget : (cs.get? key).getD (.whole 0) = .whole c) (hc : 0 ≤ c + n) (hsum : c + n < 2 ^ 63) :
    (ofCounters cs).raised (storedKey key) (.whole n) = .whole (c + n) := by
  rw [raised, ofCounters, Counters.get?_mapKeys storedKey_injective]
  cases hold : cs.get? key with
  | none =>
    rw [hold] at hget
    obtain rfl : 0 = c := Number.whole.inj hget
    rw [Int.zero_add]
  | some x =>
    rw [hold] at hget
    obtain rfl : x = .whole c := hget
    exact Number.addStored_whole (isStorable_of_nonneg hc hsum)

/-! ### Stores that agree -/

/-- A database holds the table that belongs to a store in memory. -/
structure Agree (m : MemoryStore) (d : DatabaseStore) : Prop where
  refused : m.refused = []
  /-- what fits into a table can be put in the log -/
  digits : ∀ digits ∈ m.digits, 19 ≤ digits
  connected : d.connected = true
  medium : d.medium = .table (.ofCounters m.counters)

/-- Every count is a whole number that stays in range if the given operations follow. -/
def HasRoom (m : MemoryStore) (os : List Operation) : Prop :=
  ∀ key, ∃ n : Int, 0 ≤ n ∧ (m.counters.get? key).getD (.whole 0) = .whole n ∧
    n + Operation.addedByAll key os < 2 ^ 63

theorem HasRoom.tail {m : MemoryStore} {o : Operation} {os : List Operation} (h : HasRoom m (o :: os))
    (ho : ∀ key, o.added key = 0) : HasRoom m os := by
  intro key
  obtain ⟨n, hn, hget, hsum⟩ := h key
  refine ⟨n, hn, hget, ?_⟩
  simpa [Operation.addedByAll, ho key] using hsum

/-- A count that was raised has used the room of its request, and no other count has. -/
theorem HasRoom.put {m : MemoryStore} {i : Increment} {c n : Int} {os : List Operation}
    (hget : (m.counters.get? i.key).getD (.whole 0) = .whole c) (hcn : 0 ≤ c + n)
    (h : ∀ key, ∃ c : Int, 0 ≤ c ∧ (m.counters.get? key).getD (.whole 0) = .whole c ∧
      c + ((if i.key = key then n else 0) + Operation.addedByAll key os) < 2 ^ 63) :
    HasRoom { m with counters := m.counters.put i.key (.whole (c + n)) } os := by
  intro key
  obtain ⟨c', hc', hget', hsum⟩ := h key
  by_cases hkey : i.key = key
  · rw [if_pos hkey] at hsum
    have hsame : c' = c := by
      rw [← hkey, hget] at hget'
      exact (Number.whole.inj hget').symm
    refine ⟨c + n, hcn, ?_, by omega⟩
    rw [Counters.get?_put, if_pos hkey]
    rfl
  · rw [if_neg hkey] at hsum
    refine ⟨c', hc', ?_, by omega⟩
    rw [Counters.get?_put, if_neg hkey, hget']

namespace Agree

variable {m : MemoryStore} {d : DatabaseStore} {o : Operation} {os : List Operation}

theorem select (h : Agree m d) (q : Query) :
    d.select q = (q.records (.ofCounters m.counters)).bind fun t => t.mapM Table.rowOf := by
  rw [DatabaseStore.select, if_pos h.connected, h.medium]
  rfl

theorem rows (h : Agree m d) : d.rows = .ok m.rows := by
  rw [DatabaseStore.rows, h.select]
  exact Table.mapM_rowOf _

theorem byKind (h : Agree m d) (k : SignalKind) : d.byKind (.kind k) = .ok (m.byKind (.kind k)) := by
  have hselect : d.byKind (.kind k) = d.select (.ofKind k.word) := rfl
  have hrecords : (Query.ofKind k.word).records (.ofCounters m.counters) =
      .ok (.ofCounters (m.counters.filter fun c => (GivenKind.kind k).denotes c.1.2)) := by
    rw [Query.records, Table.filter_ofCounters]
    intro c
    rw [Bool.eq_iff_iff]
    simp [storedKey, @eq_comm _ k]
  rw [hselect, h.select, hrecords, MemoryStore.byKind, MemoryStore.rows, List.filter_map]
  exact Table.mapM_rowOf _

theorem get (h : Agree m d) (tag : String) (k : SignalKind) :
    d.get (.text tag) (.kind k) = .ok (m.get (.text tag) (.kind k)) := by
  have hselect : d.get (.text tag) (.kind k) = (d.select (.ofKey (.text tag) k.word)).map List.head? := rfl
  have hrecords : (Query.ofKey (.text tag) k.word).records (.ofCounters m.counters) =
      .ok (.ofCounters (m.counters.filter fun c => c.1 = (tag, k))) := by
    have hfilter : (Table.ofCounters m.counters).filter (fun c => some tag == some c.1.1 && c.1.2 == k.word) =
        Table.ofCounters (m.counters.filter fun c => c.1 = (tag, k)) := by
      apply Table.filter_ofCounters _
      intro c
      rw [Bool.eq_iff_iff]
      simp [storedKey, Prod.ext_iff, @eq_comm _ tag]
    exact congrArg Except.ok hfilter
  rw [hselect, h.select, hrecords, MemoryStore.get_eq_find?, ← List.head?_filter, ← List.head?_map]
  exact congrArg (Except.map List.head?) (Table.mapM_rowOf _)

/-- A count in range can be put in the log. -/
theorem logged (h : Agree m d) {n : Int} (hn : 0 ≤ n) (hrange : n < 2 ^ 63) :
    m.logged (.whole n) = .ok (.whole n) := by
  refine MemoryStore.logged_whole fun digits hdigits => ?_
  have hnat : n.natAbs < 10 ^ 19 := by omega
  exact Nat.lt_of_lt_of_le hnat (Nat.pow_le_pow_right (by decide) (h.digits digits hdigits))

/-- A checked request is carried out alike. -/
theorem apply (h : Agree m d) {i : Increment} {c n : Int} (hi : i.delta = .whole n) (hc : 0 ≤ c)
    (hget : (m.counters.get? i.key).getD (.whole 0) = .whole c) (hsum : c + n < 2 ^ 63) :
    m.apply i = ({ m with counters := m.counters.put i.key (.whole (c + n)) }, .ok (.whole (c + n))) ∧
      d.medium.add i = (.table (.ofCounters (m.counters.put i.key (.whole (c + n)))), .ok (.whole (c + n))) := by
  have hn := Increment.one_le_of_delta hi
  constructor
  · rw [MemoryStore.apply, hget, hi, Number.add?_whole]
    exact congrArg _ (h.logged (by omega) hsum)
  · have hdelta : columnDelta i = .ok (.whole n) := columnDelta_whole hi (by omega)
    have hraised := Table.raised_ofCounters hget (by omega) hsum
    have hadd : (Medium.table (.ofCounters m.counters)).add i =
        (.table (Counters.put (Table.ofCounters m.counters) (storedKey i.key)
          ((Table.ofCounters m.counters).raised (storedKey i.key) (.whole n))),
          .ok ((Table.ofCounters m.counters).raised (storedKey i.key) (.whole n))) := by
      simp only [Medium.add, Medium.table?, hdelta]
      rfl
    rw [h.medium, hadd, hraised, Table.ofCounters, Counters.put_mapKeys storedKey_injective]
    rfl

/-- **A request is answered alike**, whether it passes the check or not. -/
theorem upsert (h : Agree m d) {tag delta : Value} {kind : GivenKind} {n : Int}
    (hdelta : delta.number? = some (.whole n)) (hroom : HasRoom m (.upsert tag kind delta :: os)) :
    (d.upsert tag kind delta).2 = (m.upsert tag kind delta).2 ∧
      Agree (m.upsert tag kind delta).1 (d.upsert tag kind delta).1 ∧ HasRoom (m.upsert tag kind delta).1 os := by
  have hrefuses : m.refuses tag = false := by
    cases tag <;> simp [MemoryStore.refuses, h.refused]
  -- both stores check the request in the same way
  cases hgiven : Increment.ofGiven tag kind delta with
  | error f =>
    have hm : m.upsert tag kind delta = (m, .error f) := by
      rw [MemoryStore.upsert, hrefuses, hgiven]
      rfl
    have hd : d.upsert tag kind delta = (d, .error f) := by
      rw [DatabaseStore.upsert, hgiven]
    rw [hm, hd]
    exact ⟨rfl, h, hroom.tail fun key => by simp [Operation.added, hgiven]⟩
  | ok i =>
    have hi : i.delta = .whole n := by
      have hnumber := Increment.number?_of_ofGiven hgiven
      rw [hdelta] at hnumber
      exact (Option.some.inj hnumber).symm
    have hn := Increment.one_le_of_delta hi
    simp only [HasRoom, Operation.addedByAll_upsert hgiven hi] at hroom
    obtain ⟨c, hc, hget, hsum⟩ := hroom i.key
    have hrest := Operation.addedByAll_nonneg i.key os
    rw [if_pos rfl] at hsum
    obtain ⟨happly, hadd⟩ := h.apply hi hc hget (by omega)
    have hm : m.upsert tag kind delta =
        ({ m with counters := m.counters.put i.key (.whole (c + n)) }, .ok (.whole (c + n))) := by
      rw [MemoryStore.upsert, hrefuses, hgiven]
      exact happly
    have hd : d.upsert tag kind delta =
        ({ d with medium := .table (.ofCounters (m.counters.put i.key (.whole (c + n)))) },
          .ok (.whole (c + n))) := by
      rw [DatabaseStore.upsert, hgiven]
      simp only [h.connected, if_true, hadd]
    rw [hm, hd]
    exact ⟨rfl, ⟨h.refused, h.digits, h.connected, rfl⟩, .put hget (by omega) hroom⟩

theorem usage (h : Agree m d) (k : SignalKind) :
    (Store.database d).usage (.kind k) = (Store.memory m).usage (.kind k) := by
  simp only [Store.usage, Store.byKind, h.byKind]

/-- **An operation is answered alike**, and leaves stores that agree. -/
theorem perform (h : Agree m d) (ho : o.Shared) (hroom : HasRoom m (o :: os)) :
    ∃ m' d' r, (Store.memory m).perform o = (.memory m', r) ∧ (Store.database d).perform o = (.database d', r) ∧
      Agree m' d' ∧ HasRoom m' os := by
  cases ho with
  | @upsert tag kind delta n hdelta =>
    obtain ⟨hresult, hagree, hrest⟩ := h.upsert hdelta hroom
    refine ⟨_, _, (m.upsert tag kind delta).2.map .count, rfl, ?_, hagree, hrest⟩
    rw [← hresult]
    rfl
  | get tag k =>
    refine ⟨m, d, _, rfl, ?_, h, hroom.tail fun _ => rfl⟩
    simp only [Store.perform, Store.get, h.get]
  | rows =>
    refine ⟨m, d, _, rfl, ?_, h, hroom.tail fun _ => rfl⟩
    simp only [Store.perform, Store.rows, h.rows]
  | byKind k =>
    refine ⟨m, d, _, rfl, ?_, h, hroom.tail fun _ => rfl⟩
    simp only [Store.perform, Store.byKind, h.byKind]
  | usage k =>
    refine ⟨m, d, _, rfl, ?_, h, hroom.tail fun _ => rfl⟩
    simp only [Store.perform, h.usage]
  | frequent k minShare =>
    refine ⟨m, d, _, rfl, ?_, h, hroom.tail fun _ => rfl⟩
    simp only [Store.perform, Store.frequent, h.usage]

end Agree

end LanguageUsage
