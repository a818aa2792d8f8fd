import LanguageUsage.Proofs.Store.Agreement
import LanguageUsage.Proofs.Store.Tally

/-!
# The log of what was added

All that matters of the requests to count are the keys and amounts of those that are valid, in their order. What a
store answers and what it holds are sums over this log.

* `Addition`, `Addition.added?`: a request, and what it adds if it is valid;
* `Log`, `Log.total`, `Log.rows`: the log, the sum of the amounts for a key, and the row of every key;
* `Store.limit`, `Answers`, `AnswersAll`: the answers to requests, by the log and the digits that can be written;
* `Store.Holds`: a store holds the rows of a log;
* `Store.Holds.addition`, `Store.Holds.additions`: a store does as the log says.
-/

namespace LanguageUsage

/-! ### Requests -/

/-- A request to add to a count, as it is given. -/
structure Addition where
  tag : Value
  kind : GivenKind
  delta : Value

namespace Addition

variable {a : Addition} {key : String × SignalKind} {n : Int}

def operation (a : Addition) : Operation := .upsert a.tag a.kind a.delta

/-- The request, if it passes the check. -/
def checked (a : Addition) : Except Fault Increment := Increment.ofGiven a.tag a.kind a.delta

/-- What a valid request adds: its tag is a text and not blank, its kind is proper, and its amount is a whole number
and at least one. -/
def added? (a : Addition) : Option ((String × SignalKind) × Int) :=
  match a.tag, a.kind, a.delta.number? with
  | .text tag, .kind k, some (.whole n) => if Text.isBlank tag = false ∧ 1 ≤ n then some ((tag, k), n) else none
  | _, _, _ => none

/-- What an invalid request is refused for. The amount is looked at last, and then something that is no number cannot
be compared. -/
def refusal (a : Addition) : Fault.Category :=
  match a.tag, a.kind, a.delta.number? with
  | .text tag, .kind _, none => if Text.isBlank tag then .invalidValue else .wrongType
  | _, _, _ => .invalidValue

/-- The amount is a whole number, or no number at all. -/
def Exact (a : Addition) : Prop := ∀ x, a.delta.number? ≠ some (.real x)

/-- A valid request passes the check. -/
theorem checked_of_added?_eq_some (h : a.added? = some (key, n)) :
    ∃ i, a.checked = .ok i ∧ i.key = key ∧ i.delta = .whole n ∧ 1 ≤ n := by
  unfold added? at h
  split at h
  · next tag k m htag hkind hdelta =>
    split at h
    · next hvalid =>
      cases h
      obtain ⟨i, hgiven, hkey, hi⟩ := Increment.ofGiven_proper hvalid.1 k hdelta hvalid.2
      refine ⟨i, ?_, hkey, hi, hvalid.2⟩
      rw [checked, htag, hkind, hgiven]
    · cases h
  · cases h

/-- Any other request is refused. -/
theorem checked_of_added?_eq_none (ha : a.Exact) (h : a.added? = none) :
    ∃ f, a.checked = .error f ∧ f.category = a.refusal := by
  obtain ⟨tag, kind, delta⟩ := a
  cases tag with
  | text t =>
    cases hblank : Text.isBlank t with
    | true =>
      refine ⟨.blankTag, by simp [checked, Increment.ofGiven, hblank], ?_⟩
      cases kind <;> cases hdelta : delta.number? <;> simp [refusal, hblank, hdelta, Fault.category]
    | false =>
      cases kind with
      | other v =>
        exact ⟨.unknownKind v, by simp [checked, Increment.ofGiven, hblank], rfl⟩
      | kind k =>
        cases hdelta : delta.number? with
        | none =>
          refine ⟨.incomparableDelta delta, by simp [checked, Increment.ofGiven, hblank, Increment.ofDelta, hdelta], ?_⟩
          simp [refusal, hblank, hdelta, Fault.category]
        | some n =>
          cases n with
          | real x => exact absurd hdelta (ha x)
          | whole n =>
            have hn : n < 1 := by
              simp only [added?, hdelta, hblank, true_and] at h
              split at h
              · cases h
              · omega
            refine ⟨.deltaBelowOne delta, ?_, by simp [refusal, hdelta, Fault.category]⟩
            simp [checked, Increment.ofGiven, hblank, Increment.ofDelta, hdelta, hn]
  | _ => exact ⟨.blankTag, rfl, rfl⟩

end Addition

/-! ### Logs -/

/-- Keys with what was added to each, in order. -/
abbrev Log := List ((String × SignalKind) × Int)

namespace Log

variable {L L' : Log} {key : String × SignalKind} {n : Int}

/-- All that was added to a key. -/
def total (L : Log) (key : String × SignalKind) : Int := ((L.filter fun e => e.1 = key).map Prod.snd).sum

/-- The keys in the order in which they came first. -/
def keys (L : Log) : List (String × SignalKind) := (L.map Prod.fst).eraseDups

/-- The row of every key. -/
def rows (L : Log) : List Row := L.keys.map fun key => ⟨key.1, key.2, .whole (L.total key)⟩

/-- The log of some requests. -/
def ofAdditions (as : List Addition) : Log := as.filterMap Addition.added?

theorem total_append (L L' : Log) (key : String × SignalKind) : (L ++ L').total key = L.total key + L'.total key := by
  simp [total]

theorem total_singleton (key key' : String × SignalKind) (n : Int) :
    total [(key, n)] key' = if key = key' then n else 0 := by
  by_cases h : key = key' <;> simp [total, h]

theorem total_eq_zero (h : key ∉ L.map Prod.fst) : L.total key = 0 := by
  have hnone : L.filter (fun e => e.1 = key) = [] := by
    rw [List.filter_eq_nil_iff]
    intro e he hkey
    exact h (List.mem_map.2 ⟨e, he, by simpa using hkey⟩)
  rw [total, hnone]
  rfl

theorem mem_keys : key ∈ L.keys ↔ key ∈ L.map Prod.fst := List.mem_eraseDups

theorem keys_concat (L : Log) (key : String × SignalKind) (n : Int) :
    keys (L ++ [(key, n)]) = if key ∈ L.keys then L.keys else L.keys ++ [key] := by
  simp only [keys, List.map_append, List.map_singleton, eraseDups_concat, List.mem_eraseDups]

/-- Every amount is at least one. -/
def Positive (L : Log) : Prop := ∀ e ∈ L, 1 ≤ e.2

theorem Positive.total_nonneg (h : L.Positive) (key : String × SignalKind) : 0 ≤ L.total key := by
  induction L with
  | nil => exact Int.le_refl 0
  | cons e L ih =>
    obtain ⟨he, hL⟩ := List.forall_mem_cons.1 h
    have hrest := ih hL
    have hcons : total (e :: L) key = (if e.1 = key then e.2 else 0) + total L key := by
      rw [← total_singleton, ← total_append]
      rfl
    rw [hcons]
    split <;> omega

theorem Positive.append (h : L.Positive) (h' : L'.Positive) : Positive (L ++ L') := by
  intro e he
  exact (List.mem_append.1 he).elim (h e) (h' e)

theorem ofAdditions_append (as bs : List Addition) : ofAdditions (as ++ bs) = ofAdditions as ++ ofAdditions bs :=
  List.filterMap_append

theorem positive_ofAdditions (as : List Addition) : (ofAdditions as).Positive := by
  rintro ⟨key, n⟩ he
  obtain ⟨a, -, ha⟩ := List.mem_filterMap.1 he
  obtain ⟨-, -, -, -, hn⟩ := Addition.checked_of_added?_eq_some ha
  exact hn

end Log

/-- How many digits a count may have where a store writes it. A count in a column is never written in digits. -/
def Store.limit : Store → Option Nat
  | .memory s => s.digits
  | .database _ => none

/-- A sum as an answer, if it can be written. -/
def Reply.ofSum (limit : Option Nat) (n : Int) : Except Fault Reply :=
  if (Number.whole n).isWritable limit then .ok (.count (.whole n)) else .error .unwritable

/-- What is answered to a request when the valid ones before it are in the log `L`: to a valid one the sum for its key
with its own amount, if this can be written, and to another one that it is refused. -/
def Answers (limit : Option Nat) (L : Log) (a : Addition) (r : Except Fault Reply) : Prop :=
  match a.added? with
  | some (key, n) => r = Reply.ofSum limit (L.total key + n)
  | none => ∃ f, r = .error f ∧ f.category = a.refusal

/-- What is answered to requests one after another. -/
def AnswersAll (limit : Option Nat) (L : Log) : List Addition → List (Except Fault Reply) → Prop
  | [], [] => True
  | a :: as, r :: rs => Answers limit L a r ∧ AnswersAll limit (L ++ Log.ofAdditions [a]) as rs
  | _, _ => False

/-! ### The stores -/

namespace MemoryStore

variable {limit : Option Nat} {L : Log} {key : String × SignalKind} {n : Int}

/-- The store that holds the rows of a log. -/
def ofLog (limit : Option Nat) (L : Log) : MemoryStore where
  counters := L.keys.map fun key => (key, .whole (L.total key))
  digits := limit

theorem map_logged (s : MemoryStore) (n : Int) : (s.logged (.whole n)).map Reply.count = Reply.ofSum s.digits n := by
  rw [logged, Reply.ofSum]
  split <;> rfl

theorem rows_ofLog (limit : Option Nat) (L : Log) : (ofLog limit L).rows = L.rows := by
  simp [rows, ofLog, Log.rows]

theorem get?_ofLog (limit : Option Nat) (L : Log) (key : String × SignalKind) :
    ((ofLog limit L).counters.get? key).getD (.whole 0) = .whole (L.total key) := by
  rw [ofLog, Counters.get?_map fun key => Number.whole (L.total key)]
  by_cases hkey : key ∈ L.map Prod.fst
  · rw [if_pos (Log.mem_keys.2 hkey), Option.getD_some]
  · rw [if_neg (mt Log.mem_keys.1 hkey), Option.getD_none, Log.total_eq_zero hkey]

/-- A write of the new sum is one more entry of the log. -/
theorem put_ofLog (limit : Option Nat) (L : Log) (key : String × SignalKind) (n : Int) :
    { ofLog limit L with counters := (ofLog limit L).counters.put key (.whole (L.total key + n)) } =
      ofLog limit (L ++ [(key, n)]) := by
  have hput := Counters.put_map (fun key => Number.whole (L.total key)) key
    (nodup_eraseDups (L.map Prod.fst)) (.whole (L.total key + n))
  have htotal : ∀ key', Number.whole (Log.total (L ++ [(key, n)]) key') =
      if key' = key then .whole (L.total key + n) else .whole (L.total key') := by
    intro key'
    rw [Log.total_append, Log.total_singleton]
    by_cases hkey : key' = key
    · rw [if_pos hkey, if_pos hkey.symm, hkey]
    · rw [if_neg hkey, if_neg (Ne.symm hkey), Int.add_zero]
  simp only [ofLog]
  rw [← Log.keys] at hput
  rw [hput]
  simp only [htotal, Log.keys_concat, Log.mem_keys]

theorem upsert_ofLog (limit : Option Nat) (L : Log) (a : Addition) : (ofLog limit L).upsert a.tag a.kind a.delta =
    match a.checked with
    | .error f => (ofLog limit L, .error f)
    | .ok i => (ofLog limit L).apply i := by
  have hrefuses : (ofLog limit L).refuses a.tag = false := by
    cases a.tag <;> simp [refuses, ofLog]
  rw [upsert, hrefuses]
  rfl

end MemoryStore

/-- Every sum of the log is in the range of a column of counts, if the store is a database. -/
def Store.Within : Store → Log → Prop
  | .memory _, _ => True
  | .database _, L => ∀ key, L.total key ≤ 2 ^ 63 - 1

theorem Store.Within.of_append {s : Store} {L L' : Log} (h : s.Within (L ++ L')) (hL' : L'.Positive) :
    s.Within L := by
  cases s with
  | memory s => trivial
  | database d =>
    intro key
    have hle := h key
    have hnonneg := hL'.total_nonneg key
    rw [Log.total_append] at hle
    omega

/-- A store holds the rows of a log. -/
inductive Store.Holds : Store → Log → Prop
  | memory {limit : Option Nat} {L : Log} : Holds (.memory (.ofLog limit L)) L
  | database {L : Log} {d : DatabaseStore} (h : Agree (.ofLog none L) d) : Holds (.database d) L

namespace Store.Holds

variable {s : Store} {L : Log} {a : Addition} {as : List Addition}

theorem rows (h : s.Holds L) : s.rows = .ok L.rows := by
  cases h with
  | memory => exact congrArg Except.ok (MemoryStore.rows_ofLog _ L)
  | database h => exact h.rows.trans (congrArg Except.ok (MemoryStore.rows_ofLog _ L))

/-- An invalid request is refused, and changes nothing. -/
theorem perform_of_checked_error (h : s.Holds L) {f : Fault} (hf : a.checked = .error f) :
    s.perform a.operation = (s, .error f) := by
  cases h with
  | memory =>
    rw [Addition.operation, Store.perform, Store.upsert, MemoryStore.upsert_ofLog, hf]
    rfl
  | @database _ d h =>
    have hupsert : d.upsert a.tag a.kind a.delta = (d, .error f) := by
      rw [Addition.checked] at hf
      rw [DatabaseStore.upsert, hf]
    rw [Addition.operation, Store.perform, Store.upsert, hupsert]
    rfl

/-- A valid request adds an entry to the log, and is answered with the new sum if this can be written. -/
theorem perform_of_checked_ok (h : s.Holds L) (hL : L.Positive) {i : Increment} {n : Int} (hi : a.checked = .ok i)
    (hn : i.delta = .whole n) (hwithin : s.Within (L ++ [(i.key, n)])) :
    ∃ s', s.perform a.operation = (s', Reply.ofSum s.limit (L.total i.key + n)) ∧ s'.Holds (L ++ [(i.key, n)]) ∧
      s'.limit = s.limit ∧ ∀ L', s.Within L' → s'.Within L' := by
  cases h with
  | @memory limit =>
    have happly : (MemoryStore.ofLog limit L).apply i =
        (.ofLog limit (L ++ [(i.key, n)]), (MemoryStore.ofLog limit L).logged (.whole (L.total i.key + n))) := by
      rw [MemoryStore.apply, MemoryStore.get?_ofLog, hn, Number.add?_whole]
      simp only [MemoryStore.put_ofLog]
    refine ⟨.memory (.ofLog limit (L ++ [(i.key, n)])), ?_, .memory, rfl, fun _ _ => trivial⟩
    rw [Addition.operation, Store.perform, Store.upsert, MemoryStore.upsert_ofLog, hi]
    simp only [happly, MemoryStore.map_logged]
    rfl
  | @database _ d h =>
    have hsum : L.total i.key + n ≤ 2 ^ 63 - 1 := by
      have hle := hwithin i.key
      rwa [Log.total_append, Log.total_singleton, if_pos rfl] at hle
    obtain ⟨-, hadd⟩ := h.apply hn (hL.total_nonneg i.key) (MemoryStore.get?_ofLog none L i.key) (by omega)
    let d' : DatabaseStore :=
      { d with medium := .table (.ofCounters (MemoryStore.ofLog none (L ++ [(i.key, n)])).counters) }
    have hupsert : d.upsert a.tag a.kind a.delta = (d', .ok (.whole (L.total i.key + n))) := by
      rw [Addition.checked] at hi
      rw [DatabaseStore.upsert, hi]
      simp only [h.connected, if_true, hadd, d', ← MemoryStore.put_ofLog]
    refine ⟨.database d', ?_, .database ⟨rfl, h.digits, h.connected, rfl⟩, rfl, fun _ hs => hs⟩
    rw [Addition.operation, Store.perform, Store.upsert, hupsert]
    rfl

/-- **A request does as the log says.** -/
theorem addition (h : s.Holds L) (hL : L.Positive) (ha : a.Exact) (hwithin : s.Within (L ++ Log.ofAdditions [a])) :
    ∃ s' r, s.perform a.operation = (s', r) ∧ s'.Holds (L ++ Log.ofAdditions [a]) ∧ Answers s.limit L a r ∧
      s'.limit = s.limit ∧ ∀ L', s.Within L' → s'.Within L' := by
  cases hentry : a.added? with
  | none =>
    obtain ⟨f, hchecked, hf⟩ := Addition.checked_of_added?_eq_none ha hentry
    have hlog : L ++ Log.ofAdditions [a] = L := by simp [Log.ofAdditions, hentry]
    rw [hlog]
    refine ⟨s, _, h.perform_of_checked_error hchecked, h, ?_, rfl, fun _ hs => hs⟩
    rw [Answers, hentry]
    exact ⟨f, rfl, hf⟩
  | some e =>
    obtain ⟨key, n⟩ := e
    obtain ⟨i, hchecked, rfl, hi, -⟩ := Addition.checked_of_added?_eq_some hentry
    have hlog : L ++ Log.ofAdditions [a] = L ++ [(i.key, n)] := by simp [Log.ofAdditions, hentry]
    rw [hlog] at hwithin ⊢
    obtain ⟨s', hperform, hs', hlimit, hstays⟩ := h.perform_of_checked_ok hL hchecked hi hwithin
    refine ⟨s', _, hperform, hs', ?_, hlimit, hstays⟩
    rw [Answers, hentry]

/-- **Requests one after another do as the log says.** -/
theorem additions (h : s.Holds L) (hL : L.Positive) (has : ∀ a ∈ as, a.Exact)
    (hwithin : s.Within (L ++ Log.ofAdditions as)) : ∃ s' rs, s.performAll (as.map Addition.operation) = (s', rs) ∧
      s'.Holds (L ++ Log.ofAdditions as) ∧ AnswersAll s.limit L as rs ∧ s'.limit = s.limit ∧
      ∀ L', s.Within L' → s'.Within L' := by
  induction as generalizing s L with
  | nil => exact ⟨s, [], rfl, by simpa [Log.ofAdditions] using h, trivial, rfl, fun _ hs => hs⟩
  | cons a as ih =>
    obtain ⟨ha, has⟩ := List.forall_mem_cons.1 has
    have hlog : Log.ofAdditions (a :: as) = Log.ofAdditions [a] ++ Log.ofAdditions as := Log.ofAdditions_append [a] as
    rw [hlog, ← List.append_assoc] at hwithin ⊢
    obtain ⟨s₁, r, hperform, hs₁, hr, hlimit, hstays⟩ :=
      h.addition hL ha (hwithin.of_append (Log.positive_ofAdditions as))
    obtain ⟨s₂, rs, hperformAll, hs₂, hrs, hlimit', hstays'⟩ :=
      ih hs₁ (hL.append (Log.positive_ofAdditions [a])) has (hstays _ hwithin)
    rw [hlimit] at hrs hlimit'
    refine ⟨s₂, r :: rs, ?_, hs₂, ⟨hr, hrs⟩, hlimit', fun L' hs => hstays' L' (hstays L' hs)⟩
    rw [List.map_cons, Store.performAll, hperform]
    simp only [hperformAll]

end Store.Holds

end LanguageUsage
