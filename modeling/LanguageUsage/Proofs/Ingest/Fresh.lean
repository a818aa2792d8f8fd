import LanguageUsage.Proofs.Ingest.Report

/-!
# Calls that are no replays

What is counted of a call that is no replay depends on the languages that it finds: not on its notification, the times
of its messages or the settings of the updater. An updater that remembers nothing takes no call for a replay, and
neither does one that skips none.

* `Call.addTo`: a store after a call was counted in it;
* `Updater.store_perform_of_not_replay`: this is what becomes of the store of an updater;
* `Updater.replay?_of_memory_eq_nil`: an updater that remembers nothing takes no call for a replay;
* `Updater.store_performAll_of_not_suppresses`: nor does one that skips none, in a whole run;
* `Medium.Becomes`, `Call.foldl_addTo_database`: what becomes of a database.
-/

namespace LanguageUsage

variable {u : Updater} {c : Call}

/-! ### Counting a call -/

/-- A store after a call was counted in it. -/
def Call.addTo (s : Store) (c : Call) : Store :=
  match c.found.2 with
  | .error _ => s
  | .ok tags => (Updater.incrementEach c.kind s (firstOccurrences tags)).1

/-- The notification of a request can be a key if the default can. -/
theorem Request.isKey_key {default : Value} (h : default.isKey = true) (r : Request) :
    (r.key default).isKey = true := by
  rw [key]
  split
  · rfl
  · exact h

/-- The notification of a request can be written; a list of tags has none. -/
def Call.isKeyWritable : Call → Bool
  | .classify _ => true
  | .converse request _ => request.isKeyWritable

/-- Of a conversation request the texts of the messages are counted. -/
theorem Call.addTo_converse_congr {r r' : Request} (h : r'.messages.map Message.text = r.messages.map Message.text)
    (d : Detector) (s : Store) : addTo s (.converse r' d) = addTo s (.converse r d) := by
  have htexts : ∀ r : Request, r.texts = (r.messages.map Message.text).filterMap fun text =>
      if Message.isBlank { text := text } then none else text := fun r => by
    rw [List.filterMap_map]
    rfl
  have hsame : r'.texts = r.texts := by rw [htexts, htexts, h]
  rw [addTo, addTo, found, found, hsame]
  rfl

namespace Updater

/-- What is counted of a call that is no replay. -/
theorem store_perform_of_not_replay (h : u.replay? c = .ok false) : (u.perform c).updater.store = c.addTo u.store := by
  rw [perform_eq, h, Call.addTo]
  cases c.found.2 with
  | error f => rfl
  | ok tags =>
    simp only
    split
    · rfl
    · exact store_note _ _

/-- An updater that remembers nothing takes no call for a replay, whatever its settings are. -/
theorem replay?_of_memory_eq_nil (hmemory : u.memory = []) (hkey : u.policy.defaultKey.isKey = true)
    (hc : c.isKeyWritable = true) : u.replay? c = .ok false := by
  cases c with
  | classify tags => rfl
  | converse request d =>
    have hwritable : request.isKeyWritable = true := hc
    have hnever : ∀ key latest, u.memory.isReplay key latest = false := fun key latest => by
      rw [hmemory]
      cases latest <;> rfl
    rw [replay?, isReplay, hwritable, Request.isKey_key hkey, hnever]
    cases u.suppresses <;> rfl

/-- An updater that skips no replays counts every call whose notification can be written. -/
theorem store_performAll_of_not_suppresses (hs : u.suppresses = false) {cs : List Call}
    (hcs : ∀ c ∈ cs, c.isKeyWritable = true) : (u.performAll cs).1.store = cs.foldl Call.addTo u.store := by
  induction cs generalizing u with
  | nil => rfl
  | cons c cs ih =>
    obtain ⟨hc, hcs⟩ := List.forall_mem_cons.1 hcs
    have hreplay : u.replay? c = .ok false := by
      cases c with
      | classify tags => rfl
      | converse request d =>
        have hwritable : request.isKeyWritable = true := hc
        simp [replay?, isReplay, hs, hwritable]
    rw [performAll, List.foldl_cons, ← store_perform_of_not_replay hreplay]
    exact ih ((suppresses_perform u c).trans hs) hcs

end Updater

/-! ### Databases -/

/-- What a medium can become by increments: a table has other rows, and nothing else changes. -/
inductive Medium.Becomes : Medium → Medium → Prop
  | table (rows rows' : Table) : Becomes (.table rows) (.table rows')
  | same (m : Medium) : Becomes m m

theorem Medium.Becomes.trans {m m' m'' : Medium} (h : m.Becomes m') (h' : m'.Becomes m'') : m.Becomes m'' := by
  cases h with
  | same => exact h'
  | table rows rows' => cases h' <;> exact .table _ _

theorem Medium.becomes_add (m : Medium) (i : Increment) : m.Becomes (m.add i).1 := by
  rcases m.add_cases i with ⟨f, hadd⟩ | ⟨t, n, rfl, hadd⟩ <;> rw [hadd]
  · exact .same m
  · exact .table _ _

theorem DatabaseStore.upsert_fst (d : DatabaseStore) (tag : Value) (kind : GivenKind) (delta : Value) :
    ∃ m, (d.upsert tag kind delta).1 = { d with medium := m } ∧ d.medium.Becomes m := by
  rw [upsert]
  split
  · exact ⟨d.medium, rfl, .same _⟩
  · split
    · next i _ _ => exact ⟨(d.medium.add i).1, rfl, d.medium.becomes_add i⟩
    · exact ⟨d.medium, rfl, .same _⟩

theorem Updater.incrementEach_database (k : SignalKind) (d : DatabaseStore) (ts : List String) :
    ∃ m, (incrementEach k (.database d) ts).1 = .database { d with medium := m } ∧ d.medium.Becomes m := by
  induction ts generalizing d with
  | nil => exact ⟨d.medium, rfl, .same _⟩
  | cons t ts ih =>
    obtain ⟨m, hm, hbecomes⟩ := d.upsert_fst (.text t) (.kind k) (.whole 1)
    cases hup : d.upsert (.text t) (.kind k) (.whole 1) with
    | mk d' r =>
      rw [hup] at hm
      obtain rfl : d' = _ := hm
      cases r with
      | error f =>
        simp only [incrementEach, Store.upsert, hup]
        exact ⟨m, rfl, hbecomes⟩
      | ok n =>
        obtain ⟨m', hm', hbecomes'⟩ := ih { d with medium := m }
        simp only [incrementEach, Store.upsert, hup]
        exact ⟨m', hm', hbecomes.trans hbecomes'⟩

/-- A database in which a call was counted is the same but for its table. -/
theorem Call.addTo_database (d : DatabaseStore) (c : Call) :
    ∃ m, c.addTo (.database d) = .database { d with medium := m } ∧ d.medium.Becomes m := by
  rw [addTo]
  split
  · exact ⟨d.medium, rfl, .same _⟩
  · exact Updater.incrementEach_database c.kind d _

theorem Call.foldl_addTo_database (d : DatabaseStore) (cs : List Call) :
    ∃ m, cs.foldl addTo (.database d) = .database { d with medium := m } ∧ d.medium.Becomes m := by
  induction cs generalizing d with
  | nil => exact ⟨d.medium, rfl, .same _⟩
  | cons c cs ih =>
    obtain ⟨m, hm, hbecomes⟩ := addTo_database d c
    obtain ⟨m', hm', hbecomes'⟩ := ih { d with medium := m }
    exact ⟨m', by rw [List.foldl_cons, hm, hm'], hbecomes.trans hbecomes'⟩

end LanguageUsage
