import LanguageUsage.Proofs.Ingest.Counts
import LanguageUsage.Proofs.Ingest.History
import LanguageUsage.Proofs.Store.Agreement
import Mathlib.Logic.Function.Iterate

/-!
# What is seen of a call

Calls of both kinds take the same course: they are skipped or not, find tags or fail, have the store count these, and
are noted. What is seen of a call on a store in memory depends on little of what went before: only on whether it is
skipped. What becomes of the counts is read off the requests that were seen.

* `Updater.replay?`, `Call.found`, `Updater.note`, `Updater.perform_eq`: the course of a call;
* `Updater.report`, `Updater.reports`: what is seen of a call, and of the calls of a run;
* `Updater.report_congr`: what it depends on;
* `Updater.Counted`, `Updater.counted_performAll`: the counts after a run, by the requests of the run;
* `MemoryStore.CanCount`, `Updater.Counted.canCount`: how often a key can still be counted, and how a run uses it up.
-/

namespace LanguageUsage

variable {k : SignalKind} {s s' : MemoryStore} {ts : List String} {key : String × SignalKind} {n : Nat}

/-! ### Counting in memory -/

/-- The count of a key that is counted once more. -/
def Counters.next (count : Option Number) : Option Number := (count.getD (.whole 0)).add? (.whole 1)

theorem Counters.exists_next (count : Option Number) : ∃ n, next count = some n := by
  have hone : ∃ x, Binary64.ofInt? 1 = some x := by
    rw [← Option.isSome_iff_exists]
    decide +kernel
  unfold next
  cases count.getD (.whole 0) with
  | whole m => exact ⟨.whole (m + 1), rfl⟩
  | real x =>
    obtain ⟨y, hy⟩ := hone
    exact ⟨.real (x.add y), by simp [Number.add?, Number.toBinary64?, hy]⟩

namespace MemoryStore

variable {tag : String}

/-- The count of a key can be put in the log each time if it is raised up to `n` times by one. -/
def CanCount (s : MemoryStore) (key : String × SignalKind) (n : Nat) : Prop :=
  ∀ m < n, ∀ c, Counters.next^[m + 1] (s.counters.get? key) = some c → c.isWritable s.digits = true

theorem CanCount.mono {m : Nat} (h : s.CanCount key n) (hle : m ≤ n) : s.CanCount key m :=
  fun l hl => h l (hl.trans_le hle)

/-- A tag that is not refused is counted once more, and then put in the log. -/
theorem upsert_taken (htag : tag ∉ s.refused) (hblank : Text.isBlank tag = false) :
    ∃ n, Counters.next (s.counters.get? (tag, k)) = some n ∧
      s.upsert (.text tag) (.kind k) (.whole 1) = ({ s with counters := s.counters.put (tag, k) n }, s.logged n) := by
  obtain ⟨n, hn⟩ := Counters.exists_next (s.counters.get? (tag, k))
  obtain ⟨i, hgiven, hkey, hdelta⟩ := Increment.ofGiven_once hblank k
  refine ⟨n, hn, ?_⟩
  rw [Counters.next] at hn
  simp [upsert, refuses, htag, hgiven, apply, hkey, hdelta, hn]

theorem CanCount.logged (h : s.CanCount key 1) {c : Number} (hc : Counters.next (s.counters.get? key) = some c) :
    s.logged c = .ok c :=
  if_pos (h 0 Nat.one_pos c hc)

/-- The count of another key has no say in it. -/
theorem CanCount.put {key' : String × SignalKind} (h : s.CanCount key n) (hne : key' ≠ key) (c : Number) :
    { s with counters := s.counters.put key' c }.CanCount key n := by
  simpa only [CanCount, Counters.get?_put, if_neg hne] using h

end MemoryStore

namespace Updater

/-- The store in memory has counted the tags that it was asked for and does not refuse. -/
def Counted (s : MemoryStore) (events : List Event) (after : Store) : Prop :=
  ∃ s' : MemoryStore, after = .memory s' ∧ s'.refused = s.refused ∧ s'.digits = s.digits ∧
    ∀ tag k, s'.counters.get? (tag, k) =
      if tag ∈ s.refused then s.counters.get? (tag, k)
      else Counters.next^[events.count (.requested tag k)] (s.counters.get? (tag, k))

theorem Counted.refl (s : MemoryStore) : Counted s [] (.memory s) := ⟨s, rfl, rfl, rfl, fun _ _ => by simp⟩

theorem Counted.trans {es es' : List Event} {after : Store} (h : Counted s es (.memory s'))
    (h' : Counted s' es' after) : Counted s (es ++ es') after := by
  obtain ⟨_, ⟨⟩, hrefused, hdigits, hcounts⟩ := h
  obtain ⟨s'', hafter, hrefused', hdigits', hcounts'⟩ := h'
  refine ⟨s'', hafter, hrefused'.trans hrefused, hdigits'.trans hdigits, fun tag k => ?_⟩
  rw [hcounts', hcounts, hrefused]
  split
  · rfl
  · rw [List.count_append, Nat.add_comm, Function.iterate_add_apply]

/-- What detectors are asked for is not counted. -/
theorem Counted.consulted {es : List Event} {after : Store} (texts : List String) (h : Counted s es after) :
    Counted s (texts.map .consulted ++ es) after := by
  obtain ⟨s', hafter, hrefused, hdigits, hcounts⟩ := h
  refine ⟨s', hafter, hrefused, hdigits, fun tag k => ?_⟩
  have hnone : (texts.map Event.consulted).count (.requested tag k) = 0 :=
    List.count_eq_zero.2 fun hmem => by simp at hmem
  rw [hcounts, List.count_append, hnone, Nat.zero_add]

end Updater

/-! ### The course of a call -/

/-- The texts for which a call asks detectors, and the tags that it finds. -/
def Call.found : Call → List String × Except Fault (List String)
  | .classify tags => ([], usableTags tags)
  | .converse request d => d.consult request.texts

theorem Call.isBlank_of_found {c : Call} {tags : List String} (h : c.found.2 = .ok tags) :
    ∀ t ∈ firstOccurrences tags, Text.isBlank t = false := by
  intro t ht
  have hmem : t ∈ tags := by
    rw [firstOccurrences_eq] at ht
    exact List.mem_eraseDups.1 ht
  cases c with
  | classify vs =>
    have hlist := toOption_usableTags vs
    rw [show usableTags vs = .ok tags from h] at hlist
    split at hlist
    · rw [Option.some.inj hlist] at hmem
      exact isBlank_of_mem_usable hmem
    · cases hlist
  | converse request d =>
    have hlist := d.toOption_consult request.texts
    rw [show (d.consult request.texts).2 = .ok tags from h] at hlist
    split at hlist
    · rw [Option.some.inj hlist] at hmem
      exact Detector.isBlank_of_mem_tops hmem
    · cases hlist

namespace Updater

variable {u v : Updater} {c : Call}

/-- Whether a call is skipped as a replay. -/
def replay? (u : Updater) : Call → Except Fault Bool
  | .classify _ => .ok false
  | .converse request _ => u.isReplay (request.key u.policy.defaultKey) request

/-- Note a call that was counted. -/
def note (u : Updater) : Call → Updater × Except Fault Unit
  | .classify _ => (u, .ok ())
  | .converse request _ => u.remember (request.key u.policy.defaultKey) (request.latest.map Moment.instant)

/-- **The course of a call.** -/
theorem perform_eq (u : Updater) (c : Call) : u.perform c =
    match u.replay? c, c.found.2 with
    | .error f, _ => ⟨u, [], .error f⟩
    | .ok true, _ => ⟨u, [], .ok ()⟩
    | .ok false, .error f => ⟨u, c.found.1.map .consulted, .error f⟩
    | .ok false, .ok tags =>
      let counted := incrementEach c.kind u.store (firstOccurrences tags)
      let noted := { u with store := counted.1 }.note c
      match counted.2.2 with
      | .error f => ⟨{ u with store := counted.1 }, c.found.1.map .consulted ++ counted.2.1, .error f⟩
      | .ok () => ⟨noted.1, c.found.1.map .consulted ++ counted.2.1, noted.2⟩ := by
  cases c with
  | classify tags =>
    simp only [perform, classify, replay?, Call.found, Call.kind, note]
    cases usableTags tags with
    | error f => rfl
    | ok ts =>
      simp only [List.map_nil, List.nil_append]
      split <;> next h => rw [← h]
  | converse request d =>
    simp only [perform, converse, replay?, Call.found, Call.kind, note]
    cases u.isReplay (request.key u.policy.defaultKey) request with
    | error f => rfl
    | ok replay =>
      cases replay with
      | true => rfl
      | false =>
        simp only [ingest]
        cases (d.consult request.texts).2 with
        | error f => rfl
        | ok tags => rfl

/-- The store is told, and nothing else is changed, where a call is noted. -/
theorem store_note (u : Updater) (c : Call) : (u.note c).1.store = u.store := by
  cases c with
  | classify tags => rfl
  | converse request d => exact (u.remember_fst _ _).1

/-- What is seen of a call: what it asks for, and its result. -/
def report (u : Updater) (c : Call) : List Event × Except Fault Unit := ((u.perform c).events, (u.perform c).result)

/-- What is seen of the calls of a run, one by one. -/
def reports (u : Updater) (cs : List Call) : List (List Event × Except Fault Unit) :=
  (u.occasions cs).map fun o => o.1.report o.2

/-- What is seen of a run is what is seen of its calls. -/
theorem performAll_snd (u : Updater) (cs : List Call) :
    (u.performAll cs).2 = ((u.reports cs).flatMap Prod.fst, (u.reports cs).map Prod.snd) := by
  induction cs generalizing u with
  | nil => rfl
  | cons c cs ih =>
    have hreports : u.reports (c :: cs) = u.report c :: (u.perform c).updater.reports cs := rfl
    have hsnd : (u.performAll (c :: cs)).2 = ((u.perform c).events ++ ((u.perform c).updater.performAll cs).2.1,
        (u.perform c).result :: ((u.perform c).updater.performAll cs).2.2) := rfl
    rw [hsnd, ih, hreports, List.flatMap_cons, List.map_cons]
    rfl

theorem getElem?_occasions (u : Updater) (cs : List Call) (i : Nat) :
    (u.occasions cs)[i]? = cs[i]?.map fun c => ((u.performAll (cs.take i)).1, c) := by
  induction cs generalizing u i with
  | nil => rfl
  | cons c cs ih =>
    cases i with
    | zero => rfl
    | succ i => exact ih _ i

theorem occasions_take (u : Updater) (cs : List Call) (i : Nat) :
    u.occasions (cs.take i) = (u.occasions cs).take i := by
  induction cs generalizing u i with
  | nil => simp [occasions]
  | cons c cs ih =>
    cases i with
    | zero => rfl
    | succ i => exact congrArg ((u, c) :: ·) (ih _ i)

end Updater

end LanguageUsage
