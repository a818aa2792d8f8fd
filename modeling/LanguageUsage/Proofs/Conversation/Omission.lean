import LanguageUsage.Conversation.Request
import Mathlib.Order.Lattice
import Mathlib.Tactic.Common

/-!
# Requests with messages left out

What is read off a request is read off the messages one by one: its newest time is the largest of theirs, its
notification the first that one of them names, its texts are theirs. So a message that has nothing to add can be
left out.

* `Message.instant?`, `latest_map_instant`: the newest time is a maximum;
* `LeavesOut`: a list of messages without some of them;
* `LeavesOut.declared_eq`, `LeavesOut.texts_eq`, `LeavesOut.latest_le`: what stays the same, and what does not grow.
-/

namespace LanguageUsage

/-- The point in time at which a message was sent, if it says so. -/
def Message.instant? (m : Message) : Option Int := m.time.map Moment.instant

theorem Message.instant?_eq_none_iff {m : Message} : m.instant? = none ↔ m.time = none := by
  simp [instant?]

/-! ### The newest time -/

namespace Request

theorem instant_later (m n : Moment) : (later m n).instant = max m.instant n.instant := by
  unfold later
  split
  · next h => rw [max_eq_right (Int.le_of_lt h)]
  · next h => rw [max_eq_left (Int.not_lt.1 h)]

theorem instant_foldl_later (m : Moment) (ms : List Moment) :
    (ms.foldl later m).instant = (ms.map Moment.instant).foldl max m.instant := by
  induction ms generalizing m with
  | nil => rfl
  | cons n ms ih => rw [List.foldl_cons, ih, instant_later, List.map_cons, List.foldl_cons]

theorem map_instant_times (r : Request) : r.times.map Moment.instant = r.messages.filterMap Message.instant? := by
  rw [times, List.map_filterMap]
  congr 1
  funext m
  simp [Message.instant?, Function.comp_def]

/-- The newest time of a request is the largest of the points in time of its messages. -/
theorem latest_map_instant (r : Request) :
    r.latest.map Moment.instant = (r.messages.filterMap Message.instant?).max? := by
  rw [← map_instant_times, latest]
  cases r.times with
  | nil => rfl
  | cons m ms => simp [instant_foldl_later, List.max?]

theorem latest_map_instant_eq_none_iff {r : Request} :
    r.latest.map Moment.instant = none ↔ ∀ m ∈ r.messages, m.time = none := by
  rw [latest_map_instant, List.max?_eq_none_iff, List.filterMap_eq_nil_iff]
  simp only [Message.instant?_eq_none_iff]

/-- The newest time is one of the times, and none of them is newer. -/
theorem latest_map_instant_eq_some_iff {r : Request} {t : Int} : r.latest.map Moment.instant = some t ↔
    (∃ m ∈ r.messages, m.instant? = some t) ∧ ∀ m ∈ r.messages, ∀ s, m.instant? = some s → s ≤ t := by
  rw [latest_map_instant, List.max?_eq_some_iff]
  simp only [List.mem_filterMap]
  exact and_congr_right fun _ => ⟨fun h m hm s hs => h s ⟨m, hm, hs⟩, fun h s ⟨m, hm, hs⟩ => h m hm s hs⟩

end Request

/-! ### Messages left out -/

/-- The second list is the first one without some messages that have the property `p`. -/
inductive LeavesOut (p : Message → Prop) : List Message → List Message → Prop
  | nil : LeavesOut p [] []
  | keep {ms ms' : List Message} (m : Message) (h : LeavesOut p ms ms') : LeavesOut p (m :: ms) (m :: ms')
  | drop {ms ms' : List Message} {m : Message} (hm : p m) (h : LeavesOut p ms ms') : LeavesOut p (m :: ms) ms'

namespace LeavesOut

variable {p : Message → Prop} {ms ms' : List Message}

theorem sublist (h : LeavesOut p ms ms') : ms'.Sublist ms := by
  induction h with
  | nil => exact .slnil
  | keep m h ih => exact ih.cons_cons m
  | drop hm h ih => exact ih.cons _

/-- What is read off each message is the same if there is nothing to be read off those that are left out. -/
theorem filterMap_eq {α : Type} (h : LeavesOut p ms ms') (f : Message → Option α) (hf : ∀ m, p m → f m = none) :
    ms'.filterMap f = ms.filterMap f := by
  induction h with
  | nil => rfl
  | keep m h ih => rw [List.filterMap_cons, List.filterMap_cons, ih]
  | drop hm h ih => rw [List.filterMap_cons_none (hf _ hm), ih]

variable {r : Request}

theorem declared_eq (h : LeavesOut p r.messages ms') (hp : ∀ m, p m → declaredKey m.extras = none) :
    Request.declared { r with messages := ms' } = r.declared := by
  have hfind : ms'.findSome? (fun m => declaredKey m.extras) = r.messages.findSome? fun m => declaredKey m.extras := by
    rw [← List.head?_filterMap, ← List.head?_filterMap, h.filterMap_eq _ hp]
  simp only [Request.declared, hfind]

theorem texts_eq (h : LeavesOut p r.messages ms') (hp : ∀ m, p m → m.isBlank = true) :
    Request.texts { r with messages := ms' } = r.texts := by
  refine h.filterMap_eq _ fun m hm => ?_
  simp [hp m hm]

/-- Without some messages a request is not newer. -/
theorem latest_le (h : LeavesOut p r.messages ms') {t : Int}
    (ht : (Request.latest { r with messages := ms' }).map Moment.instant = some t) :
    ∃ t', r.latest.map Moment.instant = some t' ∧ t ≤ t' := by
  obtain ⟨⟨m, hm, hmt⟩, -⟩ := Request.latest_map_instant_eq_some_iff.1 ht
  cases hlatest : r.latest.map Moment.instant with
  | none =>
    have hnone := Request.latest_map_instant_eq_none_iff.1 hlatest m (h.sublist.mem hm)
    rw [Message.instant?_eq_none_iff.2 hnone] at hmt
    cases hmt
  | some t' =>
    exact ⟨t', rfl, (Request.latest_map_instant_eq_some_iff.1 hlatest).2 m (h.sublist.mem hm) t hmt⟩

end LeavesOut

end LanguageUsage
