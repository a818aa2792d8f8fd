import LanguageUsage.Proofs.Conversation.Calendar
import LanguageUsage.Proofs.Conversation.Omission
import Mathlib.Data.List.Induction

/-!
# The newest message of a request

A request is as new as the newest of its messages. Of several messages at the same point in time the first one is
meant, with the offset of its clock.

* `FirstNewest`, `firstNewest_foldl_later`: the first of the newest moments in a list;
* `Request.IsNewest`: a message is as new as any other;
* `Request.exists_of_latest`: the newest time is that of the first such message;
* `Request.latest_first_newest`: what the newest time is, and how points in time are ordered.
-/

namespace LanguageUsage

/-! ### Moments -/

/-- The moments before it in the list are older, and those after it are not newer. -/
def FirstNewest (ms : List Moment) (t : Moment) : Prop :=
  ∃ before after, ms = before ++ t :: after ∧ (∀ n ∈ before, n.instant < t.instant) ∧
    ∀ n ∈ after, n.instant ≤ t.instant

theorem FirstNewest.instant_le {ms : List Moment} {t n : Moment} (h : FirstNewest ms t) (hn : n ∈ ms) :
    n.instant ≤ t.instant := by
  obtain ⟨before, after, rfl, hbefore, hafter⟩ := h
  rcases List.mem_append.1 hn with hn | hn
  · exact Int.le_of_lt (hbefore n hn)
  · rcases List.mem_cons.1 hn with rfl | hn
    · exact Int.le_refl _
    · exact hafter n hn

/-- Whoever goes through moments and keeps the later one, ends with the first of the newest. -/
theorem firstNewest_foldl_later (m : Moment) (ms : List Moment) :
    FirstNewest (m :: ms) (ms.foldl Request.later m) := by
  induction ms using List.reverseRecOn with
  | nil => exact ⟨[], [], rfl, List.forall_mem_nil _, List.forall_mem_nil _⟩
  | append_singleton ms n ih =>
    rw [List.foldl_append, List.foldl_cons, List.foldl_nil, ← List.cons_append, Request.later]
    split
    · next hlt => exact ⟨m :: ms, [], rfl, fun k hk => Int.lt_of_le_of_lt (ih.instant_le hk) hlt, List.forall_mem_nil _⟩
    · next hnot =>
      obtain ⟨before, after, hsplit, hbefore, hafter⟩ := ih
      refine ⟨before, after ++ [n], by rw [hsplit, List.append_assoc, List.cons_append], hbefore, fun k hk => ?_⟩
      rcases List.mem_append.1 hk with hk | hk
      · exact hafter k hk
      · exact List.mem_singleton.1 hk ▸ Int.not_lt.1 hnot

/-! ### Messages -/

namespace Request

variable {r : Request} {t : Moment}

/-- The message has a time, and no message of the request has a newer one. -/
def IsNewest (r : Request) (m : Message) : Prop :=
  ∃ t, m.time = some t ∧ ∀ n ∈ r.messages, ∀ s, n.time = some s → s.instant ≤ t.instant

theorem mem_times {m : Message} {s : Moment} (hm : m ∈ r.messages) (hs : m.time = some s) : s.withOffset ∈ r.times :=
  List.mem_filterMap.2 ⟨m, hm, by rw [hs, Option.map_some]⟩

theorem firstNewest_of_latest (h : r.latest = some t) : FirstNewest r.times t := by
  unfold latest at h
  split at h
  · cases h
  · next m ms htimes =>
    obtain rfl := Option.some.inj h
    rw [htimes]
    exact firstNewest_foldl_later m ms

/-- The newest time is that of the first of the newest messages. -/
theorem exists_of_latest (h : r.latest = some t) : ∃ before m after, r.messages = before ++ m :: after ∧
    m.time.map Moment.withOffset = some t ∧ r.IsNewest m ∧ ∀ n ∈ before, ¬ r.IsNewest n := by
  have hfirst := firstNewest_of_latest h
  have hnewest : ∀ n ∈ r.messages, ∀ s, n.time = some s → s.instant ≤ t.instant := by
    intro n hn s hs
    rw [← s.instant_withOffset]
    exact hfirst.instant_le (mem_times hn hs)
  -- the place of the time among the times is that of its message among the messages
  obtain ⟨olds, news, htimes, hold, -⟩ := hfirst
  obtain ⟨ms, rest, hsplit, hms, hrest⟩ := List.filterMap_eq_append_iff.1 htimes
  obtain ⟨untimed, m, after, hsplit', huntimed, hm, -⟩ := List.filterMap_eq_cons_iff.1 hrest
  refine ⟨ms ++ untimed, m, after, by rw [hsplit, hsplit', List.append_assoc], hm, ?_, ?_⟩
  · obtain ⟨s, hs, rfl⟩ := Option.map_eq_some_iff.1 hm
    exact ⟨s, hs, hnewest⟩
  · rintro n hn ⟨s, hs, hall⟩
    rcases List.mem_append.1 hn with hn | hn
    · -- one that stands before it is older
      have hlt := hold s.withOffset (hms ▸ List.mem_filterMap.2 ⟨n, hn, by rw [hs, Option.map_some]⟩)
      obtain ⟨s', hs', rfl⟩ := Option.map_eq_some_iff.1 hm
      have hmem : m ∈ r.messages := by
        rw [hsplit, hsplit']
        simp
      exact Int.not_le.2 hlt (hall m hmem s' hs')
    · have hnone := huntimed n hn
      rw [hs] at hnone
      cases hnone

/-- **The newest time of a request.** There is none exactly if no message has a time. Otherwise it is the time of the
first message, blank or not, that has a time and is as new as every other one; a time without an offset is read as
universal time.

How new messages are is decided by points in time, which count every day of the calendar. On clocks that are set alike
they are ordered like year, month, day, hour, minute, second and microsecond, the first difference deciding. -/
theorem latest_first_newest (r : Request) :
    (r.latest = none ↔ ∀ m ∈ r.messages, m.time = none) ∧
    (∀ t, r.latest = some t ↔ ∃ before m after, r.messages = before ++ m :: after ∧
      m.time.map Moment.withOffset = some t ∧ r.IsNewest m ∧ ∀ n ∈ before, ¬ r.IsNewest n) ∧
    (∀ m n : Moment, m.Valid → n.Valid → m.offset.getD 0 = n.offset.getD 0 →
      (m.instant < n.instant ↔ m.fields < n.fields) ∧ (m.instant = n.instant ↔ m.fields = n.fields)) ∧
    ∀ y m d, IsDate y m d →
      daysBefore (dayAfter y m d).1 (dayAfter y m d).2.1 (dayAfter y m d).2.2 = daysBefore y m d + 1 := by
  have hnone : r.latest = none ↔ ∀ m ∈ r.messages, m.time = none :=
    Option.map_eq_none_iff.symm.trans latest_map_instant_eq_none_iff
  refine ⟨hnone, fun t => ⟨exists_of_latest, ?_⟩, fun m n hm hn hoffset =>
    ⟨Moment.instant_lt_iff_fields hm hn hoffset, Moment.instant_eq_iff_fields hm hn hoffset⟩, fun y m d => daysBefore_dayAfter⟩
  classical
  -- there is one first message of those that are newest
  have hfind : ∀ {before m after}, r.messages = before ++ m :: after → r.IsNewest m → (∀ n ∈ before, ¬ r.IsNewest n) →
      r.messages.find? (fun n => r.IsNewest n) = some m := fun {before m after} hsplit hm hbefore =>
    List.find?_eq_some_iff_append.2 ⟨by simpa using hm, before, after, hsplit, by simpa using hbefore⟩
  rintro ⟨before, m, after, hsplit, hm, hnewest, hbefore⟩
  cases hlatest : r.latest with
  | none =>
    rw [hnone.1 hlatest m (hsplit ▸ List.mem_append_right _ List.mem_cons_self)] at hm
    cases hm
  | some t' =>
    obtain ⟨before', m', after', hsplit', hm', hnewest', hbefore'⟩ := exists_of_latest hlatest
    have hsame := (hfind hsplit hnewest hbefore).symm.trans (hfind hsplit' hnewest' hbefore')
    rw [← hm', ← hm, Option.some.inj hsame]

/-- Around the end of a leap day: the time with an offset is as new as the one without, which stands behind it. -/
theorem latest_first_newest_around_leap_day :
    let early : Moment := ⟨2024, 2, 29, 23, 59, 59, 999999, none⟩
    let late : Moment := ⟨2024, 3, 1, 0, 0, 0, 0, none⟩
    let shifted : Moment := ⟨2024, 2, 29, 19, 0, 0, 0, some (-18000)⟩
    let request : Request := { messages := [{ text := some "a" }, { text := some "b", time := some early },
      { text := some " ", time := some shifted }, { text := some "c", time := some late }] }
    early.Valid ∧ late.Valid ∧ early.fields < late.fields ∧ early.instant < late.instant ∧
      shifted.instant = late.instant ∧ ∃ before m after, request.messages = before ++ m :: after ∧
        m.time.map Moment.withOffset = some shifted ∧ request.IsNewest m ∧ ∀ n ∈ before, ¬ request.IsNewest n := by
  intro early late shifted request
  have hearly : early.Valid := ⟨⟨by decide, by decide⟩, by decide, by decide, by decide, by decide⟩
  have hlate : late.Valid := ⟨⟨by decide, by decide⟩, by decide, by decide, by decide, by decide⟩
  have hfields : early.fields < late.fields := by decide
  obtain ⟨-, hlatest, horder, -⟩ := latest_first_newest request
  exact ⟨hearly, hlate, hfields, (horder early late hearly hlate rfl).1.2 hfields, rfl, (hlatest shifted).1 rfl⟩

end Request

end LanguageUsage
