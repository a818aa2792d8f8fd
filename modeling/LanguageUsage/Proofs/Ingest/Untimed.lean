import LanguageUsage.Proofs.Conversation.Omission
import LanguageUsage.Proofs.Ingest.History

/-!
# Messages without a time

Whether a request is a replay is decided by the newest time of its messages. A message without a time has no say in
it: it is skipped together with the others if these are not newer than what was counted before.

* `Updater.skips_iff`: when a request is skipped;
* `Updater.untimed_kept_iff`: when a message without a time is not skipped, after any run;
* `Updater.untimed_message_skipped`: one that is.
-/

namespace LanguageUsage

theorem Message.exists_text {m : Message} (h : m.isBlank = false) : ∃ text, m.text = some text := by
  cases htext : m.text with
  | none => simp [isBlank, htext] at h
  | some text => exact ⟨text, rfl⟩

/-- The text of a message that is not blank is to be counted. -/
theorem Request.mem_texts {r : Request} {m : Message} {text : String} (hm : m ∈ r.messages)
    (hblank : m.isBlank = false) (htext : m.text = some text) : text ∈ r.texts :=
  List.mem_filterMap.2 ⟨m, hm, by simp [hblank, htext]⟩

namespace Updater

variable {u : Updater} {request : Request} {m : Message}

/-- A request is skipped if it has times, and none of them is newer than the one that is remembered. -/
theorem skips_iff (hs : u.suppresses = true) : u.skips request = true ↔
    request.isKeyed u.policy.defaultKey = true ∧
      ∃ last, u.memory.get? (request.key u.policy.defaultKey) = some last ∧
        (∃ n ∈ request.messages, n.time ≠ none) ∧ ∀ n ∈ request.messages, ∀ t, n.time = some t → t.instant ≤ last := by
  rw [skips, isReplay_eq hs]
  cases request.isKeyed u.policy.defaultKey with
  | false => simp
  | true =>
    cases hlast : u.memory.get? (request.key u.policy.defaultKey) with
    | none =>
      cases request.latest.map Moment.instant <;> simp [ReplayMemory.isReplay, hlast]
    | some last =>
      cases hlatest : request.latest.map Moment.instant with
      | none =>
        have hnone := Request.latest_map_instant_eq_none_iff.1 hlatest
        simpa [ReplayMemory.isReplay] using fun n hn htime => absurd (hnone n hn) htime
      | some t =>
        obtain ⟨⟨n, hn, hnt⟩, hmax⟩ := Request.latest_map_instant_eq_some_iff.1 hlatest
        obtain ⟨moment, hmoment, rfl⟩ := Option.map_eq_some_iff.1 hnt
        have htimed : ∃ n ∈ request.messages, n.time ≠ none := ⟨n, hn, by simp [hmoment]⟩
        have hle : moment.instant ≤ last ↔
            ∀ n ∈ request.messages, ∀ t, n.time = some t → t.instant ≤ last := by
          constructor
          · intro h n' hn' t ht
            exact (hmax n' hn' t.instant (by simp [Message.instant?, ht])).trans h
          · intro h
            exact h n hn moment hmoment
        simp only [ReplayMemory.isReplay, hlast, if_true, decide_eq_true_eq, hle, true_and, Option.some.injEq,
          exists_eq_left', htimed]

/-- **Messages without a time.** After any run of an updater that skips replays, a request with a message that is
not blank and has no time is not skipped if no other message has a time, or another one is newer than what is
remembered for the notification, or nothing is. Only then the text of the message is among those that are detected. -/
theorem untimed_kept_iff (hs : u.suppresses = true) (cs : List Call) (detector : Detector)
    (hm : m ∈ request.messages) (hblank : m.isBlank = false) (htime : m.time = none) :
    let v := (u.performAll cs).1
    let key := request.key u.policy.defaultKey
    (v.skips request = false ↔ request.isKeyed u.policy.defaultKey = false ∨ ∀ last, v.memory.get? key = some last →
      (∀ n ∈ request.messages, n ≠ m → n.time = none) ∨
        ∃ n ∈ request.messages, n ≠ m ∧ ∃ t, n.time = some t ∧ last < t.instant) ∧
    (v.skips request = true → v.converse request detector = ⟨v, [], .ok ()⟩) ∧
    (v.skips request = false → request.isKeyed u.policy.defaultKey = true →
      v.converse request detector = v.ingest key request detector ∧
        ∃ text, m.text = some text ∧ text ∈ request.texts) := by
  intro v key
  have hpolicy : v.policy = u.policy := u.policy_performAll cs
  have hsv : v.suppresses = true := by rw [suppresses, hpolicy, ← suppresses, hs]
  have hkey : request.key v.policy.defaultKey = key := by rw [hpolicy]
  refine ⟨?_, fun hskips => ?_, fun hskips hkeyed => ?_⟩
  · -- those that have a time are others
    have hother : ∀ n : Message, ∀ t, n.time = some t → n ≠ m := by
      rintro n t ht rfl
      rw [htime] at ht
      cases ht
    rw [← Bool.not_eq_true, skips_iff hsv, hkey, hpolicy]
    constructor
    · intro hnot
      by_cases hk : request.isKeyed u.policy.defaultKey = true
      · refine .inr fun last hlast => ?_
        by_cases hnewer : ∃ n ∈ request.messages, ∃ t, n.time = some t ∧ last < t.instant
        · obtain ⟨n, hn, t, ht, hlt⟩ := hnewer
          exact .inr ⟨n, hn, hother n t ht, t, ht, hlt⟩
        · refine .inl fun n hn _ => ?_
          by_contra hne
          refine hnot ⟨hk, last, hlast, ⟨n, hn, hne⟩, fun n' hn' t ht => ?_⟩
          exact Int.not_lt.1 fun hlt => hnewer ⟨n', hn', t, ht, hlt⟩
      · exact .inl (by simpa using hk)
    · rintro (hk | hall) ⟨hk', last, hlast, ⟨n, hn, hne⟩, hmax⟩
      · rw [hk] at hk'
        cases hk'
      · obtain ⟨t, ht⟩ := Option.ne_none_iff_exists'.1 hne
        rcases hall last hlast with hnone | ⟨n', hn', -, t', ht', hlt⟩
        · exact hne (hnone n hn (hother n t ht))
        · exact absurd (hmax n' hn' t' ht') (Int.not_le.2 hlt)
  · rw [converse_eq hsv, if_pos hskips]
  · obtain ⟨text, htext⟩ := Message.exists_text hblank
    refine ⟨?_, text, htext, Request.mem_texts hm hblank htext⟩
    rw [converse_eq hsv, hskips, hkey, hpolicy, hkeyed]
    rfl

/-- A message without a time is kept beside one that is newer than what was counted. -/
theorem untimed_kept_beside_newer :
    let u : Updater := { store := .memory {}, policy := { suppressReplays := .bool true } }
    let detector : Detector := { answer := fun _ => .value (.text "en") }
    let earlier : Request := { messages := [{ text := some "hi", time := some ⟨2026, 1, 2, 0, 0, 0, 0, none⟩ }] }
    let untimed : Message := { text := some "hello" }
    let request : Request :=
      { messages := [untimed, { text := some "hi", time := some ⟨2026, 1, 3, 0, 0, 0, 0, none⟩ }] }
    let v := (u.performAll [.converse earlier detector]).1
    u.suppresses = true ∧ untimed ∈ request.messages ∧ untimed.isBlank = false ∧ untimed.time = none ∧
      v.skips request = false ∧ ∃ text, untimed.text = some text ∧ text ∈ request.texts := by
  intro u detector earlier untimed request v
  have hblank : untimed.isBlank = false := by decide +kernel
  have hskips : v.skips request = false := by decide +kernel
  have hmem : untimed ∈ request.messages := List.mem_cons_self
  have hkept := untimed_kept_iff (u := u) (m := untimed) rfl [.converse earlier detector] detector hmem hblank rfl
  exact ⟨rfl, hmem, hblank, rfl, hskips, (hkept.2.2 hskips rfl).2⟩

/-- A message without a time that was never counted is skipped, because the other message of its request was. -/
theorem untimed_message_skipped :
    let u : Updater := { store := .memory {}, policy := { suppressReplays := .bool true } }
    let detector : Detector := { answer := fun _ => .value (.text "en") }
    let timed : Message := { text := some "hi", time := some ⟨2026, 1, 2, 0, 0, 0, 0, none⟩ }
    let untimed : Message := { text := some "hello" }
    let request : Request := { messages := [timed, untimed] }
    let v := (u.performAll [.converse { messages := [timed] } detector]).1
    u.suppresses = true ∧ untimed ∈ request.messages ∧ untimed.isBlank = false ∧ untimed.time = none ∧
      v.skips request = true ∧ (v.converse request detector).events = [] := by
  decide +kernel

end Updater

end LanguageUsage
