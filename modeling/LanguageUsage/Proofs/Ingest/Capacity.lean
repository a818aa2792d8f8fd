import LanguageUsage.Proofs.Ingest.Report

/-!
# The capacity of the memory

The capacity of the replay memory may be any whole number. Where it is below zero, forgetting goes on until nothing is
left and then fails, so a request is reported as failed although it was counted.

* `ReplayMemory.trimTo_eq`: what is left by trimming, and how it ends;
* `Updater.remember_eq_rtake`: what is remembered of a request that was counted;
* `Updater.memory_bounded`: a memory that is within its capacity stays within it;
* `Updater.counted_requests_fail_below_zero`: how a request that was counted ends, for every capacity;
* `Updater.counted_request_fails`: a request that was counted and fails.
-/

namespace LanguageUsage

namespace ReplayMemory

/-- Below zero nothing is left, and the last removal fails. -/
theorem trimTo_of_neg {n : Int} (hn : n < 0) (m : ReplayMemory) :
    trimTo (.whole n) m = ([], .error .memoryEmpty) := by
  induction m with
  | nil => simp [trimTo, hn]
  | cons e es ih =>
    have hlt : n < es.length + 1 := by omega
    rw [trimTo, Number.lt_whole, if_pos (by simpa using hlt), ih]

/-- Trimming leaves the entries at the end, as many as there is room for. -/
theorem trimTo_eq (n : Int) (m : ReplayMemory) :
    trimTo (.whole n) m = (m.rtake n.toNat, if n < 0 then .error .memoryEmpty else .ok ()) := by
  by_cases hn : n < 0
  · rw [trimTo_of_neg hn, if_pos hn, Int.toNat_of_nonpos (Int.le_of_lt hn), List.rtake_zero]
  · obtain ⟨N, rfl⟩ := Int.eq_ofNat_of_zero_le (Int.not_lt.1 hn)
    rw [trimTo_whole, if_neg hn, Int.toNat_natCast]

theorem length_rtake_toNat (n : Int) (m : ReplayMemory) : ((m.rtake n.toNat).length : Int) ≤ max n 0 := by
  rw [List.rtake, List.length_drop]
  omega

end ReplayMemory

namespace Updater

variable {u : Updater} {n : Int}

theorem remember_eq_rtake (hs : u.suppresses = true) (hn : u.policy.capacity.number? = some (.whole n))
    (key : Value) (t : Int) : u.remember key (some t) =
      ({ u with memory := (u.memory.note key t).rtake n.toNat }, if n < 0 then .error .memoryEmpty else .ok ()) := by
  simp only [remember, hs, ReplayMemory.remember, ReplayMemory.trim, hn, ReplayMemory.trimTo_eq]

/-- Without a time there is nothing to remember. -/
theorem remember_none (u : Updater) (key : Value) : u.remember key none = (u, .ok ()) := by
  unfold remember
  cases u.suppresses <;> rfl

/-! ### Within the capacity -/

/-- **One call.** The memory is the one before, or what is left by trimming. -/
theorem memory_perform_bounded (hs : u.suppresses = true) (hn : u.policy.capacity.number? = some (.whole n))
    (hm : (u.memory.length : Int) ≤ max n 0) (c : Call) :
    ((u.perform c).updater.memory.length : Int) ≤ max n 0 := by
  have hnote : ∀ s : Store, (({ u with store := s }.note c).1.memory.length : Int) ≤ max n 0 := by
    intro s
    cases c with
    | classify tags => exact hm
    | converse request d =>
      rw [note]
      cases request.latest.map Moment.instant with
      | none => rwa [remember_none]
      | some t =>
        rw [remember_eq_rtake (u := { u with store := s }) hs hn]
        exact ReplayMemory.length_rtake_toNat n _
  rw [perform_eq]
  split
  · exact hm
  · exact hm
  · exact hm
  · dsimp only
    split
    · exact hm
    · exact hnote _

/-- **A run.** -/
theorem memory_bounded (hs : u.suppresses = true) (hn : u.policy.capacity.number? = some (.whole n))
    (hm : (u.memory.length : Int) ≤ max n 0) (cs : List Call) :
    ((u.performAll cs).1.memory.length : Int) ≤ max n 0 := by
  induction cs generalizing u with
  | nil => exact hm
  | cons c cs ih =>
    exact ih (by rw [suppresses_perform, hs]) (by rw [policy_perform, hn]) (memory_perform_bounded hs hn hm c)

/-! ### After counting -/

/-- What follows when all tags of a request are counted. -/
theorem ingest_of_counted {key : Value} {request : Request} {d : Detector} {tags : List String} {s : Store}
    {events : List Event} (hfound : (d.consult request.texts).2 = .ok tags)
    (hcount : incrementEach .conversationActions u.store (firstOccurrences tags) = (s, events, .ok ())) :
    u.ingest key request d =
      let noted := { u with store := s }.remember key (request.latest.map Moment.instant)
      ⟨noted.1, (d.consult request.texts).1.map .consulted ++ events, noted.2⟩ := by
  simp only [ingest, hfound, hcount]

/-- **How a request that was counted ends.** An updater skips replays, and its capacity is a whole number `n`; what it
remembers is arbitrary. A request that is skipped changes nothing, and one whose notification can be no key fails before
anything is asked for. Let the detector answer every text of any other request, and the store count every tag. Without a
time the request ends well, and the memory is as before. With a time the memory holds its last entries, at most `n` of
them and none if `n` is below zero, and the request ends well exactly if `n` is not below zero: otherwise it fails
because the memory is empty, after everything was counted.

A memory within its capacity is within it after every run. -/
theorem counted_requests_fail_below_zero (hs : u.suppresses = true)
    (hn : u.policy.capacity.number? = some (.whole n)) :
    (∀ (request : Request) (detector : Detector),
      let key := request.key u.policy.defaultKey
      let o := u.converse request detector
      (u.skips request = true → o = ⟨u, [], .ok ()⟩) ∧
      (request.isKeyed u.policy.defaultKey = false →
        o = ⟨u, [], .error (request.keyFault u.policy.defaultKey)⟩) ∧
      ∀ tags s events, u.skips request = false → request.isKeyed u.policy.defaultKey = true →
        (detector.consult request.texts).2 = .ok tags →
        incrementEach .conversationActions u.store (firstOccurrences tags) = (s, events, .ok ()) →
        o.events = (detector.consult request.texts).1.map .consulted ++ events ∧ o.updater.store = s ∧
        match request.latest.map Moment.instant with
        | none => o.result = .ok () ∧ o.updater.memory = u.memory
        | some t => o.updater.memory = (u.memory.note key t).rtake n.toNat ∧
            (o.updater.memory.length : Int) ≤ max n 0 ∧
            o.result = if n < 0 then .error .memoryEmpty else .ok ()) ∧
    ((u.memory.length : Int) ≤ max n 0 → ∀ cs, ((u.performAll cs).1.memory.length : Int) ≤ max n 0) := by
  refine ⟨fun request detector => ?_, memory_bounded hs hn⟩
  intro key o
  have ho : o = _ := converse_eq hs
  refine ⟨fun hskip => by rw [ho, if_pos hskip], fun hkey => ?_, ?_⟩
  · have hskip : u.skips request = false := by rw [skips, isReplay_eq hs, hkey]; rfl
    rw [ho, hskip, hkey]
    rfl
  · intro tags s events hskip hkey hfound hcount
    rw [hskip, if_neg Bool.false_ne_true, if_pos hkey, ingest_of_counted hfound hcount] at ho
    cases htime : request.latest.map Moment.instant with
    | none =>
      rw [htime, remember_none] at ho
      rw [ho]
      exact ⟨rfl, rfl, rfl, rfl⟩
    | some t =>
      rw [htime, remember_eq_rtake (u := { u with store := s }) hs hn] at ho
      rw [ho]
      exact ⟨rfl, rfl, rfl, ReplayMemory.length_rtake_toNat n _, rfl⟩

/-- A memory that is too full for its capacity is trimmed by the next request that has a time. -/
theorem counted_requests_fail_below_zero_of_full :
    let u : Updater :=
      { store := .memory {}, policy := { suppressReplays := .bool true, capacity := .whole 1 }
        memory := [(.text "a", 1), (.text "b", 2), (.text "c", 3)] }
    let request : Request := { messages := [{ text := some "hi", time := some ⟨2026, 1, 2, 0, 0, 0, 0, none⟩ }] }
    let o := u.converse request .byScript
    u.suppresses = true ∧ u.policy.capacity.number? = some (.whole 1) ∧
      (o.updater.memory.length : Int) ≤ max 1 0 ∧ o.result = .ok () := by
  intro u request o
  have hcounted := (counted_requests_fail_below_zero (u := u) (n := 1) rfl rfl).1 request .byScript
  have hasked : (Detector.byScript.consult request.texts).2 = .ok ["en"] := by decide +kernel
  let counted := incrementEach .conversationActions u.store (firstOccurrences ["en"])
  have hok : counted.2.2 = .ok () := by decide +kernel
  have hcount : counted = (counted.1, counted.2.1, .ok ()) := by rw [← hok]
  obtain ⟨-, -, -, hlength, hresult⟩ := hcounted.2.2 _ _ _ (by decide +kernel) (by decide +kernel) hasked hcount
  exact ⟨rfl, rfl, hlength, hresult⟩

/-- With a capacity below zero a request fails after it was counted. -/
theorem counted_request_fails :
    let u : Updater := { store := .memory {}, policy := { suppressReplays := .bool true, capacity := .whole (-1) } }
    let request : Request := { messages := [{ text := some "hi", time := some ⟨2026, 1, 2, 0, 0, 0, 0, none⟩ }] }
    let o := u.converse request .byScript
    (Detector.byScript.consult request.texts).2 = .ok ["en"] ∧
      (incrementEach .conversationActions u.store ["en"]).2.2 = .ok () ∧
      o.updater.store.rows = .ok [⟨"en", .conversationActions, .whole 1⟩] ∧
      o.result = .error .memoryEmpty := by
  decide +kernel

end Updater

end LanguageUsage
